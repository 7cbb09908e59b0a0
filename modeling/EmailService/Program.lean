/-
EmailService/Program.lean

Programs that question their surroundings, and a logic for them.

A `Program` is done, or asks one question and goes on with the reply.  What
can be asked, and what can be replied to each question, is a `Signature`.
Nothing is said here about where replies come from, so the same program can be
run alone against a strategy of its surroundings (`play`) or as one thread
among others.

A `Monitor` follows a run from outside.  It keeps a state, it says which
replies are possible in a state, and which questions it lets pass:

    Spec M p l Q

from the monitor state `l`, the program `p` asks only what the monitor `M`
lets pass, and when it is done with a result `b` in the state `l'`, then
`Q b l'`.  A program is a well-founded tree, so that it always gets done.
-/
import Mathlib

/-- The questions a program may ask, and the replies to each of them. -/
structure Signature where
  Query : Type
  Reply : Query → Type

/-- A program over the questions of `S` with results in `β`. -/
inductive Program (S : Signature) (β : Type) : Type
  | done (b : β)
  | ask (q : S.Query) (k : S.Reply q → Program S β)

namespace Program

variable {S T : Signature} {β γ σ : Type}

def bind : Program S β → (β → Program S γ) → Program S γ
  | done b, f => f b
  | ask q k, f => ask q fun r => (k r).bind f

instance : Monad (Program S) where
  pure := done
  bind := bind

/-- Ask one question. -/
def query (q : S.Query) : Program S (S.Reply q) := ask q done

/-! ### Runs -/

/-- A question with the reply it got. -/
abbrev Event (S : Signature) := (q : S.Query) × S.Reply q

/-- `Follows p tr p'`: with the questions and replies `tr`, the program `p`
comes to `p'`. -/
inductive Follows : Program S β → List (Event S) → Program S β → Prop
  | nil (p : Program S β) : Follows p [] p
  | cons {q : S.Query} {k : S.Reply q → Program S β} {r : S.Reply q} {tr : List (Event S)}
      {p' : Program S β} (h : Follows (k r) tr p') : Follows (ask q k) (⟨q, r⟩ :: tr) p'

/-- A strategy of the surroundings: the reply to a question after a history. -/
def Strategy (S : Signature) := List (Event S) → (q : S.Query) → S.Reply q

/-- Run a program against a strategy: the events after the history, and the
result. -/
def play (w : Strategy S) : List (Event S) → Program S β → List (Event S) × β
  | _, done b => ([], b)
  | past, ask q k =>
    let r := w past q
    let rest := (k r).play w (past ++ [⟨q, r⟩])
    (⟨q, r⟩ :: rest.1, rest.2)

theorem play_follows (w : Strategy S) (past : List (Event S)) (p : Program S β) :
    Follows p (p.play w past).1 (done (p.play w past).2) := by
  induction p generalizing past with
  | done b => exact .nil _
  | ask q k ih => exact .cons (ih _ _)

end Program

/-! ### Monitors -/

/-- An observer with states `σ` of programs over `S`. -/
structure Monitor (S : Signature) (σ : Type) where
  /-- the state after a question and its reply -/
  track : σ → (q : S.Query) → S.Reply q → σ
  /-- the replies that are possible in a state -/
  Offers : σ → (q : S.Query) → S.Reply q → Prop := fun _ _ _ => True
  /-- the questions that pass in a state -/
  Allows : σ → S.Query → Prop := fun _ _ => True

namespace Monitor

variable {S : Signature} {σ : Type}

/-- The state of the monitor after a list of events. -/
def observe (M : Monitor S σ) (l : σ) (tr : List (Program.Event S)) : σ :=
  tr.foldl (fun l e => M.track l e.1 e.2) l

/-- Every reply was possible when it came. -/
def Admits (M : Monitor S σ) : σ → List (Program.Event S) → Prop
  | _, [] => True
  | l, e :: tr => M.Offers l e.1 e.2 ∧ M.Admits (M.track l e.1 e.2) tr

theorem admits_of_offers {M : Monitor S σ} (h : ∀ l q r, M.Offers l q r) (l : σ)
    (tr : List (Program.Event S)) : M.Admits l tr := by
  induction tr generalizing l with
  | nil => trivial
  | cons e tr ih => exact ⟨h _ _ _, ih _⟩

end Monitor

namespace Program

variable {S T : Signature} {β γ σ : Type} {M : Monitor S σ}

/-- What a program does under the eyes of a monitor. -/
def Spec (M : Monitor S σ) : Program S β → σ → (β → σ → Prop) → Prop
  | done b, l, Q => Q b l
  | ask q k, l, Q => M.Allows l q ∧ ∀ r, M.Offers l q r → Spec M (k r) (M.track l q r) Q

variable {f : β → Program S γ} {l : σ} {Q Q' : β → σ → Prop} {p p' : Program S β} {τ : Type}
  {N : Monitor S τ}

theorem spec_ask {q : S.Query} {f : S.Reply q → Program S γ} {Q : γ → σ → Prop}
    (hallow : M.Allows l q) (h : ∀ r, M.Offers l q r → Spec M (f r) (M.track l q r) Q) :
    Spec M (query q >>= f) l Q :=
  ⟨hallow, h⟩

/-- A question the monitor does not react to. -/
theorem spec_ask_still {q : S.Query} {f : S.Reply q → Program S γ} {Q : γ → σ → Prop}
    (hallow : M.Allows l q) (hstill : ∀ r, M.track l q r = l) (h : ∀ r, Spec M (f r) l Q) :
    Spec M (query q >>= f) l Q :=
  ⟨hallow, fun r _ => by rw [hstill r]; exact h r⟩

theorem spec_bind {Q : γ → σ → Prop} :
    Spec M (p >>= f) l Q ↔ Spec M p l fun b l' => Spec M (f b) l' Q := by
  induction p generalizing l with
  | done b => rfl
  | ask q k ih => exact and_congr .rfl (forall_congr' fun r => imp_congr .rfl (ih r))

theorem spec_ite {c : Prop} [Decidable c] {q : Program S β} (hp : c → Spec M p l Q)
    (hq : ¬c → Spec M q l Q) : Spec M (if c then p else q) l Q := by
  split
  · next h => exact hp h
  · next h => exact hq h

theorem Spec.mono (h : Spec M p l Q) (hQ : ∀ b l', Q b l' → Q' b l') : Spec M p l Q' := by
  induction p generalizing l with
  | done b => exact hQ b l h
  | ask q k ih => exact ⟨h.1, fun r hr => ih r (h.2 r hr)⟩

/-- The rule for a call: the specification of the called program, then that of
the rest from every state it may end in. -/
theorem Spec.bind {R : γ → σ → Prop} (h : Spec M p l Q) (hf : ∀ b l', Q b l' → Spec M (f b) l' R) :
    Spec M (p >>= f) l R :=
  spec_bind.mpr (h.mono hf)

theorem Spec.and (h : Spec M p l Q) (h' : Spec M p l Q') :
    Spec M p l fun b l' => Q b l' ∧ Q' b l' := by
  induction p generalizing l with
  | done b => exact ⟨h, h'⟩
  | ask q k ih => exact ⟨h.1, fun r hr => ih r (h.2 r hr) (h'.2 r hr)⟩

/-- A specification for the part `π` of the monitor state that another monitor
keeps by itself. -/
theorem Spec.view (π : σ → τ) {Q : β → τ → Prop} (h : Spec N p (π l) Q)
    (allows : ∀ l q, N.Allows (π l) q → M.Allows l q)
    (offers : ∀ l q r, M.Offers l q r → N.Offers (π l) q r)
    (track : ∀ l q r, π (M.track l q r) = N.track (π l) q r) :
    Spec M p l fun b l' => Q b (π l') := by
  induction p generalizing l with
  | done b => exact h
  | ask q k ih =>
    refine ⟨allows l q h.1, fun r hr => ih r ?_⟩
    rw [track]
    exact h.2 r (offers l q r hr)

/-- A specification under a monitor that sees more, for the part `π` of its
state. -/
theorem Spec.image (π : σ → τ) (h : Spec M p l Q) (allows : ∀ l q, M.Allows l q → N.Allows (π l) q)
    (offers : ∀ l q r, N.Offers (π l) q r → M.Offers l q r)
    (track : ∀ l q r, π (M.track l q r) = N.track (π l) q r) :
    Spec N p (π l) fun b t => ∃ l', π l' = t ∧ Q b l' := by
  induction p generalizing l with
  | done b => exact ⟨l, rfl, h⟩
  | ask q k ih =>
    refine ⟨allows l q h.1, fun r hr => ?_⟩
    rw [← track]
    exact ih r (h.2 r (offers l q r hr))

/-- A relation that every event keeps relates the first state to the last. -/
theorem Spec.along (R : σ → σ → Prop) (refl : ∀ l, R l l)
    (trans : ∀ {l₁ l₂ l₃}, R l₁ l₂ → R l₂ l₃ → R l₁ l₃) (step : ∀ l q r, R l (M.track l q r))
    (h : Spec M p l Q) : Spec M p l fun b l' => Q b l' ∧ R l l' := by
  induction p generalizing l with
  | done b => exact ⟨h, refl l⟩
  | ask q k ih =>
    refine ⟨h.1, fun r hr => (ih r (h.2 r hr)).mono fun b l' hb => ?_⟩
    exact ⟨hb.1, trans (step l q r) hb.2⟩

/-- A specification holds at every point of a run. -/
theorem Spec.follows {tr : List (Event S)} (h : Spec M p l Q) (htr : Follows p tr p')
    (hadm : M.Admits l tr) : Spec M p' (M.observe l tr) Q := by
  induction htr generalizing l with
  | nil p => exact h
  | cons _ ih => exact ih (h.2 _ hadm.1) hadm.2

/-- A question that is asked in a run was let pass. -/
theorem Spec.allows {before after : List (Event S)} {e : Event S} (h : Spec M p l Q)
    (htr : Follows p (before ++ e :: after) p') (hadm : M.Admits l before) :
    M.Allows (M.observe l before) e.1 := by
  induction before generalizing p l with
  | nil =>
    cases htr
    exact h.1
  | cons e' before ih =>
    cases htr with
    | cons hrest => exact ih (h.2 _ hadm.1) hrest hadm.2

/-- The run rule, for a monitor that reckons with every reply. -/
theorem Spec.play (h : Spec M p l Q) (hoffers : ∀ l q r, M.Offers l q r) (w : Strategy S)
    (past : List (Event S)) : Q (p.play w past).2 (M.observe l (p.play w past).1) :=
  h.follows (play_follows w past p) (Monitor.admits_of_offers hoffers _ _)

/-! ### Programs over a smaller signature -/

/-- The questions of `S` are among those of `T`. -/
structure Inclusion (S T : Signature) where
  query : S.Query → T.Query
  replies : ∀ q, T.Reply (query q) ≃ S.Reply q

/-- A program over the smaller signature, read over the larger one. -/
def lift (e : Inclusion S T) : Program S β → Program T β
  | done b => done b
  | ask q k => ask (e.query q) fun r => lift e (k (e.replies q r))

/-- What a monitor of the larger signature sees of the smaller one. -/
def Inclusion.restrict (e : Inclusion S T) (M : Monitor T σ) : Monitor S σ where
  track l q r := M.track l (e.query q) ((e.replies q).symm r)
  Offers l q r := M.Offers l (e.query q) ((e.replies q).symm r)
  Allows l q := M.Allows l (e.query q)

theorem spec_lift {M : Monitor T σ} {e : Inclusion S T} :
    Spec M (p.lift e) l Q ↔ Spec (e.restrict M) p l Q := by
  induction p generalizing l with
  | done b => rfl
  | ask q k ih =>
    refine and_congr .rfl ⟨fun h r hr => ?_, fun h r hr => ?_⟩
    · have hlift : Spec M ((k (e.replies q ((e.replies q).symm r))).lift e) _ Q :=
        h ((e.replies q).symm r) hr
      rw [Equiv.apply_symm_apply] at hlift
      exact (ih r).mp hlift
    · have hr' : M.Offers l (e.query q) ((e.replies q).symm (e.replies q r)) := by
        rwa [Equiv.symm_apply_apply]
      have hrun := (ih (e.replies q r)).mpr (h (e.replies q r) hr')
      simpa only [Inclusion.restrict, Equiv.symm_apply_apply] using hrun

end Program
