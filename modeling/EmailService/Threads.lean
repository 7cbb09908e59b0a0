/-
EmailService/Threads.lean

Programs side by side over one world.

A `Pool` is a world and a list of threads.  Each thread is a program with a
ghost state that a `Monitor` keeps from the thread's own questions and replies;
the ghost states do not influence the run.  One step lets one thread ask its
next question, or lets it leave, or lets a new one enter.

`Invariant` is the rule.  What a thread does is known from its specification
alone (`Spec`), and a step of the world has to be looked at for one question at
a time: if the question passes the monitor, then the reply is one the monitor
reckons with, and the relation between the world and the ghost states is kept.
-/
import EmailService.Program

namespace Threads

open Program List

variable {S : Signature} {W σ : Type}

/-- How a world answers a question, and which programs enter it with which
ghost state. -/
structure Dynamics (S : Signature) (W σ : Type) where
  answer : W → (q : S.Query) → S.Reply q → W → Prop
  enter : W → Program S Unit → σ → W → Prop

structure Thread (S : Signature) (σ : Type) where
  ghost : σ
  program : Program S Unit

structure Pool (S : Signature) (W σ : Type) where
  world : W
  threads : List (Thread S σ)

inductive Step (D : Dynamics S W σ) (M : Monitor S σ) : Pool S W σ → Pool S W σ → Prop
  | act {w w' : W} {before after : List (Thread S σ)} {l : σ} {q : S.Query}
      {k : S.Reply q → Program S Unit} {r : S.Reply q} (h : D.answer w q r w') :
      Step D M ⟨w, before ++ ⟨l, ask q k⟩ :: after⟩ ⟨w', before ++ ⟨M.track l q r, k r⟩ :: after⟩
  | leave {w : W} {before after : List (Thread S σ)} {l : σ} :
      Step D M ⟨w, before ++ ⟨l, done ()⟩ :: after⟩ ⟨w, before ++ after⟩
  | enter {w w' : W} {ts : List (Thread S σ)} {p : Program S Unit} {l : σ}
      (h : D.enter w p l w') : Step D M ⟨w, ts⟩ ⟨w', ⟨l, p⟩ :: ts⟩

/-- Any number of steps. -/
abbrev Reaches (D : Dynamics S W σ) (M : Monitor S σ) : Pool S W σ → Pool S W σ → Prop :=
  Relation.ReflTransGen (Step D M)

/-- `Inv` relates the world to the ghost states; a thread may leave when its
ghost state is `Free`. -/
structure Invariant (D : Dynamics S W σ) (M : Monitor S σ) (Inv : W → List σ → Prop)
    (Free : σ → Prop) : Prop where
  act : ∀ {w w' : W} {before after : List σ} {l : σ} {q : S.Query} {r : S.Reply q},
    Inv w (before ++ l :: after) → M.Allows l q → D.answer w q r w' →
    M.Offers l q r ∧ Inv w' (before ++ M.track l q r :: after)
  leave : ∀ {w : W} {before after : List σ} {l : σ},
    Inv w (before ++ l :: after) → Free l → Inv w (before ++ after)
  enter : ∀ {w w' : W} {ls : List σ} {p : Program S Unit} {l : σ},
    Inv w ls → D.enter w p l w' → Inv w' (l :: ls) ∧ Spec M p l fun _ l' => Free l'

/-- The invariant holds, and every thread keeps to its specification. -/
structure Safe (M : Monitor S σ) (Inv : W → List σ → Prop) (Free : σ → Prop)
    (P : Pool S W σ) : Prop where
  inv : Inv P.world (P.threads.map Thread.ghost)
  spec : ∀ t ∈ P.threads, Spec M t.program t.ghost fun _ l => Free l

variable {D : Dynamics S W σ} {M : Monitor S σ} {Inv : W → List σ → Prop} {Free : σ → Prop}
  {P P' : Pool S W σ}

theorem Invariant.step (h : Invariant D M Inv Free) (hP : Safe M Inv Free P)
    (hstep : Step D M P P') : Safe M Inv Free P' := by
  obtain ⟨hinv, hspec⟩ := hP
  cases hstep with
  | @act w w' before after l q k r hanswer =>
    obtain ⟨hallow, hnext⟩ : Spec M (ask q k) l fun _ l => Free l :=
      hspec ⟨l, ask q k⟩ (mem_append_right _ mem_cons_self)
    simp only [map_append, map_cons] at hinv
    obtain ⟨hoffer, hinv'⟩ := h.act hinv hallow hanswer
    refine ⟨by simpa only [map_append, map_cons] using hinv', fun t ht => ?_⟩
    rcases mem_append.mp ht with ht | ht
    · exact hspec t (mem_append_left _ ht)
    · rcases mem_cons.mp ht with rfl | ht
      · exact hnext r hoffer
      · exact hspec t (mem_append_right _ (mem_cons_of_mem _ ht))
  | @leave w before after l =>
    have hfree : Free l :=
      hspec ⟨l, done ()⟩ (mem_append_right _ mem_cons_self)
    simp only [map_append, map_cons] at hinv
    refine ⟨by simpa only [map_append] using h.leave hinv hfree, fun t ht => hspec t ?_⟩
    rcases mem_append.mp ht with ht | ht
    · exact mem_append_left _ ht
    · exact mem_append_right _ (mem_cons_of_mem _ ht)
  | enter henter =>
    obtain ⟨hinv', hnew⟩ := h.enter hinv henter
    refine ⟨hinv', fun t ht => ?_⟩
    rcases mem_cons.mp ht with rfl | ht
    · exact hnew
    · exact hspec t ht

/-- **The run rule.** -/
theorem Invariant.reaches (h : Invariant D M Inv Free) (hP : Safe M Inv Free P)
    (hrun : Reaches D M P P') : Safe M Inv Free P' := by
  induction hrun with
  | refl => exact hP
  | tail _ hstep ih => exact h.step ih hstep

/-- The question a thread is about to ask has passed. -/
theorem Safe.allows (h : Safe M Inv Free P) {l : σ} {q : S.Query} {k : S.Reply q → Program S Unit}
    (ht : ⟨l, ask q k⟩ ∈ P.threads) : M.Allows l q :=
  (h.spec _ ht).1

/-! ### Runs by schedule -/

/-- Answers a world may give, one for each question. -/
structure Oracle (D : Dynamics S W σ) where
  answer : W → (q : S.Query) → Option (S.Reply q × W)
  sound : ∀ {w q r w'}, answer w q = some (r, w') → D.answer w q r w'

/-- Let thread `i` ask its next question, if it has one and gets an answer. -/
def Pool.step (o : Oracle D) (M : Monitor S σ) (i : ℕ) (P : Pool S W σ) : Pool S W σ :=
  match P.threads[i]? with
  | some ⟨l, ask q k⟩ =>
    match o.answer P.world q with
    | some (r, w') => ⟨w', P.threads.set i ⟨M.track l q r, k r⟩⟩
    | none => P
  | _ => P

/-- Let thread `i` ask `n` questions. -/
def Pool.advance (o : Oracle D) (M : Monitor S σ) (i : ℕ) : ℕ → Pool S W σ → Pool S W σ
  | 0, P => P
  | n + 1, P => (P.step o M i).advance o M i n

/-- The thread at a place, and the threads around it. -/
theorem split_at {ts : List (Thread S σ)} {i : ℕ} {t : Thread S σ} (h : ts[i]? = some t)
    (t' : Thread S σ) : ts = ts.take i ++ t :: ts.drop (i + 1) ∧
      ts.set i t' = ts.take i ++ t' :: ts.drop (i + 1) := by
  obtain ⟨hi, hget⟩ := List.getElem?_eq_some_iff.mp h
  refine ⟨?_, set_eq_take_append_cons_drop.trans (if_pos hi)⟩
  rw [← hget, ← drop_eq_getElem_cons hi, take_append_drop]

theorem reaches_step (o : Oracle D) (i : ℕ) (P : Pool S W σ) : Reaches D M P (P.step o M i) := by
  obtain ⟨w, ts⟩ := P
  unfold Pool.step
  split
  · next l q k hthread =>
    split
    · next r w' hanswer =>
      obtain ⟨hts, hset⟩ := split_at (show ts[i]? = _ from hthread) ⟨M.track l q r, k r⟩
      show Reaches D M ⟨w, ts⟩ ⟨w', ts.set i ⟨M.track l q r, k r⟩⟩
      rw [hset]
      nth_rewrite 1 [hts]
      exact .single (.act (o.sound hanswer))
    · exact .refl
  · exact .refl

theorem reaches_advance (o : Oracle D) (i n : ℕ) (P : Pool S W σ) :
    Reaches D M P (P.advance o M i n) := by
  induction n generalizing P with
  | zero => exact .refl
  | succ n ih => exact (reaches_step o i P).trans (ih _)

end Threads
