/-
EmailService/Traced.lean

Fallible computations over a state, together with the states they pass
through, and a program logic for them.

A crash stops a computation at one of the states it passes through, so beside
a postcondition for success and one for failure a specification has a *crash
condition*, which every state passed through must meet:

    Spec P m Q E C

from a state in `P`, the computation `m` passes only through states in `C`,
ends in `Q` with its result if it succeeds, and in `E` if it fails.
-/
import Mathlib

/-- A computation: the states passed through, the result, the last state. -/
def Traced (σ β : Type) : Type := σ → List σ × Except String β × σ

namespace Traced

open List

variable {σ β γ : Type}

/-- Return without touching the state. -/
def ret (b : β) : Traced σ β := fun s => ([], .ok b, s)

/-- Fail without touching the state. -/
def fail (err : String) : Traced σ β := fun s => ([], .error err, s)

/-- Read the state. -/
def read : Traced σ σ := fun s => ([], .ok s, s)

/-- One atomic change of the state. -/
def step (f : σ → σ) : Traced σ Unit := fun s => ([f s], .ok (), f s)

/-- Fail if there is an error. -/
def check : Option String → Traced σ Unit
  | none => ret ()
  | some err => fail err

def bind (m : Traced σ β) (k : β → Traced σ γ) : Traced σ γ := fun s =>
  match m s with
  | (l, .error err, s') => (l, .error err, s')
  | (l, .ok b, s') =>
    match k b s' with
    | (l', r, s'') => (l ++ l', r, s'')

/-- Clean up by `f` if `m` fails. -/
def onError (m : Traced σ β) (f : σ → σ) : Traced σ β := fun s =>
  match m s with
  | (l, .error err, s') => (l ++ [f s'], .error err, f s')
  | (l, .ok b, s') => (l, .ok b, s')

instance : Monad (Traced σ) where
  pure := ret
  bind := bind

/-! ### Specifications -/

/-- Success in `Q`, failure in `E`. -/
def Ends (Q : β → σ → Prop) (E : σ → Prop) : Except String β → σ → Prop
  | .ok b, s => Q b s
  | .error _, s => E s

/-- From `P`, pass only through `C` and end in `Q` or `E`. -/
def Spec (P : σ → Prop) (m : Traced σ β) (Q : β → σ → Prop) (E C : σ → Prop) : Prop :=
  ∀ s, P s → (∀ t ∈ (m s).1, C t) ∧ Ends Q E (m s).2.1 (m s).2.2

variable {P P' : σ → Prop} {Q Q' : β → σ → Prop} {R : γ → σ → Prop} {E E' C C' : σ → Prop}
  {m : Traced σ β} {f : σ → σ}

theorem Spec.weaken (h : Spec P m Q E C) (hP : ∀ s, P' s → P s) (hQ : ∀ b s, Q b s → Q' b s)
    (hE : ∀ s, E s → E' s) (hC : ∀ s, C s → C' s) : Spec P' m Q' E' C' := by
  intro s hs
  obtain ⟨hc, hend⟩ := h s (hP s hs)
  refine ⟨fun t ht => hC t (hc t ht), ?_⟩
  rcases hr : (m s).2.1 with err | b
  · rw [hr] at hend; exact hE _ hend
  · rw [hr] at hend; exact hQ _ _ hend

/-- A part of the precondition that is not about the state. -/
theorem Spec.of_pure {A : Prop} (h : A → Spec P m Q E C) : Spec (fun s => A ∧ P s) m Q E C :=
  fun s hs => h hs.1 s hs.2

theorem Spec.ret {b : β} (h : ∀ s, P s → Q b s) : Spec P (ret b) Q E C :=
  fun s hs => ⟨fun _ ht => (not_mem_nil ht).elim, h s hs⟩

theorem Spec.fail {err : String} (h : ∀ s, P s → E s) :
    Spec P (fail err : Traced σ β) Q E C :=
  fun s hs => ⟨fun _ ht => (not_mem_nil ht).elim, h s hs⟩

/-- The step rule: the new state meets the postcondition and the crash
condition. -/
theorem Spec.step {Q : Unit → σ → Prop} (hQ : ∀ s, P s → Q () (f s)) (hC : ∀ s, P s → C (f s)) :
    Spec P (step f) Q E C := by
  intro s hs
  refine ⟨fun t ht => ?_, hQ s hs⟩
  rw [mem_singleton.mp ht]
  exact hC s hs

theorem Spec.check {o : Option String} (h : ∀ s, P s → E s) :
    Spec P (check o) (fun _ s => P s) E C := by
  cases o with
  | none => exact .ret fun _ hs => hs
  | some err => exact .fail h

theorem Spec.bind {k : β → Traced σ γ} (hm : Spec P m Q E C) (hk : ∀ b, Spec (Q b) (k b) R E C) :
    Spec P (m >>= k) R E C := by
  intro s hs
  obtain ⟨hc, hend⟩ := hm s hs
  change (∀ t ∈ (Traced.bind m k s).1, C t) ∧
    Ends R E (Traced.bind m k s).2.1 (Traced.bind m k s).2.2
  rcases hms : m s with ⟨l, r, s'⟩
  rw [hms] at hc hend
  rcases r with err | b
  · simp only [Traced.bind, hms]
    exact ⟨hc, hend⟩
  · obtain ⟨hc', hend'⟩ := hk b s' hend
    simp only [Traced.bind, hms]
    refine ⟨fun t ht => ?_, hend'⟩
    rcases mem_append.mp ht with ht | ht
    · exact hc t ht
    · exact hc' t ht

/-- Reading fixes the state the continuation starts from. -/
theorem Spec.read_bind {k : σ → Traced σ γ} (h : ∀ s, P s → Spec (· = s) (k s) R E C) :
    Spec P (read >>= k) R E C :=
  fun s hs => h s hs s rfl

theorem Spec.onError (hm : Spec P m Q E C) (hE : ∀ s, E s → E' (f s)) (hC : ∀ s, E s → C (f s)) :
    Spec P (onError m f) Q E' C := by
  intro s hs
  obtain ⟨hc, hend⟩ := hm s hs
  rcases hms : m s with ⟨l, r, s'⟩
  rw [hms] at hc hend
  rcases r with err | b
  · simp only [Traced.onError, hms]
    refine ⟨fun t ht => ?_, hE s' hend⟩
    rcases mem_append.mp ht with ht | ht
    · exact hc t ht
    · rw [mem_singleton.mp ht]
      exact hC s' hend
  · simp only [Traced.onError, hms]
    exact ⟨hc, hend⟩

end Traced
