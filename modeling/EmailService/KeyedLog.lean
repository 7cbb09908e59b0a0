/-
EmailService/KeyedLog.lean

Last-writer-wins logs over an arbitrary key type.

A table is a partial function `κ → Option ν`; a log is a list of changes
`(k, some v)` (put) or `(k, none)` (drop), replayed from the left.  Two facts
carry everything built on top:

* replay composes along append (`replayFrom_append`), so appending a record
  is one more `Function.update`;
* a log that only restates what the table already holds is a no-op
  (`replayFrom_of_agrees`), and it rebuilds the table from anything smaller as
  soon as it mentions every key (`replayFrom_of_complete`).  This is what makes
  a snapshot interchangeable with the history it replaces.

The last section relates a table to its image under a value map, which is how
a recovery that rewrites values on the way in is compared with the live table.
-/
import Mathlib

namespace KeyedLog

open List Function

variable {κ : Type*} [DecidableEq κ] {ν μ : Type*} (m : κ → Option ν)

/-- One change applied to a table. -/
def applyChange (c : κ × Option ν) : κ → Option ν :=
  update m c.1 c.2

/-- Replay a log over a table, oldest change first. -/
def replayFrom (log : List (κ × Option ν)) : κ → Option ν :=
  log.foldl applyChange m

@[simp] theorem replayFrom_cons (c : κ × Option ν) (log : List (κ × Option ν)) :
    replayFrom m (c :: log) = replayFrom (update m c.1 c.2) log := rfl

theorem replayFrom_append (l₁ l₂ : List (κ × Option ν)) :
    replayFrom m (l₁ ++ l₂) = replayFrom (replayFrom m l₁) l₂ :=
  foldl_append

variable {m n : κ → Option ν} {log : List (κ × Option ν)} {k : κ}

/-- A key the log does not mention keeps its value. -/
theorem replayFrom_apply_of_notMem (h : ∀ c ∈ log, c.1 ≠ k) : replayFrom m log k = m k := by
  induction log generalizing m with
  | nil => rfl
  | cons c log ih =>
    rw [replayFrom_cons, ih fun d hd => h d (mem_cons_of_mem _ hd)]
    exact update_of_ne (h c mem_cons_self).symm _ _

/-- A key the log does mention takes its value from the log alone: two tables
replayed through it agree there. -/
theorem replayFrom_apply_of_mem (h : ∃ c ∈ log, c.1 = k) :
    replayFrom m log k = replayFrom n log k := by
  induction log generalizing m n with
  | nil => obtain ⟨c, hc, -⟩ := h; cases hc
  | cons c log ih =>
    simp only [replayFrom_cons]
    by_cases hk : ∃ d ∈ log, d.1 = k
    · exact ih hk
    · have hno : ∀ d ∈ log, d.1 ≠ k := fun d hd he => hk ⟨d, hd, he⟩
      have hck : c.1 = k := by
        obtain ⟨d, hd, hdk⟩ := h
        rcases mem_cons.mp hd with rfl | hd
        · exact hdk
        · exact absurd hdk (hno d hd)
      rw [replayFrom_apply_of_notMem hno, replayFrom_apply_of_notMem hno, ← hck]
      simp

/-! ### Logs that restate a table -/

/-- Every change of the log says what the table already says. -/
def Agrees (m : κ → Option ν) (log : List (κ × Option ν)) : Prop :=
  ∀ c ∈ log, c.2 = m c.1

/-- Restating a table does not change it. -/
theorem replayFrom_of_agrees (h : Agrees m log) : replayFrom m log = m := by
  induction log with
  | nil => rfl
  | cons c log ih =>
    rw [replayFrom_cons, h c mem_cons_self, update_eq_self]
    exact ih fun d hd => h d (mem_cons_of_mem _ hd)

/-- **A complete snapshot rebuilds the table**, over anything that holds no
further keys. -/
theorem replayFrom_of_complete (h : Agrees m log) (hall : ∀ k, m k ≠ none → ∃ c ∈ log, c.1 = k)
    (hsub : ∀ k, m k = none → n k = none) : replayFrom n log = m := by
  funext k
  by_cases hk : ∃ c ∈ log, c.1 = k
  · rw [replayFrom_apply_of_mem (n := m) hk, replayFrom_of_agrees h]
  · have hno : ∀ c ∈ log, c.1 ≠ k := fun c hc he => hk ⟨c, hc, he⟩
    have hnone : m k = none := by
      by_contra hne
      exact hk (hall k hne)
    rw [replayFrom_apply_of_notMem hno, hnone, hsub k hnone]

/-! ### Dropping keys -/

/-- The table without the keys `ks`. -/
def dropAll (m : κ → Option ν) (ks : List κ) : κ → Option ν :=
  replayFrom m (ks.map fun k => (k, none))

@[simp] theorem dropAll_nil (m : κ → Option ν) : dropAll m [] = m := rfl

theorem dropAll_apply (m : κ → Option ν) (ks : List κ) (k : κ) :
    dropAll m ks k = if k ∈ ks then none else m k := by
  induction ks generalizing m with
  | nil => rfl
  | cons k' ks ih =>
    have hstep : dropAll m (k' :: ks) k = dropAll (update m k' none) ks k := rfl
    rw [hstep, ih]
    by_cases hk : k = k'
    · simp [hk]
    · simp [hk]

theorem dropAll_append (m : κ → Option ν) (ks ks' : List κ) :
    dropAll m (ks ++ ks') = dropAll (dropAll m ks) ks' := by
  unfold dropAll
  rw [map_append, replayFrom_append]

/-- Keys dropped before a log stay dropped, except those the log writes. -/
theorem replayFrom_dropAll (m : κ → Option ν) (ks : List κ) (log : List (κ × Option ν)) :
    replayFrom (dropAll m ks) log =
      dropAll (replayFrom m log) (ks.filter fun k => k ∉ log.map Prod.fst) := by
  funext k
  rw [dropAll_apply]
  by_cases hk : ∃ c ∈ log, c.1 = k
  · have hmem : k ∈ log.map Prod.fst := by simpa using hk
    rw [if_neg (by simp [hmem]), replayFrom_apply_of_mem (n := m) hk]
  · have hno : ∀ c ∈ log, c.1 ≠ k := fun c hc he => hk ⟨c, hc, he⟩
    have hmem : k ∉ log.map Prod.fst := by simpa using hk
    rw [replayFrom_apply_of_notMem hno, replayFrom_apply_of_notMem hno, dropAll_apply]
    by_cases hks : k ∈ ks
    · rw [if_pos hks, if_pos (mem_filter.mpr ⟨hks, decide_eq_true hmem⟩)]
    · rw [if_neg hks, if_neg fun h => hks (mem_filter.mp h).1]

/-! ### Tables seen through a value map -/

variable (f : ν → μ)

/-- The table with every value rewritten by `f`. -/
def mapValues (m : κ → Option ν) : κ → Option μ := fun k => (m k).map f

omit [DecidableEq κ] in
@[simp] theorem mapValues_apply (m : κ → Option ν) (k : κ) :
    mapValues f m k = (m k).map f := rfl

theorem mapValues_update (m : κ → Option ν) (k : κ) (o : Option ν) :
    mapValues f (update m k o) = update (mapValues f m) k (o.map f) := by
  funext k'
  exact apply_update (fun _ => Option.map f) m k o k'

/-- Replaying commutes with rewriting the values. -/
theorem mapValues_replayFrom (m : κ → Option ν) (log : List (κ × Option ν)) :
    mapValues f (replayFrom m log) =
      replayFrom (mapValues f m) (log.map fun c => (c.1, c.2.map f)) := by
  induction log generalizing m with
  | nil => rfl
  | cons c log ih =>
    rw [replayFrom_cons, ih, mapValues_update, map_cons, replayFrom_cons]

theorem mapValues_dropAll (m : κ → Option ν) (ks : List κ) :
    mapValues f (dropAll m ks) = dropAll (mapValues f m) ks := by
  unfold dropAll
  rw [mapValues_replayFrom, map_map]
  rfl

end KeyedLog
