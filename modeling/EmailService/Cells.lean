/-
Cells.lean

A heap of cells, each with the one who holds it.

A heap only grows at its end, and a cell changes only by a write.  `Holds` says
that a list of addresses holds a list of values in cells of one holder.  It is
kept by whatever others do: by every allocation (`Holds.append`), and by a
write to a cell of another holder (`Holds.write`).
-/
import Mathlib

namespace Cells

open List

variable {α κ : Type}

structure Cell (α κ : Type) where
  value : α
  holder : κ

abbrev Heap (α κ : Type) := List (Cell α κ)

/-- New cells for the values; the addresses are those at the end. -/
def alloc (heap : Heap α κ) (holder : κ) (values : List α) : List ℕ × Heap α κ :=
  (range' heap.length values.length, heap ++ values.map (⟨·, holder⟩))

/-- The values at the addresses. -/
def read (heap : Heap α κ) (addrs : List ℕ) : List α :=
  addrs.filterMap fun a => (heap[a]?).map Cell.value

def write (heap : Heap α κ) (addr : ℕ) (value : α) : Heap α κ :=
  heap.modify addr fun c => { c with value := value }

/-- The addresses are of cells of the holder with these values. -/
def Holds (heap : Heap α κ) (holder : κ) (addrs : List ℕ) (values : List α) : Prop :=
  addrs.map (heap[·]?) = values.map fun v => some ⟨v, holder⟩

variable {heap : Heap α κ} {holder other : κ} {addrs : List ℕ} {values : List α}

section

variable (h : Holds heap holder addrs values)

include h

theorem Holds.read_eq : read heap addrs = values := by
  induction addrs generalizing values with
  | nil => cases values <;> simp_all [Holds, read]
  | cons a addrs ih =>
    cases values with
    | nil => simp [Holds] at h
    | cons v values =>
      obtain ⟨ha, hrest⟩ := cons.inj h
      have ha' : (heap[a]?).map Cell.value = some v := congrArg (Option.map Cell.value) ha
      have hread := ih hrest
      unfold read at hread ⊢
      simp only [filterMap_cons, ha', hread]

theorem Holds.get {a : ℕ} (ha : a ∈ addrs) :
    ∃ v, heap[a]? = some ⟨v, holder⟩ := by
  have hmem : heap[a]? ∈ addrs.map (heap[·]?) := mem_map_of_mem ha
  rw [h, mem_map] at hmem
  obtain ⟨v, -, hv⟩ := hmem
  exact ⟨v, hv.symm⟩

/-- Cells stay where they are. -/
theorem Holds.append (more : Heap α κ) :
    Holds (heap ++ more) holder addrs values := by
  rw [Holds, ← h]
  refine map_congr_left fun a ha => ?_
  obtain ⟨v, hv⟩ := h.get ha
  rw [hv]
  exact List.getElem?_append_left (List.getElem?_eq_some_iff.mp hv).1 ▸ hv

end

theorem holds_alloc (heap : Heap α κ) (holder : κ) (values : List α) :
    Holds (alloc heap holder values).2 holder (alloc heap holder values).1 values := by
  unfold alloc Holds
  refine ext_getElem (by simp) fun i hi hi' => ?_
  rw [length_map, length_range'] at hi
  simp [hi]

/-- A write to a cell of another holder changes nothing. -/
theorem Holds.write (h : Holds heap holder addrs values) {a : ℕ} {v v' : α}
    (ha : heap[a]? = some ⟨v, other⟩) (hne : other ≠ holder) :
    Holds (write heap a v') holder addrs values := by
  rw [Holds, ← h]
  refine map_congr_left fun b hb => ?_
  obtain ⟨w, hw⟩ := h.get hb
  have hab : a ≠ b := by
    rintro rfl
    rw [ha] at hw
    exact hne (congrArg Cell.holder (Option.some.inj hw))
  simp only [Cells.write, getElem?_modify, if_neg hab]
  cases heap[b]? <;> rfl

/-- A write changes no holder. -/
theorem Holds.exists_write (h : Holds heap holder addrs values) (a : ℕ) (v : α) :
    ∃ values', Holds (Cells.write heap a v) holder addrs values' := by
  induction addrs generalizing values with
  | nil => exact ⟨[], rfl⟩
  | cons b addrs ih =>
    obtain ⟨w, hw⟩ := h.get mem_cons_self
    obtain ⟨x, hx⟩ : ∃ x, (Cells.write heap a v)[b]? = some ⟨x, holder⟩ := by
      simp only [Cells.write, getElem?_modify, hw, Option.map_eq_map, Option.map_some]
      split
      · exact ⟨v, rfl⟩
      · exact ⟨w, rfl⟩
    obtain ⟨values', hrest⟩ : ∃ values', Holds (Cells.write heap a v) holder addrs values' := by
      cases values with
      | nil => simp [Holds] at h
      | cons _ values => exact ih (cons.inj h).2
    refine ⟨x :: values', ?_⟩
    rw [Holds, map_cons, map_cons, hx, hrest]

end Cells
