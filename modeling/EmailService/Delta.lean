/-
Delta.lean

Differences between two states of a collection, as clients apply them.

For lists the difference is an edit script: the elements to remove, and the
elements to insert with their places in the new list.  `splice_script` says that
it leads from the old list to the new one if the elements both have stand in the
same order, which is the case if both are sorted by one strict order.

For maps the difference is the set of keys with different values, reported page by
page.  A client drops the keys that are gone and fetches the others; after pages that
report every difference it has the new map (`refreshAll_eq`).
-/
import Mathlib

namespace Delta

open List

/-! ### Lists -/

section Lists

variable {α : Type} [DecidableEq α]

/-- The elements of the old list that are gone. -/
def removed (old new : List α) : List α := old.filter (· ∉ new)

/-- The elements of the new list that were not in the old one, with their places; the new list
starts at place `n`. -/
def added (old : List α) : ℕ → List α → List (ℕ × α)
  | _, [] => []
  | n, a :: new => if a ∈ old then added old (n + 1) new else (n, a) :: added old (n + 1) new

/-- Remove, then insert one by one. -/
def splice (l gone : List α) (come : List (ℕ × α)) : List α :=
  come.foldl (fun l p => l.insertIdx p.1 p.2) (l.filter (· ∉ gone))

variable {old new : List α}

theorem le_of_mem_added {n : ℕ} {p : ℕ × α} (h : p ∈ added old n new) : n ≤ p.1 := by
  induction new generalizing n with
  | nil => cases h
  | cons a new ih =>
    rw [added] at h
    split at h
    · exact (Nat.le_succ n).trans (ih h)
    · rcases mem_cons.mp h with rfl | h
      · exact le_rfl
      · exact (Nat.le_succ n).trans (ih h)

/-- The places increase. -/
theorem added_increasing (old new : List α) (n : ℕ) :
    (added old n new).Pairwise fun p q => p.1 < q.1 := by
  induction new generalizing n with
  | nil => exact .nil
  | cons a new ih =>
    rw [added]
    split
    · exact ih _
    · exact .cons (fun q hq => le_of_mem_added hq) (ih _)

omit [DecidableEq α] in
theorem insertIdx_length_append (l m : List α) (a : α) :
    (l ++ m).insertIdx l.length a = l ++ ([a] ++ m) := by
  induction l with
  | nil => rfl
  | cons b l ih => exact congrArg (b :: ·) ih

/-- Inserting fills in a list whose first part is complete. -/
theorem foldl_added (old done new : List α) :
    (added old done.length new).foldl (fun l p => l.insertIdx p.1 p.2)
      (done ++ new.filter (· ∈ old)) = done ++ new := by
  induction new generalizing done with
  | nil => rfl
  | cons a new ih =>
    have ih' := ih (done ++ [a])
    rw [length_append, length_singleton, append_assoc, append_assoc] at ih'
    rw [added]
    by_cases ha : a ∈ old
    · rw [if_pos ha, filter_cons_of_pos (by simpa using ha)]
      exact ih'
    · have hinsert : (done ++ new.filter (· ∈ old)).insertIdx done.length a =
          done ++ ([a] ++ new.filter (· ∈ old)) := insertIdx_length_append _ _ _
      rw [if_neg ha, filter_cons_of_neg (by simpa using ha), foldl_cons, hinsert]
      exact ih'

/-- **Edit script.**  It leads to the new list if the common elements keep their order. -/
theorem splice_script (h : old.filter (· ∈ new) = new.filter (· ∈ old)) :
    splice old (removed old new) (added old 0 new) = new := by
  have hkept : old.filter (· ∉ removed old new) = new.filter (· ∈ old) := by
    rw [← h]
    refine filter_congr fun a ha => ?_
    simp [removed, ha]
  rw [splice, hkept]
  exact foldl_added old [] new

/-- Lists sorted by one strict order have their common elements in one order. -/
theorem filter_comm_of_pairwise {R : α → α → Prop} (hasymm : ∀ a b, R a b → ¬R b a)
    (hold : old.Pairwise R) (hnew : new.Pairwise R) :
    old.filter (· ∈ new) = new.filter (· ∈ old) := by
  have hirrefl : ∀ a b, R a b → a ≠ b := fun a b h heq => hasymm a b h (heq ▸ h)
  refine Perm.eq_of_pairwise (fun a b _ _ hab hba => absurd hba (hasymm a b hab))
    (hold.filter _) (hnew.filter _) ?_
  refine (perm_ext_iff_of_nodup ((hold.imp (hirrefl _ _)).filter _)
    ((hnew.imp (hirrefl _ _)).filter _)).mpr fun a => ?_
  simp [and_comm]

end Lists

/-! ### Maps -/

section Maps

variable {κ ν : Type} [DecidableEq κ]

/-- What a page reports: keys that are gone, and keys to fetch. -/
structure Page (κ : Type) where
  gone : List κ
  come : List κ

/-- The page reports the key. -/
def Page.Reports (p : Page κ) (k : κ) : Prop := k ∈ p.gone ∨ k ∈ p.come

variable (server : κ → Option ν)

/-- A client follows a page, with the map of the server at hand. -/
def refresh (client : κ → Option ν) (p : Page κ) : κ → Option ν := fun k =>
  if k ∈ p.gone then none else if k ∈ p.come then server k else client k

/-- A client follows several pages. -/
def refreshAll (client : κ → Option ν) (pages : List (Page κ)) : κ → Option ν :=
  pages.foldl (refresh server) client

/-- Keys that are reported as gone are gone. -/
def Page.Honest (p : Page κ) : Prop := ∀ k ∈ p.gone, server k = none

variable {server client : κ → Option ν} {p : Page κ} {k : κ} {pages : List (Page κ)}

theorem refresh_of_reports (hp : p.Honest server) (hk : p.Reports k) :
    refresh server client p k = server k := by
  unfold refresh
  split
  · next hgone => exact (hp k hgone).symm
  · next hgone => rw [if_pos (hk.resolve_left hgone)]

theorem refresh_of_not_reports (hk : ¬p.Reports k) : refresh server client p k = client k := by
  obtain ⟨hgone, hcome⟩ := not_or.mp hk
  rw [refresh, if_neg hgone, if_neg hcome]

/-- A key on which client and server agree stays so. -/
theorem refreshAll_of_eq (hpages : ∀ p ∈ pages, p.Honest server) (hk : client k = server k) :
    refreshAll server client pages k = server k := by
  induction pages generalizing client with
  | nil => exact hk
  | cons p pages ih =>
    refine ih (fun p' hp' => hpages p' (mem_cons_of_mem _ hp')) ?_
    by_cases hrep : p.Reports k
    · exact refresh_of_reports (hpages p mem_cons_self) hrep
    · exact (refresh_of_not_reports hrep).trans hk

/-- **Pages that report every difference lead to the map of the server.** -/
theorem refreshAll_eq (hpages : ∀ p ∈ pages, p.Honest server)
    (hall : ∀ k, client k ≠ server k → ∃ p ∈ pages, p.Reports k) :
    refreshAll server client pages = server := by
  funext k
  by_cases hk : client k = server k
  · exact refreshAll_of_eq hpages hk
  obtain ⟨p, hp, hrep⟩ := hall k hk
  obtain ⟨before, after, rfl⟩ := append_of_mem hp
  have hafter : ∀ p' ∈ after, p'.Honest server := fun p' hp' =>
    hpages p' (mem_append_right _ (mem_cons_of_mem _ hp'))
  rw [refreshAll, foldl_append, foldl_cons]
  exact refreshAll_of_eq hafter (refresh_of_reports (hpages p hp) hrep)

end Maps

end Delta
