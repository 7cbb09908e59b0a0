/-
ExpiringCache.lean

A map whose entries carry an expiry time: looking up drops an entry that has
expired, and a cleanup drops all of them.

`All P` is the invariant rule: what holds of every value put into the cache
holds of every value found in it.
-/
import Mathlib

namespace ExpiringCache

open Function

structure Entry (α : Type*) where
  value : α
  expiresAt : ℤ

/-- A cache with keys in `κ`. -/
abbrev Cache (κ α : Type*) := κ → Option (Entry α)

namespace Cache

variable {κ α : Type*}

def empty : Cache κ α := fun _ => none

/-- The entry, unless it has expired. -/
def fresh (now : ℤ) : Option (Entry α) → Option (Entry α)
  | none => none
  | some e => if e.expiresAt < now then none else some e

/-- What is found under `key` at time `now`. -/
def find (c : Cache κ α) (now : ℤ) (key : κ) : Option α := (fresh now (c key)).map Entry.value

def cleanup (c : Cache κ α) (now : ℤ) : Cache κ α := fun key => fresh now (c key)

/-- `P` holds of every entry. -/
def All (P : κ → α → Prop) (c : Cache κ α) : Prop := ∀ key e, c key = some e → P key e.value

theorem eq_some_of_fresh {now : ℤ} {o : Option (Entry α)} {e : Entry α}
    (h : fresh now o = some e) : o = some e := by
  rcases o with - | e'
  · cases h
  · by_cases hold : e'.expiresAt < now
    · simp [fresh, hold] at h
    · simpa [fresh, hold] using h

section All

variable {P : κ → α → Prop} {c : Cache κ α} {now : ℤ}

theorem all_empty : All P (empty : Cache κ α) := nofun

theorem All.find (h : All P c) {key : κ} {value : α} (hfind : c.find now key = some value) :
    P key value := by
  obtain ⟨e, he, rfl⟩ := Option.map_eq_some_iff.mp hfind
  exact h key e (eq_some_of_fresh he)

theorem All.cleanup (h : All P c) : All P (c.cleanup now) := fun key e he =>
  h key e (eq_some_of_fresh he)

end All

section Update

variable [DecidableEq κ]

/-- The cache after a lookup, without the entry if it had expired. -/
def afterGet (c : Cache κ α) (now : ℤ) (key : κ) : Cache κ α :=
  update c key (fresh now (c key))

def set (c : Cache κ α) (key : κ) (value : α) (expiresAt : ℤ) : Cache κ α :=
  update c key (some ⟨value, expiresAt⟩)

variable {P : κ → α → Prop} {c : Cache κ α} {now : ℤ} {key : κ}
  {value : α} {expiresAt : ℤ} {Q : κ → α → Prop}

theorem find_set_self (h : now ≤ expiresAt) :
    (c.set key value expiresAt).find now key = some value := by
  simp [find, set, fresh, not_lt.mpr h]

theorem All.afterGet (h : All P c) : All P (c.afterGet now key) := by
  intro k e he
  unfold Cache.afterGet at he
  by_cases hk : k = key
  · subst hk
    rw [update_self] at he
    exact h k e (eq_some_of_fresh he)
  · rw [update_of_ne hk] at he
    exact h k e he

/-- A key that was not found is free afterwards, so something else may be asked
of it. -/
theorem All.afterGet_of_miss (h : All P c) (hmiss : c.find now key = none)
    (hothers : ∀ k v, k ≠ key → P k v → Q k v) : All Q (c.afterGet now key) := by
  intro k e he
  unfold Cache.afterGet at he
  by_cases hk : k = key
  · subst hk
    rw [update_self] at he
    simp [Cache.find, he] at hmiss
  · rw [update_of_ne hk] at he
    exact hothers k e.value hk (h k e he)

/-- Setting a key may change what is asked of that key, and of no other. -/
theorem All.set (h : All P c) (hvalue : Q key value) (hothers : ∀ k v, k ≠ key → P k v → Q k v) :
    All Q (c.set key value expiresAt) := by
  intro k e he
  unfold Cache.set at he
  by_cases hk : k = key
  · subst hk
    rw [update_self] at he
    cases he
    exact hvalue
  · rw [update_of_ne hk] at he
    exact hothers k e.value hk (h k e he)

end Update

end Cache

end ExpiringCache
