/-
EmailService/RoundRobin.lean

Serving queues in turn.  Each key of `order` has a queue; a round takes the next
element of every queue that still has one.  The `k`-th round is then the `k`-th
elements of the queues (`roundAt`), and what is served after `n` rounds is the
`n` rounds one after the other (`rounds`).

Of every key the elements come in the order of its queue (`filter_rounds`), and
wherever one stops, keys that are still waiting have been served equally often,
up to one (`rounds_fair`).
-/
import Mathlib

namespace RoundRobin

open List

variable {κ α : Type*} (order : List κ) (queues : κ → List α)

/-- The elements at one place of the queues. -/
def roundAt (k : ℕ) : List α :=
  order.filterMap fun d => (queues d)[k]?

/-- The first rounds. -/
def rounds (n : ℕ) : List α :=
  (range n).flatMap (roundAt order queues)

theorem rounds_succ (n : ℕ) :
    rounds order queues (n + 1) = rounds order queues n ++ roundAt order queues n := by
  rw [rounds, range_succ, flatMap_append, flatMap_singleton, ← rounds]

/-- The first round, and then the rounds of what is left. -/
theorem rounds_succ' (n : ℕ) :
    rounds order queues (n + 1) =
      roundAt order queues 0 ++ rounds order (fun d => (queues d).tail) n := by
  rw [rounds, range_succ_eq_map, flatMap_cons, flatMap_map, rounds]
  congr 1
  refine flatMap_congr fun k _ => ?_
  simp only [roundAt, getElem?_tail]

/-- Where a prefix of the rounds ends. -/
theorem prefix_rounds {order : List κ} {queues : κ → List α} {n : ℕ} {p : List α}
    (h : p <+: rounds order queues n) :
    ∃ k p', p = rounds order queues k ++ p' ∧ p' <+: roundAt order queues k := by
  induction n with
  | zero =>
    refine ⟨0, [], ?_, nil_prefix⟩
    rw [append_nil]
    exact prefix_nil.mp h
  | succ n ih =>
    obtain ⟨q, hq⟩ := h
    rw [rounds_succ] at hq
    rcases append_eq_append_iff.mp hq with ⟨c, hc, -⟩ | ⟨a, ha, hround⟩
    · exact ih ⟨c, hc.symm⟩
    · exact ⟨n, a, ha, q, hround.symm⟩

section Keys

variable [DecidableEq κ] (key : α → κ) {order : List κ} {queues : κ → List α}

/-- Queues of the elements with one key each, all of them in the order. -/
structure Keyed (order : List κ) (queues : κ → List α) : Prop where
  nodup : order.Nodup
  key_eq : ∀ d, ∀ x ∈ queues d, key x = d
  covers : ∀ d, queues d ≠ [] → d ∈ order

variable {key}

section

variable (h : Keyed key order queues)

include h

/-- A round has of every key what its queue has there. -/
theorem Keyed.filter_roundAt (d : κ) (k : ℕ) :
    (roundAt order queues k).filter (fun x => key x = d) = (queues d)[k]?.toList := by
  -- over any part of the order
  have hpart : ∀ order : List κ, order.Nodup →
      (roundAt order queues k).filter (fun x => key x = d) =
        if d ∈ order then (queues d)[k]?.toList else [] := by
    intro order hnodup
    induction order with
    | nil => rfl
    | cons c order ih =>
      rw [nodup_cons] at hnodup
      specialize ih hnodup.2
      unfold roundAt at ih ⊢
      rw [filterMap_cons]
      by_cases hc : c = d
      · subst hc
        rw [if_neg hnodup.1] at ih
        rw [if_pos mem_cons_self]
        cases hx : (queues c)[k]? with
        | none => exact ih
        | some x =>
          have hkey := h.key_eq c x (mem_of_getElem? hx)
          simp [hkey, ih]
      · have hmem : d ∈ c :: order ↔ d ∈ order := by
          rw [mem_cons, or_iff_right (Ne.symm hc)]
        simp only [hmem]
        cases hx : (queues c)[k]? with
        | none => exact ih
        | some x =>
          have hkey := h.key_eq c x (mem_of_getElem? hx)
          simp only [filter_cons, hkey, hc, decide_false, Bool.false_eq_true, if_false]
          exact ih
  rw [hpart order h.nodup]
  split
  · rfl
  · next hd =>
    have hnone : queues d = [] := by
      by_contra hne
      exact hd (h.covers d hne)
    rw [hnone]
    rfl

/-- **The elements of one key are served in the order of its queue.** -/
theorem Keyed.filter_rounds (d : κ) (n : ℕ) :
    (rounds order queues n).filter (fun x => key x = d) = (queues d).take n := by
  induction n with
  | zero => rfl
  | succ n ih => rw [rounds_succ, filter_append, ih, h.filter_roundAt, take_add_one]

theorem Keyed.countP_rounds (d : κ) (n : ℕ) :
    (rounds order queues n).countP (fun x => key x = d) = min n (queues d).length := by
  rw [countP_eq_length_filter, h.filter_rounds, length_take]

/-- **Keys that wait have been served equally often, up to one.** -/
theorem Keyed.rounds_fair {n : ℕ} {p q : List α}
    (hpq : rounds order queues n = p ++ q) :
    ∃ k, ∀ x ∈ q, k ≤ p.countP (fun y => key y = key x) ∧
      p.countP (fun y => key y = key x) ≤ k + 1 := by
  obtain ⟨k, p', rfl, hp'⟩ := prefix_rounds (hpq ▸ prefix_append p q)
  refine ⟨k, fun x hx => ?_⟩
  have hround : p'.countP (fun y => key y = key x) ≤ 1 := by
    calc p'.countP (fun y => key y = key x)
        ≤ (roundAt order queues k).countP (fun y => key y = key x) :=
          Sublist.countP_le hp'.sublist
      _ = (queues (key x))[k]?.toList.length := by
          rw [countP_eq_length_filter, h.filter_roundAt]
      _ ≤ 1 := by
          cases (queues (key x))[k]? <;> simp
  -- the key of `x` has an element that is not served yet
  have hwaits : 0 < q.countP (fun y => key y = key x) :=
    countP_pos_iff.mpr ⟨x, hx, decide_eq_true rfl⟩
  have htotal := h.countP_rounds (key x) n
  rw [hpq, countP_append] at htotal
  rw [countP_append, h.countP_rounds] at htotal ⊢
  omega

end

end Keys

/-- Lists that agree at every key are permutations of each other. -/
theorem perm_of_filter_eq [DecidableEq κ] {key : α → κ} {l l' : List α}
    (h : ∀ d, l.filter (fun x => key x = d) = l'.filter (fun x => key x = d)) : l.Perm l' := by
  classical
  refine perm_iff_count.mpr fun x => ?_
  rw [← count_filter (l := l) (p := fun y => key y = key x) (by simp),
    ← count_filter (l := l') (p := fun y => key y = key x) (by simp), h]

end RoundRobin
