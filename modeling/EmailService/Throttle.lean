/-
EmailService/Throttle.lean

The destination throttle (internal/delivery/throttle.go).

A lease is a function that outlives the lock: it keeps a pointer to the status of
its domain, which `Acquire` may drop from the table meanwhile to make room.  So the
statuses live on a heap, the table maps domains to places on it, and a lease names
its place.

`Sound` is what holds after any calls in any order: a lease that is outstanding
points to the status in the table, and the statuses count the leases.  `Timed` is
what holds if the clock does not go back and `Observe` takes less than the longest
backoff between its two readings: then a status that is dropped has no cooldown.
-/
import EmailService.GoStrings
import EmailService.Entry

namespace EmailService.Throttle

open GoStrings List Option Bool

/-! ### The model -/

/-- A `ThrottleConfig` that `Validate` accepts, with its durations parsed. -/
structure ThrottleConfig where
  concurrency : ℤ
  maxDestinations : ℤ
  initial : Duration
  max : Duration
  initial_ge : 1000000000 ≤ initial
  max_ge : initial ≤ max
  max_le : max ≤ 24 * 3600 * 1000000000
  concurrency_ge : 1 ≤ concurrency
  concurrency_le : concurrency ≤ 1000
  maxDestinations_ge : 1 ≤ maxDestinations

structure DestinationStatus where
  domain : String
  active : ℤ := 0
  limit : ℤ
  failures : ℤ := 0
  untilTime : Time := zeroTime
  last : Time := zeroTime

/-- A function `Acquire` returned: the status it points to, the domain it was asked for, and
whether its `sync.Once` is used up. -/
structure Lease where
  place : ℕ
  domain : String
  released : Bool := false

structure DestinationThrottle where
  heap : List DestinationStatus := []
  states : Std.ExtTreeMap String ℕ compare := ∅
  leases : List Lease := []

variable (c : ThrottleConfig) (now : Time)

/-- The condition under which `Acquire` drops a status. -/
def stale (s : DestinationStatus) : Bool :=
  s.active = 0 && 2 * c.max < timeSub now s.last

/-- The loop of `Acquire` that drops statuses. -/
def evict (t : DestinationThrottle) : DestinationThrottle :=
  { t with states := t.states.filter fun _ i => !(t.heap[i]?).any (stale c now) }

/-- A full table is cleared of stale statuses. -/
def makeRoom (t : DestinationThrottle) : DestinationThrottle :=
  if c.maxDestinations ≤ t.states.size then evict c now t else t

/-- The status for a domain, a new one if there is room. -/
def claim (c : ThrottleConfig) (domain : String) (now : Time) (t : DestinationThrottle) :
    Option ℕ × DestinationThrottle :=
  match t.states[domain]? with
  | some i => (some i, t)
  | none =>
    let t := makeRoom c now t
    if c.maxDestinations ≤ t.states.size then (none, t)
    else (some t.heap.length,
      { t with
        heap := t.heap ++ [{ domain := domain, limit := c.concurrency }]
        states := t.states.insert domain t.heap.length })

/-- Change one status. -/
def update (i : ℕ) (f : DestinationStatus → DestinationStatus) (t : DestinationThrottle) :
    DestinationThrottle :=
  { t with heap := t.heap.modify i f }

variable (U : CaseTables) (c : ThrottleConfig)

/-- `Acquire`; a lease is the last of the list if it returns one. -/
def acquire (domain : String) (now : Time) (t : DestinationThrottle) : DestinationThrottle × Bool :=
  match claim c (toLower U domain) now t with
  | (none, t) => (t, false)
  | (some i, t) =>
    let t := update i (fun s => { s with last := now }) t
    if (t.heap[i]?).any fun s => s.limit ≤ s.active || now < s.untilTime then (t, false)
    else
      let t := update i (fun s => { s with active := s.active + 1 }) t
      ({ t with leases := t.leases ++ [{ place := i, domain := domain }] }, true)

/-- A call of the function `Acquire` returned `k`th. -/
def release (k : ℕ) (now : Time) (t : DestinationThrottle) : DestinationThrottle :=
  match t.leases[k]? with
  | none => t
  | some lease =>
    if lease.released then t
    else
      let t := update lease.place (fun s => { s with active := s.active - 1, last := now }) t
      { t with leases := t.leases.set k { lease with released := true } }

/-- The doubling loop of `Observe`, with `n` rounds left. -/
def double (c : ThrottleConfig) : ℕ → Duration → Duration
  | 0, delay => delay
  | n + 1, delay => if delay < c.max then double c n (delay * 2) else delay

/-- The delay after a number of failures. -/
def delay (c : ThrottleConfig) (failures : ℤ) : Duration :=
  let delay := double c (failures - 1).toNat c.initial
  if c.max < delay then c.max else delay

/-- What `Observe` does to a status; `now` and `now'` are its readings of the clock. -/
def observed (c : ThrottleConfig) (success temporary : Bool) (now now' : Time)
    (s : DestinationStatus) : DestinationStatus :=
  let s := { s with last := now }
  if temporary then
    let s := { s with
      failures := s.failures + 1
      limit := if s.limit / 2 < 1 then 1 else s.limit / 2 }
    { s with untilTime := now' + delay c s.failures }
  else if success then
    -- a success in flight cannot cancel a cooldown
    if now' < s.untilTime then s
    else { s with
      failures := 0
      limit := if s.limit < c.concurrency then s.limit + 1 else s.limit }
  else s

/-- `Observe`. -/
def observe (domain : String) (success temporary : Bool) (now now' : Time) (t : DestinationThrottle)
    : DestinationThrottle :=
  match t.states[toLower U domain]? with
  | none => t
  | some i => update i (observed c success temporary now now') t

/-! ### Runs -/

/-- A call, with its readings of the clock. -/
inductive Call
  | acquire (domain : String) (now : Time)
  | release (lease : ℕ) (now : Time)
  | observe (domain : String) (success temporary : Bool) (now now' : Time)

def step (t : DestinationThrottle) :
    Call → DestinationThrottle
  | .acquire domain now => (acquire U c domain now t).1
  | .release k now => release k now t
  | .observe domain success temporary now now' => observe U c domain success temporary now now' t

/-- The throttle after some calls. -/
def run (calls : List Call) : DestinationThrottle :=
  calls.foldl (step U c) {}

/-- The first reading of a call. -/
def Call.first : Call → Time
  | acquire _ now => now
  | release _ now => now
  | observe _ _ _ now _ => now

/-- The last reading of a call. -/
def Call.latest : Call → Time
  | acquire _ now => now
  | release _ now => now
  | observe _ _ _ _ now' => now'

/-- The clock does not go back, and no call takes longer than the longest backoff. -/
def Timely (c : ThrottleConfig) : Time → List Call → Prop
  | _, [] => True
  | t, call :: calls => t ≤ call.first ∧ call.first ≤ call.latest ∧
      call.latest ≤ call.first + c.max ∧ Timely c call.latest calls

section Accounts

variable (U : CaseTables) (t : DestinationThrottle) (domain : String)

/-- The status of a domain. -/
def status : Option DestinationStatus :=
  t.states[toLower U domain]?.bind fun i => t.heap[i]?

/-- The active count of a domain, which is zero for an unknown one. -/
def active (t : DestinationThrottle) (domain : String) : ℤ :=
  ((status U t domain).map DestinationStatus.active).getD 0

/-- The outstanding leases of a domain. -/
def outstanding : ℕ :=
  t.leases.countP fun lease => !lease.released && toLower U lease.domain = toLower U domain

/-- The accounts of all domains are in order. -/
structure Accounted (c : ThrottleConfig) (t : DestinationThrottle) : Prop where
  counts : ∀ domain, active U t domain = outstanding U t domain
  bounds : ∀ domain, 0 ≤ active U t domain ∧ active U t domain ≤ c.concurrency
  limit : ∀ domain s, status U t domain = some s → 1 ≤ s.limit ∧ s.limit ≤ c.concurrency

end Accounts

/-! ### What any calls keep -/

variable {U : CaseTables} {c : ThrottleConfig} {t : DestinationThrottle}

/-- The outstanding leases of one place. -/
def held (t : DestinationThrottle) (i : ℕ) : ℕ :=
  t.leases.countP fun lease => !lease.released && lease.place = i

/-- The leases point to the table, and the statuses count them. -/
structure Sound (U : CaseTables) (c : ThrottleConfig) (t : DestinationThrottle) : Prop where
  named : ∀ (k : String) (i : ℕ), t.states[k]? = some i →
    ∃ s : DestinationStatus, t.heap[i]? = some s ∧ s.domain = k
  points : ∀ lease ∈ t.leases, lease.released = false →
    t.states[toLower U lease.domain]? = some lease.place
  counted : ∀ (i : ℕ) (s : DestinationStatus), t.heap[i]? = some s → s.active = held t i
  limits : ∀ (i : ℕ) (s : DestinationStatus), t.heap[i]? = some s →
    s.active ≤ c.concurrency ∧ 1 ≤ s.limit ∧ s.limit ≤ c.concurrency

theorem sound_empty : Sound U c {} :=
  ⟨fun k i h => by simp at h, by simp, by simp, by simp⟩

variable {i : ℕ} {f : DestinationStatus → DestinationStatus} {s : DestinationStatus}
  {now now' : Time} {k domain : String} {success temporary : Bool} {d : Duration}

theorem getElem?_update {j : ℕ} : (update i f t).heap[j]? = some s ↔
      ∃ s₀, t.heap[j]? = some s₀ ∧ s = if i = j then f s₀ else s₀ := by
  rw [update, getElem?_modify, Option.map_eq_map, Option.map_eq_some_iff]
  exact exists_congr fun s₀ => and_congr .rfl eq_comm

/-- A change that leaves the name and the count of a status alone. -/
theorem Sound.update (h : Sound U c t)
    (hf : ∀ s, t.heap[i]? = some s → (f s).domain = s.domain ∧ (f s).active = s.active ∧
      1 ≤ (f s).limit ∧ (f s).limit ≤ c.concurrency) : Sound U c (update i f t) := by
  have hkeep {j : ℕ} {s : DestinationStatus} (hs : (Throttle.update i f t).heap[j]? = some s) :
      ∃ s₀, t.heap[j]? = some s₀ ∧ s.domain = s₀.domain ∧ s.active = s₀.active ∧
        1 ≤ s.limit ∧ s.limit ≤ c.concurrency := by
    obtain ⟨s₀, hs₀, rfl⟩ := getElem?_update.mp hs
    refine ⟨s₀, hs₀, ?_⟩
    split
    · next hij => exact hf s₀ (hij ▸ hs₀)
    · exact ⟨rfl, rfl, (h.limits j s₀ hs₀).2⟩
  refine ⟨fun k j hk => ?_, h.points, fun j s hs => ?_, fun j s hs => ?_⟩
  · obtain ⟨s₀, hs₀, hname⟩ := h.named k j hk
    refine ⟨_, getElem?_update.mpr ⟨s₀, hs₀, rfl⟩, ?_⟩
    split
    · next hij => exact (hf s₀ (hij ▸ hs₀)).1.trans hname
    · exact hname
  · obtain ⟨s₀, hs₀, _, hactive, _⟩ := hkeep hs
    exact hactive.trans (h.counted j s₀ hs₀)
  · obtain ⟨s₀, hs₀, _, hactive, hlimit⟩ := hkeep hs
    exact ⟨hactive ▸ (h.limits j s₀ hs₀).1, hlimit⟩

theorem getElem?_evict : (evict c now t).states[k]? = some i ↔
    t.states[k]? = some i ∧ (t.heap[i]?).any (stale c now) = false := by
  rw [evict, Std.ExtTreeMap.getElem?_filter]
  cases t.states[k]? <;> simp

/-- A status that is dropped has no lease. -/
theorem Sound.evict (h : Sound U c t) (now : Time) : Sound U c (evict c now t) where
  named k i hk := h.named k i (getElem?_evict.mp hk).1
  points lease hlease hlive := by
    have hpoint := h.points lease hlease hlive
    obtain ⟨s, hs, _⟩ := h.named _ _ hpoint
    have hpos : 0 < held t lease.place :=
      countP_pos_iff.mpr ⟨lease, hlease, by simp [hlive]⟩
    refine getElem?_evict.mpr ⟨hpoint, ?_⟩
    have hne : s.active ≠ 0 := by
      rw [h.counted _ _ hs]
      omega
    simp [hs, stale, hne]
  counted := h.counted
  limits := h.limits

/-- Nobody points beyond the heap. -/
theorem Sound.held_length (h : Sound U c t) : held t t.heap.length = 0 := by
  refine countP_eq_zero.mpr fun lease hlease hlive => ?_
  simp only [and_eq_true, not_eq_true', decide_eq_true_eq] at hlive
  obtain ⟨s, hs, _⟩ := h.named _ _ (h.points lease hlease hlive.1)
  rw [hlive.2, getElem?_eq_none le_rfl] at hs
  cases hs

theorem getElem?_concat_iff {α : Type} {l : List α} {a b : α} :
    (l ++ [a])[i]? = some b ↔ l[i]? = some b ∨ i = l.length ∧ b = a := by
  rw [getElem?_append]
  rcases lt_trichotomy i l.length with hi | rfl | hi
  · simp [hi, hi.ne]
  · simp [eq_comm]
  · simp [hi.not_gt, hi.ne', Nat.sub_ne_zero_of_lt hi]

/-- A status for a new domain. -/
theorem Sound.insert (h : Sound U c t) (hnew : t.states[domain]? = none) :
    Sound U c { t with
      heap := t.heap ++ [{ domain := domain, limit := c.concurrency }]
      states := t.states.insert domain t.heap.length } where
  named k i hk := by
    rw [Std.ExtTreeMap.getElem?_insert] at hk
    split at hk
    · next heq =>
      cases hk
      exact ⟨_, getElem?_concat_length, Std.LawfulEqCmp.eq_of_compare heq⟩
    · obtain ⟨s, hs, hname⟩ := h.named k i hk
      exact ⟨s, List.getElem?_append_left (List.getElem?_eq_some_iff.mp hs).1 ▸ hs, hname⟩
  points lease hlease hlive := by
    have hpoint := h.points lease hlease hlive
    rw [Std.ExtTreeMap.getElem?_insert, if_neg, hpoint]
    intro heq
    rw [← Std.LawfulEqCmp.eq_of_compare heq, hnew] at hpoint
    cases hpoint
  counted i s hs := by
    rcases getElem?_concat_iff.mp hs with hs | ⟨rfl, rfl⟩
    · exact h.counted i s hs
    · exact congrArg Nat.cast h.held_length.symm
  limits i s hs := by
    rcases getElem?_concat_iff.mp hs with hs | ⟨rfl, rfl⟩
    · exact h.limits i s hs
    · exact ⟨zero_le_one.trans c.concurrency_ge, c.concurrency_ge, le_rfl⟩

theorem getElem?_evict_none (h : t.states[k]? = none) : (evict c now t).states[k]? = none := by
  refine eq_none_iff_forall_ne_some.mpr fun i hi => ?_
  have hold := (getElem?_evict.mp hi).1
  rw [h] at hold
  cases hold

/-- The status `Acquire` goes on with is in the table. -/
theorem Sound.claim (h : Sound U c t) (domain : String) (now : Time) :
    Sound U c (claim c domain now t).2 ∧ ∀ i, (claim c domain now t).1 = some i →
      (claim c domain now t).2.states[domain]? = some i := by
  unfold Throttle.claim
  split
  · next i hi => exact ⟨h, fun j hj => hj ▸ hi⟩
  · next hnew =>
    have hroom : Sound U c (makeRoom c now t) ∧ (makeRoom c now t).states[domain]? = none := by
      unfold makeRoom
      split
      · exact ⟨h.evict now, getElem?_evict_none hnew⟩
      · exact ⟨h, hnew⟩
    dsimp only
    split
    · exact ⟨hroom.1, nofun⟩
    · refine ⟨hroom.1.insert hroom.2, fun i hi => ?_⟩
      cases hi
      exact Std.ExtTreeMap.getElem?_insert_self

/-- A new lease, for a status below its limit. -/
theorem Sound.take (h : Sound U c t) (hi : t.states[toLower U domain]? = some i)
    (hlimit : ∀ s : DestinationStatus, t.heap[i]? = some s → s.active < s.limit) :
    Sound U c { Throttle.update i (fun s => { s with active := s.active + 1 }) t with
      leases := t.leases ++ [{ place := i, domain := domain }] } := by
  refine ⟨fun k j hk => ?_, fun lease hlease hlive => ?_, fun j s hs => ?_, fun j s hs => ?_⟩
  · obtain ⟨s₀, hs₀, hname⟩ := h.named k j hk
    refine ⟨_, getElem?_update.mpr ⟨s₀, hs₀, rfl⟩, ?_⟩
    split <;> exact hname
  · rcases mem_append.mp hlease with hlease | hlease
    · exact h.points lease hlease hlive
    · obtain rfl := mem_singleton.mp hlease
      exact hi
  · obtain ⟨s₀, hs₀, rfl⟩ := getElem?_update.mp hs
    have hcount := h.counted j s₀ hs₀
    unfold held at hcount ⊢
    rw [countP_append]
    by_cases hij : i = j
    · simp [hij, hcount]
    · simp [hij, hcount]
  · obtain ⟨s₀, hs₀, rfl⟩ := getElem?_update.mp hs
    have hbounds := h.limits j s₀ hs₀
    split
    · next hij =>
      have := hlimit s₀ (hij ▸ hs₀)
      exact ⟨by dsimp only; omega, hbounds.2⟩
    · exact hbounds

theorem Sound.acquire (h : Sound U c t) (domain : String) (now : Time) :
    Sound U c (acquire U c domain now t).1 := by
  obtain ⟨hclaim, hfound⟩ := h.claim (toLower U domain) now
  unfold Throttle.acquire
  split
  · next heq =>
    rw [heq] at hclaim
    exact hclaim
  · next i t' heq =>
    rw [heq] at hclaim hfound
    have htouch : Sound U c (Throttle.update i (fun s => { s with last := now }) t') :=
      hclaim.update fun s hs => ⟨rfl, rfl, (hclaim.limits i s hs).2⟩
    dsimp only
    split
    · exact htouch
    · next hfree =>
      refine htouch.take (hfound i rfl) fun s hs => ?_
      by_contra hfull
      exact hfree (by simp [hs, not_lt.mp hfull])

theorem Sound.release (h : Sound U c t) (k : ℕ) (now : Time) : Sound U c (release k now t) := by
  unfold Throttle.release
  split
  · exact h
  next lease hlease =>
  split
  · exact h
  next hlive =>
  have hlive := eq_false_iff.mpr hlive
  obtain ⟨hk, hget⟩ := List.getElem?_eq_some_iff.mp hlease
  have hcountP (j : ℕ) : (t.leases.set k { lease with released := true }).countP
      (fun lease => !lease.released && lease.place = j) =
        held t j - (if lease.place = j then 1 else 0) := by
    rw [countP_set hk, hget]
    simp [held, hlive]
  refine ⟨fun key j hkey => ?_, fun lease' hlease' hlive' => ?_, fun j s hs => ?_, fun j s hs => ?_⟩
  · obtain ⟨s₀, hs₀, hname⟩ := h.named key j hkey
    refine ⟨_, getElem?_update.mpr ⟨s₀, hs₀, rfl⟩, ?_⟩
    split <;> exact hname
  · rcases mem_or_eq_of_mem_set hlease' with hmem | rfl
    · exact h.points lease' hmem hlive'
    · cases hlive'
  · obtain ⟨s₀, hs₀, rfl⟩ := getElem?_update.mp hs
    have hcount := h.counted j s₀ hs₀
    have hone (heq : lease.place = j) : 0 < held t j :=
      countP_pos_iff.mpr ⟨lease, hget ▸ getElem_mem hk, by simp [hlive, heq]⟩
    refine Eq.trans ?_ (congrArg Nat.cast (hcountP j)).symm
    split
    · next heq =>
      have := hone heq
      dsimp only
      omega
    · simpa using hcount
  · obtain ⟨s₀, hs₀, rfl⟩ := getElem?_update.mp hs
    have hbounds := h.limits j s₀ hs₀
    split
    · exact ⟨by dsimp only; omega, hbounds.2⟩
    · exact hbounds

theorem observed_limit (h : 1 ≤ s.limit ∧ s.limit ≤ c.concurrency) :
    1 ≤ (observed c success temporary now now' s).limit ∧
      (observed c success temporary now now' s).limit ≤ c.concurrency := by
  have := c.concurrency_ge
  unfold observed
  dsimp only
  split_ifs <;> dsimp only <;> omega

theorem observed_keeps :
    (observed c success temporary now now' s).domain = s.domain ∧
      (observed c success temporary now now' s).active = s.active := by
  unfold observed
  dsimp only
  split_ifs <;> exact ⟨rfl, rfl⟩

theorem Sound.observe (h : Sound U c t) (domain : String) (success temporary : Bool)
    (now now' : Time) : Sound U c (observe U c domain success temporary now now' t) := by
  unfold Throttle.observe
  split
  · exact h
  · next i _ =>
    refine h.update fun s hs => ⟨observed_keeps.1, observed_keeps.2, ?_⟩
    exact observed_limit (h.limits i s hs).2

theorem Sound.step (h : Sound U c t) (call : Call) : Sound U c (step U c t call) := by
  cases call with
  | acquire domain now => exact h.acquire domain now
  | release k now => exact h.release k now
  | observe domain success temporary now now' => exact h.observe domain success temporary now now'

/-- Any calls in any order. -/
theorem sound_run (calls : List Call) : Sound U c (run U c calls) := by
  suffices h : ∀ t, Sound U c t → Sound U c (calls.foldl (step U c) t) from
    h {} sound_empty
  induction calls with
  | nil => exact fun t h => h
  | cons call calls ih => exact fun t h => ih _ (h.step call)

/-- The leases of a domain are those of its place. -/
theorem Sound.outstanding_eq (h : Sound U c t) (hi : t.states[toLower U domain]? = some i) :
    outstanding U t domain = held t i := by
  refine countP_congr fun lease hlease => ?_
  simp only [and_eq_true, not_eq_true', decide_eq_true_eq]
  refine and_congr_right fun hlive => ?_
  have hpoint := h.points lease hlease hlive
  refine ⟨fun heq => ?_, fun heq => ?_⟩
  · rw [heq, hi] at hpoint
    exact (some.inj hpoint).symm
  · -- a status has one name
    obtain ⟨s, hs, hname⟩ := h.named _ _ hpoint
    obtain ⟨s', hs', hname'⟩ := h.named _ _ hi
    rw [heq, hs'] at hs
    cases hs
    exact hname.symm.trans hname'

theorem Sound.outstanding_eq_zero (h : Sound U c t) (hnone : t.states[toLower U domain]? = none) :
    outstanding U t domain = 0 := by
  refine countP_eq_zero.mpr fun lease hlease hlive => ?_
  simp only [and_eq_true, not_eq_true', decide_eq_true_eq] at hlive
  have hpoint := h.points lease hlease hlive.1
  rw [hlive.2, hnone] at hpoint
  cases hpoint

theorem Sound.active_eq (h : Sound U c t) (domain : String) :
    active U t domain = outstanding U t domain := by
  unfold active status
  cases hstate : t.states[toLower U domain]? with
  | none => exact congrArg Nat.cast (h.outstanding_eq_zero hstate).symm
  | some i =>
    obtain ⟨s, hs, _⟩ := h.named _ _ hstate
    rw [h.outstanding_eq hstate, bind_some, hs]
    exact h.counted i s hs

theorem Sound.accounted (h : Sound U c t) : Accounted U c t where
  counts := h.active_eq
  bounds domain := by
    refine ⟨h.active_eq domain ▸ Int.natCast_nonneg _, ?_⟩
    unfold active
    cases hstatus : status U t domain with
    | none => exact zero_le_one.trans c.concurrency_ge
    | some s =>
      obtain ⟨i, _, hs⟩ := bind_eq_some_iff.mp hstatus
      exact (h.limits i s hs).1
  limit domain s hstatus := by
    obtain ⟨i, _, hs⟩ := bind_eq_some_iff.mp hstatus
    exact (h.limits i s hs).2

/-! ### What timely calls keep -/

theorem double_le_double (n : ℕ) (hd : 0 ≤ d) : double c n d ≤ double c (n + 1) d := by
  induction n generalizing d with
  | zero =>
    simp only [double]
    split
    · exact le_mul_of_one_le_right hd one_le_two
    · exact le_rfl
  | succ n ih =>
    rw [double, double]
    split
    · exact ih (mul_nonneg hd zero_le_two)
    · exact le_rfl

theorem le_double (n : ℕ) (hd : 0 ≤ d) : d ≤ double c n d := by
  induction n with
  | zero => exact le_rfl
  | succ n ih => exact ih.trans (double_le_double n hd)

theorem initial_nonneg : 0 ≤ c.initial := le_trans (by decide) c.initial_ge

theorem max_nonneg : 0 ≤ c.max := initial_nonneg.trans c.max_ge

variable (failures : ℤ)

theorem delay_eq : delay c failures = min (double c (failures - 1).toNat c.initial) c.max := by
  unfold delay
  dsimp only
  split
  · next h => exact (min_eq_right h.le).symm
  · next h => exact (min_eq_left (not_lt.mp h)).symm

theorem delay_nonneg : 0 ≤ delay c failures := by
  rw [delay_eq]
  exact le_min (initial_nonneg.trans (le_double _ initial_nonneg)) max_nonneg

theorem delay_le_max : delay c failures ≤ c.max := by
  rw [delay_eq]
  exact min_le_right _ _

/-- One more failure does not make the delay shorter. -/
theorem delay_le_delay : delay c failures ≤ delay c (failures + 1) := by
  rw [delay_eq, delay_eq]
  refine min_le_min_right _ ?_
  rcases le_or_gt failures 0 with h | h
  · rw [Int.toNat_of_nonpos (by omega), Int.toNat_of_nonpos (by omega)]
  · obtain ⟨n, rfl⟩ : ∃ n : ℕ, failures = n + 1 := ⟨(failures - 1).toNat, by omega⟩
    rw [add_sub_cancel_right, add_sub_cancel_right, Int.toNat_natCast,
      show ((n : ℤ) + 1).toNat = n + 1 from rfl]
    exact double_le_double n initial_nonneg

/-- A cooldown ends soon after the last call for its domain, and no later than a new one with as
many failures would. -/
structure TimedStatus (c : ThrottleConfig) (now : Time) (s : DestinationStatus) : Prop where
  last : s.last ≤ now
  near : s.untilTime ≤ s.last + 2 * c.max
  fresh : s.untilTime ≤ now + delay c s.failures

def Timed (c : ThrottleConfig) (now : Time) (t : DestinationThrottle) : Prop :=
  ∀ (i : ℕ) (s : DestinationStatus), t.heap[i]? = some s → TimedStatus c now s

/-- The statuses stay on the heap, and no cooldown gets shorter. -/
def Lasting (t t' : DestinationThrottle) : Prop :=
  ∀ (i : ℕ) (s : DestinationStatus), t.heap[i]? = some s →
    ∃ s' : DestinationStatus, t'.heap[i]? = some s' ∧ s.untilTime ≤ s'.untilTime

variable {now now' : Time} {s : DestinationStatus} {call : Call}

theorem TimedStatus.later (h : TimedStatus c now s) (hle : now ≤ now') : TimedStatus c now' s :=
  ⟨h.last.trans hle, h.near, h.fresh.trans (add_le_add_left hle _)⟩

/-- A call that only notes the time. -/
theorem TimedStatus.touch (h : TimedStatus c now s) (hle : now ≤ now') (active : ℤ) :
    TimedStatus c now' { s with active := active, last := now' } :=
  ⟨le_rfl, h.near.trans (add_le_add_left (h.last.trans hle) _), (h.later hle).fresh⟩

theorem TimedStatus.observed {first latest : Time} (h : TimedStatus c now s) (hfirst : now ≤ first)
    (hlatest : first ≤ latest) (hgap : latest ≤ first + c.max) (success temporary : Bool) :
    TimedStatus c latest (observed c success temporary first latest s) ∧
      s.untilTime ≤ (observed c success temporary first latest s).untilTime := by
  have htouch := (h.touch hfirst s.active).later hlatest
  unfold Throttle.observed
  dsimp only
  by_cases htemporary : temporary = true
  · rw [if_pos htemporary]
    refine ⟨⟨hlatest, ?_, le_rfl⟩, htouch.fresh.trans (add_le_add_right (delay_le_delay _) _)⟩
    have hdelay := delay_le_max (c := c) (s.failures + 1)
    dsimp only
    linarith
  rw [if_neg htemporary]
  by_cases hsuccess : success = true
  · rw [if_pos hsuccess]
    by_cases hforce : latest < s.untilTime
    · rw [if_pos hforce]
      exact ⟨htouch, le_rfl⟩
    · rw [if_neg hforce]
      refine ⟨⟨hlatest, htouch.near, ?_⟩, le_rfl⟩
      exact (not_lt.mp hforce).trans (le_add_of_nonneg_right (delay_nonneg _))
  · rw [if_neg hsuccess]
    exact ⟨htouch, le_rfl⟩

theorem Lasting.refl (t : DestinationThrottle) : Lasting t t := fun _ s hs => ⟨s, hs, le_rfl⟩

theorem Lasting.trans {t' t'' : DestinationThrottle} (h : Lasting t t') (h' : Lasting t' t'') :
    Lasting t t'' := by
  intro i s hs
  obtain ⟨s', hs', hle⟩ := h i s hs
  obtain ⟨s'', hs'', hle'⟩ := h' i s' hs'
  exact ⟨s'', hs'', hle.trans hle'⟩

section

variable (h : Timed c now t)

include h

section

variable (hle : now ≤ now')

include hle

/-- A change of one status, judged by itself. -/
theorem Timed.update
    (hf : ∀ s, TimedStatus c now s → TimedStatus c now' (f s) ∧ s.untilTime ≤ (f s).untilTime) :
    Timed c now' (update i f t) ∧ Lasting t (update i f t) := by
  constructor
  · intro j s hs
    obtain ⟨s₀, hs₀, rfl⟩ := getElem?_update.mp hs
    split
    · exact (hf s₀ (h j s₀ hs₀)).1
    · exact (h j s₀ hs₀).later hle
  · intro j s hs
    refine ⟨_, getElem?_update.mpr ⟨s, hs, rfl⟩, ?_⟩
    split
    · exact (hf s (h j s hs)).2
    · exact le_rfl

theorem Timed.claim (hzero : zeroTime ≤ now)
    (domain : String) : Timed c now' (claim c domain now' t).2 ∧
      Lasting t (claim c domain now' t).2 := by
  have hlater : Timed c now' t := fun i s hs => (h i s hs).later hle
  have hheap : (makeRoom c now' t).heap = t.heap := by
    unfold makeRoom
    split <;> rfl
  unfold Throttle.claim
  split
  · exact ⟨hlater, .refl t⟩
  dsimp only
  split
  · refine ⟨fun i s hs => hlater i s (hheap ▸ hs), fun i s hs => ⟨s, hheap ▸ hs, le_rfl⟩⟩
  · rw [hheap]
    refine ⟨fun i s hs => ?_, fun i s hs => ⟨s, getElem?_concat_iff.mpr (.inl hs), le_rfl⟩⟩
    rcases getElem?_concat_iff.mp hs with hs | ⟨_, rfl⟩
    · exact hlater i s hs
    · have hnow := hzero.trans hle
      refine ⟨hnow, ?_, hnow.trans (le_add_of_nonneg_right (delay_nonneg _))⟩
      exact le_add_of_nonneg_right (mul_nonneg zero_le_two max_nonneg)

theorem Timed.acquire (hzero : zeroTime ≤ now)
    (domain : String) : Timed c now' (acquire U c domain now' t).1 ∧
      Lasting t (acquire U c domain now' t).1 := by
  obtain ⟨hclaim, hlasting⟩ := h.claim hle hzero (toLower U domain)
  unfold Throttle.acquire
  split
  · next heq =>
    rw [heq] at hclaim hlasting
    exact ⟨hclaim, hlasting⟩
  · next i t' heq =>
    rw [heq] at hclaim hlasting
    have htouch := hclaim.update (i := i) le_rfl
      fun s hs => ⟨hs.touch le_rfl s.active, le_rfl (a := s.untilTime)⟩
    dsimp only
    split
    · exact ⟨htouch.1, hlasting.trans htouch.2⟩
    · have htake := htouch.1.update (i := i) le_rfl
        (f := fun s => { s with active := s.active + 1 })
        fun s hs => ⟨⟨hs.last, hs.near, hs.fresh⟩, le_rfl⟩
      exact ⟨htake.1, (hlasting.trans htouch.2).trans htake.2⟩

theorem Timed.release (k : ℕ) :
    Timed c now' (release k now' t) ∧ Lasting t (release k now' t) := by
  have hlater : Timed c now' t := fun i s hs => (h i s hs).later hle
  unfold Throttle.release
  split
  · exact ⟨hlater, .refl t⟩
  · split
    · exact ⟨hlater, .refl t⟩
    · exact h.update hle fun s hs => ⟨hs.touch hle _, le_rfl⟩

end

theorem Timed.observe {first latest : Time} (hfirst : now ≤ first)
    (hlatest : first ≤ latest) (hgap : latest ≤ first + c.max) (domain : String)
    (success temporary : Bool) :
    Timed c latest (observe U c domain success temporary first latest t) ∧
      Lasting t (observe U c domain success temporary first latest t) := by
  unfold Throttle.observe
  split
  · exact ⟨fun i s hs => (h i s hs).later (hfirst.trans hlatest), .refl t⟩
  · exact h.update (hfirst.trans hlatest) fun s hs =>
      hs.observed hfirst hlatest hgap success temporary

theorem Timed.step (hzero : zeroTime ≤ now) (hfirst : now ≤ call.first)
    (hlatest : call.first ≤ call.latest) (hgap : call.latest ≤ call.first + c.max) :
    Timed c call.latest (step U c t call) ∧ Lasting t (step U c t call) := by
  cases call with
  | acquire domain now => exact h.acquire hfirst hzero domain
  | release k now => exact h.release hfirst k
  | observe domain success temporary now now' =>
    exact h.observe hfirst hlatest hgap domain success temporary

/-- Timely calls from a timed throttle: the last of them too. -/
theorem Timed.run {calls : List Call} (hzero : zeroTime ≤ now)
    (hcalls : Timely c now (calls ++ [call])) :
    ∃ now', Timed c now' (calls.foldl (Throttle.step U c) t) ∧ zeroTime ≤ now' ∧
      now' ≤ call.first ∧ call.first ≤ call.latest ∧ call.latest ≤ call.first + c.max := by
  induction calls generalizing now t with
  | nil => exact ⟨now, h, hzero, hcalls.1, hcalls.2.1, hcalls.2.2.1⟩
  | cons call' calls ih =>
    obtain ⟨hfirst, hlatest, hgap, hrest⟩ := hcalls
    exact ih (h.step hzero hfirst hlatest hgap).1 (hzero.trans (hfirst.trans hlatest)) hrest

end

/-! ### Statuses that are dropped -/

theorem claim_states (domain : String) (now : Time) (hk : t.states[k]? = some i) :
    (claim c domain now t).2.states[k]? = some i ∨
      (claim c domain now t).2.states[k]? = none ∧ (t.heap[i]?).any (stale c now) = true := by
  unfold claim
  split
  · exact .inl hk
  next hnew =>
  have hne : ¬compare domain k = .eq := by
    intro heq
    rw [Std.LawfulEqCmp.eq_of_compare heq, hk] at hnew
    cases hnew
  have hroom : (makeRoom c now t).states[k]? = some i ∨
      (makeRoom c now t).states[k]? = none ∧ (t.heap[i]?).any (stale c now) = true := by
    unfold makeRoom
    split
    · cases hstale : (t.heap[i]?).any (stale c now) with
      | false => exact .inl (getElem?_evict.mpr ⟨hk, hstale⟩)
      | true =>
        refine .inr ⟨eq_none_iff_forall_ne_some.mpr fun j hj => ?_, rfl⟩
        obtain ⟨hj, hnot⟩ := getElem?_evict.mp hj
        rw [hk] at hj
        cases hj
        exact absurd (hstale.symm.trans hnot) false_ne_true.symm
    · exact .inl hk
  dsimp only
  split
  · exact hroom
  · rw [Std.ExtTreeMap.getElem?_insert, if_neg hne]
    exact hroom

theorem acquire_states (domain : String) :
    (acquire U c domain now t).1.states = (claim c (toLower U domain) now t).2.states := by
  unfold acquire
  split
  · next heq => rw [heq]
  · next heq =>
    rw [heq]
    dsimp only
    split <;> rfl

/-- A call keeps a status in the table unless it is stale. -/
theorem step_states (call : Call) (hk : t.states[k]? = some i) :
    (step U c t call).states[k]? = some i ∨ (step U c t call).states[k]? = none ∧
      (t.heap[i]?).any (stale c call.latest) = true := by
  cases call with
  | acquire domain now =>
    unfold step
    rw [acquire_states]
    exact claim_states (toLower U domain) now hk
  | release k' now =>
    refine .inl ?_
    unfold step release
    dsimp only
    split
    · exact hk
    · split <;> exact hk
  | observe domain success temporary now now' =>
    refine .inl ?_
    unfold step observe
    dsimp only
    split <;> exact hk

theorem lt_of_stale (h : stale c now s = true) : s.active = 0 ∧ s.last + 2 * c.max < now := by
  simp only [stale, and_eq_true, decide_eq_true_eq] at h
  refine ⟨h.1, ?_⟩
  have hneg : minDuration ≤ 2 * c.max :=
    le_trans (by decide) (mul_nonneg zero_le_two (max_nonneg (c := c)))
  have hsub := (lt_min_iff.mp ((lt_max_iff.mp h.2).resolve_left (not_lt.mpr hneg))).2
  linarith

/-- A domain that a call drops had no lease, and its cooldown was over if the calls are timely. -/
theorem Sound.dropped (h : Sound U c t) (hs : status U t domain = some s)
    (hdrop : status U (Throttle.step U c t call) domain = none) :
    outstanding U t domain = 0 ∧ s.last + 2 * c.max < call.latest := by
  obtain ⟨i, hi, hget⟩ := bind_eq_some_iff.mp hs
  rcases step_states (U := U) (c := c) call hi with hkept | ⟨_, hstale⟩
  · obtain ⟨s', hs', _⟩ := (h.step call).named _ _ hkept
    rw [status, hkept, bind_some, hs'] at hdrop
    cases hdrop
  · rw [hget] at hstale
    obtain ⟨hzero, hlate⟩ := lt_of_stale hstale
    refine ⟨?_, hlate⟩
    rw [h.outstanding_eq hi]
    exact_mod_cast (h.counted i s hget).symm.trans hzero

/-- A domain that a call keeps has its status at the same place. -/
theorem Lasting.status_le (h : Lasting t (step U c t call)) {s' : DestinationStatus}
    (hs : status U t domain = some s) (hs' : status U (step U c t call) domain = some s') :
    s.untilTime ≤ s'.untilTime := by
  obtain ⟨i, hi, hget⟩ := bind_eq_some_iff.mp hs
  rcases step_states (U := U) (c := c) call hi with hkept | ⟨hnone, _⟩
  · obtain ⟨s'', hget', hle⟩ := h i s hget
    rw [status, hkept, bind_some, hget'] at hs'
    cases hs'
    exact hle
  · rw [status, hnone] at hs'
    cases hs'

theorem run_concat (calls : List Call) (call : Call) :
    run U c (calls ++ [call]) = step U c (run U c calls) call :=
  foldl_append

/-- **Accounting.**  After any calls the counts are right, and a call drops only domains without
leases; if the calls are timely, it drops only domains whose cooldown is over, and makes no
cooldown shorter. -/
theorem throttle_accounting (U : CaseTables) (c : ThrottleConfig) (calls : List Call)
    (call : Call) :
    Accounted U c (run U c calls) ∧
    ∀ domain s, status U (run U c calls) domain = some s →
      (status U (run U c (calls ++ [call])) domain = none →
        outstanding U (run U c calls) domain = 0) ∧
      (Timely c zeroTime (calls ++ [call]) →
        match status U (run U c (calls ++ [call])) domain with
        | none => s.untilTime ≤ call.latest
        | some s' => s.untilTime ≤ s'.untilTime) := by
  have hsound := sound_run (U := U) (c := c) calls
  refine ⟨hsound.accounted, fun domain s hs => ?_⟩
  rw [run_concat]
  refine ⟨fun hdrop => (hsound.dropped hs hdrop).1, fun htimely => ?_⟩
  have hempty : Timed c zeroTime {} := fun i s hs => by simp at hs
  obtain ⟨now, htimed, hzero, hfirst, hlatest, hgap⟩ := hempty.run (U := U) le_rfl htimely
  split
  · next hdrop =>
    obtain ⟨i, _, hget⟩ := bind_eq_some_iff.mp hs
    exact (htimed i s hget).near.trans (hsound.dropped hs hdrop).2.le
  · next hs' => exact (htimed.step hzero hfirst hlatest hgap).2.status_le hs hs'

/-- One destination at a time, and a second of backoff. -/
def narrow : ThrottleConfig where
  concurrency := 4
  maxDestinations := 1
  initial := 1000000000
  max := 1000000000
  initial_ge := by decide
  max_ge := by decide
  max_le := by decide
  concurrency_ge := by decide
  concurrency_le := by decide
  maxDestinations_ge := by decide

/-- A delivery that fails; its `Observe` reads the clock at 0 s and again at `gap`. -/
def failing (gap : Time) : List Call :=
  [.acquire "a" 0, .release 0 0, .observe "a" false true 0 gap]

/-- A delivery to another domain follows. -/
def failingThen (gap : Time) : List Call := failing gap ++ [.acquire "b" 3500000000]

theorem throttle_accounting_narrow :
    Timely narrow zeroTime (failingThen 1000000000) ∧
    Accounted asciiTables narrow (run asciiTables narrow (failing 1000000000)) ∧
    (status asciiTables (run asciiTables narrow (failingThen 1000000000)) "a").isNone ∧
    ∀ s, status asciiTables (run asciiTables narrow (failing 1000000000)) "a" = some s →
      (Timely narrow zeroTime (failingThen 1000000000) →
        match status asciiTables (run asciiTables narrow (failingThen 1000000000)) "a" with
        | none => s.untilTime ≤ (Call.acquire "b" 3500000000).latest
        | some s' => s.untilTime ≤ s'.untilTime) :=
  ⟨by simp [Timely, failingThen, failing, Call.first, Call.latest, narrow, zeroTime],
    (throttle_accounting asciiTables narrow _ (.acquire "b" 3500000000)).1, by decide +kernel,
    fun s hs => ((throttle_accounting asciiTables narrow _ (.acquire "b" 3500000000)).2 "a" s hs).2⟩

/-- With three seconds between the readings of `Observe`, a domain in its cooldown is dropped,
though the clock never goes back. -/
theorem dropped_in_cooldown :
    ((failingThen 3000000000).flatMap fun call => [call.first, call.latest]).Pairwise (· ≤ ·) ∧
    (status asciiTables (run asciiTables narrow (failing 3000000000)) "a").map
      DestinationStatus.untilTime = some 4000000000 ∧
    (status asciiTables (run asciiTables narrow (failingThen 3000000000)) "a").isNone :=
  ⟨by decide, by decide +kernel, by decide +kernel⟩

end EmailService.Throttle
