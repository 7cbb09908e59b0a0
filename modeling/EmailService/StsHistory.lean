/-
EmailService/StsHistory.lean

The MTA-STS policies of the process over time: lookups that may overlap, the cache file, and
restarts, which load that file.

`known` records every valid policy from the moment it is fetched, whatever becomes of it then.  A
decision about an MX host complies with it (`Complies`) if, while a recorded policy in enforce mode
has not expired, the host is refused, or is listed and reached over authenticated TLS.
`policy_kept` says that every decision does, as long as the file can be written and the lookups of
one domain do not overlap; `unsaved_policy_ignored` that a failed write is enough to fall back.
-/
import EmailService.TransportPolicy

namespace EmailService.Sts

open GoStrings Program TransportPolicy List Function

/-- `GetPolicy` after the cache was looked up in vain. -/
def Manager.complete (m : Manager) (f : Fetch) (domain : String) : Except String Policy × Manager :=
  match f.policy with
  | .error err => (.error err, m)
  | .ok policy =>
    let expiresAt := f.cachedAt + policy.maxAge * 1000000000
    let m := { m with cache := update m.cache domain (some (policy, expiresAt)) }
    match f.saveErr with
    | some err => (.error err, m)
    | none => (.ok policy, m)

/-! ### The process -/

/-- A `ShouldEnforceTLS` that waits for DNS or the web server. -/
structure Lookup where
  call : ℕ
  domain : String
  mx : MX

/-- What `ShouldEnforceTLS` says about a host. -/
structure Decision where
  domain : String
  mx : MX
  verdict : Except String Bool

/-- The process, if it has started, and the cache file; the lookups under way; and the policies
fetched so far, each with the time it expires. -/
structure Process where
  running : Option Manager
  file : Manager
  clock : Time
  pending : List Lookup := []
  known : List (String × Policy × Time) := []

inductive Event where
  | ask (call : ℕ) (written : String) (now : Time) (mx : MX)
  | answer (call : ℕ) (f : Fetch)
  | restart (now : Time) (readErr : Option String)

variable (U : CaseTables) (st : Process)

/-- The domain of a delivery is in lower case, as `groupByDomain` writes it.  `saveCache` writes
the whole cache or leaves the file as it is. -/
def Process.step : Event → Process × Option Decision
  | .ask call written now mx =>
    match st.running with
    | none => (st, none)
    | some m =>
      let domain := toLower U written
      match m.cached now domain with
      | some policy =>
        ({ st with clock := now }, some ⟨domain, mx, enforcement U (some policy) mx.host⟩)
      | none => ({ st with clock := now, pending := ⟨call, domain, mx⟩ :: st.pending }, none)
  | .answer call f =>
    match st.running, st.pending.find? (·.call = call) with
    | some m, some l =>
      let (r, m) := m.complete f l.domain
      let st := { st with
        running := some m
        clock := f.cachedAt
        pending := st.pending.filter (·.call ≠ call) }
      let st := match f.policy with
        | .error _ => st
        | .ok policy =>
          { st with
            file := if f.saveErr = none then m else st.file
            known := (l.domain, policy, f.cachedAt + policy.maxAge * 1000000000) :: st.known }
      (st, some ⟨l.domain, l.mx, enforcement U r.toOption l.mx.host⟩)
    | _, _ => (st, none)
  | .restart now readErr =>
    ({ st with
      running := if readErr = none then some st.file else none
      clock := now
      pending := [] }, none)

/-- The clock does not go back. -/
def Timely : Event → Prop
  | .ask _ _ now _ | .restart now _ => st.clock ≤ now
  | .answer _ f => st.clock ≤ f.cachedAt

/-- No lookup of the domain is under way, and a write of the file succeeds. -/
def Calm : Event → Prop
  | .ask _ written _ _ => ∀ l ∈ st.pending, l.domain ≠ toLower U written
  | .answer _ f => f.saveErr = none
  | .restart _ _ => True

/-- The host is refused, or listed and reached over authenticated TLS. -/
def Protects (p : Policy) (mx : MX) (verdict : Except String Bool) : Prop :=
  (∃ err, verdict = .error err) ∨ verdict = .ok true ∧ p.lists U mx.host = true

/-- The decision of a step complies with the policies known then. -/
def Complies (e : Event) : Prop :=
  ∀ d ∈ (st.step U e).2, ∀ p expires, (d.domain, p, expires) ∈ (st.step U e).1.known →
    (st.step U e).1.clock < expires → p.mode = "enforce" → Protects U p d.mx d.verdict

/-- The property holds of every step of a run. -/
def Along (P : Process → Event → Prop) : Process → List Event → Prop
  | _, [] => True
  | st, e :: es => P st e ∧ Along P (st.step U e).1 es

/-! ### The invariant -/

/-- A policy that has not expired is in the cache and in the file, and no lookup of its domain is
under way. -/
structure Inv (st : Process) : Prop where
  kept : ∀ d p expires, (d, p, expires) ∈ st.known → st.clock < expires →
    st.file.cache d = some (p, expires) ∧ ∀ m ∈ st.running, m.cache d = some (p, expires)
  lookups : ∀ l ∈ st.pending, ∀ p expires, (l.domain, p, expires) ∈ st.known → expires ≤ st.clock
  apart : st.pending.Pairwise (·.domain ≠ ·.domain)

variable {U} {st : Process} {m : Manager} {p : Policy}

theorem protects_enforcement (h : p.mode = "enforce") (mx : MX) :
    Protects U p mx (enforcement U (some p) mx.host) := by
  simp only [Protects, enforcement, if_pos h]
  split
  · next hlists => exact .inr ⟨rfl, hlists⟩
  · exact .inl ⟨_, rfl⟩

/-- A policy that has not expired is found. -/
theorem Inv.cached_eq (h : Inv st) (hm : st.running = some m) {d : String}
    {expires now : Time} (hknown : (d, p, expires) ∈ st.known) (hclock : st.clock ≤ now)
    (hnow : now < expires) : m.cached now d = some p := by
  have hcache := (h.kept d p expires hknown (hclock.trans_lt hnow)).2 m hm
  simp only [Manager.cached, hcache, if_pos hnow]

/-- Time passes, and lookups end. -/
theorem Inv.later (h : Inv st) {now : Time} (hclock : st.clock ≤ now) {rest : List Lookup}
    (hrest : rest.Sublist st.pending) : Inv { st with clock := now, pending := rest } where
  kept d p expires hknown hnow := h.kept d p expires hknown (hclock.trans_lt hnow)
  lookups l hl p expires hknown := (h.lookups l (hrest.subset hl) p expires hknown).trans hclock
  apart := h.apart.sublist hrest

/-- A lookup starts where nothing is known that has not expired. -/
theorem Inv.ask (h : Inv st) (hm : st.running = some m) {now : Time} (hclock : st.clock ≤ now)
    {l : Lookup} (hmiss : m.cached now l.domain = none)
    (hfree : ∀ l' ∈ st.pending, l'.domain ≠ l.domain) :
    Inv { st with clock := now, pending := l :: st.pending } where
  kept := (h.later hclock (.refl _)).kept
  lookups := by
    refine forall_mem_cons.mpr ⟨fun p expires hknown => ?_,
      (h.later hclock (.refl _)).lookups⟩
    by_contra hlate
    have hfound := h.cached_eq hm hknown hclock (not_le.mp hlate)
    rw [hmiss] at hfound
    cases hfound
  apart := pairwise_cons.mpr ⟨fun l' hl' => (hfree l' hl').symm, h.apart⟩

/-- A policy is fetched and saved. -/
theorem Inv.fetched (h : Inv st) {now expires : Time} (hclock : st.clock ≤ now) {l : Lookup}
    (hl : l ∈ st.pending) (policy : Policy) (m : Manager)
    (hm : st.running = some m) :
    let m' : Manager := ⟨update m.cache l.domain (some (policy, expires))⟩
    Inv { st with
      running := some m'
      file := m'
      clock := now
      pending := st.pending.filter (·.call ≠ l.call)
      known := (l.domain, policy, expires) :: st.known } := by
  intro m'
  have hother : ∀ l' ∈ st.pending.filter (·.call ≠ l.call), l'.domain ≠ l.domain := by
    intro l' hl'
    obtain ⟨hmem, hcall⟩ := mem_filter.mp hl'
    have hne : l' ≠ l := fun heq => of_decide_eq_true hcall (congrArg Lookup.call heq)
    have hsymm : Std.Symm fun l l' : Lookup => l.domain ≠ l'.domain := ⟨fun _ _ => .symm⟩
    exact h.apart.forall hmem hl hne
  refine ⟨?_, ?_, h.apart.sublist filter_sublist⟩
  · intro d p e hknown hnow
    have hkept : m'.cache d = some (p, e) := by
      rcases mem_cons.mp hknown with heq | hold
      · obtain ⟨rfl, rfl, rfl⟩ := Prod.mk.injEq .. ▸ heq
        exact update_self ..
      · have hne : d ≠ l.domain := by
          rintro rfl
          exact absurd (h.lookups l hl p e hold) (not_le.mpr (hclock.trans_lt hnow))
        rw [← (h.kept d p e hold (hclock.trans_lt hnow)).2 m hm]
        exact update_of_ne hne ..
    refine ⟨hkept, fun m'' hm'' => ?_⟩
    cases hm''
    exact hkept
  · intro l' hl' p e hknown
    rcases mem_cons.mp hknown with heq | hold
    · exact absurd (congrArg Prod.fst heq) (hother l' hl')
    · exact (h.lookups l' (mem_of_mem_filter hl') p e hold).trans hclock

/-! ### Steps -/

theorem Inv.step (h : Inv st) {e : Event} (htime : Timely st e) (hcalm : Calm U st e) :
    Inv (st.step U e).1 ∧ Complies U st e := by
  cases e with
  | ask call written now mx =>
    rcases hm : st.running with - | m
    · simp only [Process.step, Complies, hm]
      exact ⟨h, nofun⟩
    rcases hcached : m.cached now (toLower U written) with - | policy
    · simp only [Process.step, Complies, hm, hcached]
      exact ⟨hm ▸ h.ask (l := ⟨call, toLower U written, mx⟩) hm htime hcached hcalm, nofun⟩
    · simp only [Process.step, Complies, hm, hcached]
      refine ⟨hm ▸ h.later htime (.refl _), ?_⟩
      rintro d ⟨rfl⟩ p expires hknown hnow henforce
      obtain rfl : policy = p :=
        Option.some.inj (hcached.symm.trans (h.cached_eq hm hknown htime hnow))
      exact protects_enforcement henforce mx
  | answer call f =>
    rcases hm : st.running with - | m
    · simp only [Process.step, Complies, hm]
      exact ⟨h, nofun⟩
    rcases hl : st.pending.find? (·.call = call) with - | l
    · simp only [Process.step, Complies, hm, hl]
      exact ⟨h, nofun⟩
    have hmem := mem_of_find?_eq_some hl
    obtain rfl : l.call = call := by simpa using find?_some hl
    have hsave : f.saveErr = none := hcalm
    have hpast : ∀ p expires, (l.domain, p, expires) ∈ st.known → ¬ f.cachedAt < expires :=
      fun p expires hknown => not_lt.mpr ((h.lookups l hmem p expires hknown).trans htime)
    rcases hpolicy : f.policy with err | policy
    · simp only [Process.step, Complies, hm, hl, Manager.complete, hpolicy]
      refine ⟨hm ▸ h.later htime filter_sublist, ?_⟩
      rintro d ⟨rfl⟩ p expires hknown hnow
      exact absurd hnow (hpast p expires hknown)
    · simp only [Process.step, Complies, hm, hl, Manager.complete, hpolicy, hsave, if_true]
      refine ⟨h.fetched htime hmem policy m hm, ?_⟩
      rintro d ⟨rfl⟩ p expires hknown hnow henforce
      rcases mem_cons.mp hknown with heq | hold
      · obtain rfl : p = policy := congrArg (·.2.1) heq
        exact protects_enforcement henforce l.mx
      · exact absurd hnow (hpast p expires hold)
  | restart now readErr =>
    refine ⟨⟨fun d p expires hknown hnow => ?_, nofun, .nil⟩, nofun⟩
    have hfile := (h.kept d p expires hknown (lt_of_le_of_lt htime hnow)).1
    refine ⟨hfile, fun m hm => ?_⟩
    dsimp only [Process.step] at hm
    split at hm
    · cases hm
      exact hfile
    · cases hm

theorem Inv.along (h : Inv st) {es : List Event}
    (hrun : Along U (fun st e => Timely st e ∧ Calm U st e) st es) :
    Along U (Complies U) st es := by
  induction es generalizing st with
  | nil => trivial
  | cons e es ih =>
    obtain ⟨⟨htime, hcalm⟩, hrest⟩ := hrun
    obtain ⟨hinv, hcomplies⟩ := h.step htime hcalm
    exact ⟨hcomplies, ih hinv hrest⟩

/-! ### The attempt -/

/-- The only connection an attempt may open is one to the host that requires TLS. -/
def secured (host : String) : Monitor netSignature Unit where
  track _ _ _ := ()
  Offers _ _ _ := True
  Allows _
    | .dialSMTP _ => False
    | .dialNextHop hop => hop = stsHop host
    | _ => True

section Attempt

variable {host sender : String} {recipients : List String} {message : List UInt8}

theorem smtpTransaction_secured (address : String) :
    Spec (secured host) (smtpTransaction address sender recipients message) () fun _ _ => True := by
  refine (smtpTransaction_still (fun q hq _ => ?_) (fun _ => trivial) (fun _ _ _ => rfl)
    address).mono fun _ _ _ => trivial
  cases q <;> first | exact hq.elim | trivial

/-- A host that is refused or listed is reached over authenticated TLS only. -/
theorem attemptMX_secured {p : Policy} {mx : MX} {verdict : Except String Bool}
    (h : Protects U p mx verdict) :
    Spec (secured mx.host) (attemptMX mx sender recipients message verdict) () fun _ _ => True := by
  rcases h with ⟨err, rfl⟩ | ⟨rfl, -⟩
  · trivial
  · refine .bind (Q := fun _ _ => True) ?_ fun _ _ _ => trivial
    refine ⟨rfl, fun (err : Option String) _ => ?_⟩
    rcases err with - | err
    · refine (smtpTransaction_secured _).bind fun out _ _ => ?_
      exact spec_ite (fun _ => trivial) fun _ => trivial
    · trivial

end Attempt

/-- **While the file can be written and lookups of a domain do not overlap, no policy is dropped.**
In every run from a start with any cache file, each decision complies with the policies fetched
before; the attempt that follows from such a decision opens no connection but one under TLS, and
that only with a certificate the trust store verifies for the host. -/
theorem policy_kept (U : CaseTables) (file : Manager) (clock : Time) (events : List Event)
    (hrun : Along U (fun st e => Timely st e ∧ Calm U st e) ⟨some file, file, clock, [], []⟩
      events) :
    Along U (Complies U) ⟨some file, file, clock, [], []⟩ events ∧
      (∀ (p : Policy) (mx : MX) (verdict : Except String Bool), Protects U p mx verdict →
        ∀ sender recipients message, Spec (secured mx.host)
          (attemptMX mx sender recipients message verdict) () fun _ _ => True) ∧
      ∀ (trust : Trust) (meeting : Meeting) (host : String),
        dialHop trust meeting (stsHop host) = none →
          trust "" meeting.dial.rawCerts (nameOfMX (trimSuffix host ".")) = true := by
  have hstart : Inv ⟨some file, file, clock, [], []⟩ :=
    ⟨fun _ _ _ h => absurd h not_mem_nil, fun _ h => absurd h not_mem_nil, .nil⟩
  refine ⟨hstart.along hrun, fun p mx verdict h _ _ _ => attemptMX_secured h, ?_⟩
  intro trust meeting host h
  exact (dialHop_ok rfl h).2

/-- A policy in enforce mode for one host, found on the web. -/
def enforceFetch (now : Time) (saveErr : Option String) : Fetch where
  now := now
  txt := .ok ["v=STSv1; id=1"]
  response := .ok (200, .ok "version: STSv1\nmode: enforce\nmx: mx.example\nmax_age: 86400")
  cachedAt := now
  saveErr := saveErr

/-- The policy is fetched; after a restart the domain is written in capitals. -/
def fetchAndRestart (saveErr : Option String) : List Event :=
  [.ask 0 "example" 1 ⟨"mx.example.", 10⟩, .answer 0 (enforceFetch 2 saveErr), .restart 3 none,
    .ask 1 "EXAMPLE" 4 ⟨"mx.example.", 10⟩]

theorem policy_kept_restart :
    Along asciiTables (Complies asciiTables) ⟨some ⟨fun _ => none⟩, ⟨fun _ => none⟩, 0, [], []⟩
      (fetchAndRestart none) :=
  (policy_kept asciiTables ⟨fun _ => none⟩ 0 (fetchAndRestart none)
    ⟨⟨(by decide : (0 : ℤ) ≤ 1), nofun⟩, ⟨(by decide : (1 : ℤ) ≤ 2), rfl⟩,
      ⟨(by decide : (2 : ℤ) ≤ 3), trivial⟩, ⟨(by decide : (3 : ℤ) ≤ 4), nofun⟩, trivial⟩).1

/-- Where the write fails, the very attempt that fetched the policy falls back, and a restart
forgets it. -/
theorem unsaved_policy_ignored :
    Along asciiTables Timely ⟨some ⟨fun _ => none⟩, ⟨fun _ => none⟩, 0, [], []⟩
        (fetchAndRestart (some "no space left on device")) ∧
      ¬ Along asciiTables (Complies asciiTables)
        ⟨some ⟨fun _ => none⟩, ⟨fun _ => none⟩, 0, [], []⟩
        (fetchAndRestart (some "no space left on device")) := by
  refine ⟨⟨(by decide : (0 : ℤ) ≤ 1), (by decide : (1 : ℤ) ≤ 2), (by decide : (2 : ℤ) ≤ 3),
    (by decide : (3 : ℤ) ≤ 4), trivial⟩, fun ⟨_, hanswer, _⟩ => ?_⟩
  rcases hanswer _ rfl ⟨"STSv1", "enforce", ["mx.example"], 86400⟩ 86400000000002
    (by decide +kernel) (by decide +kernel) rfl with ⟨err, h⟩ | ⟨h, -⟩
  · cases h
  · cases h

end EmailService.Sts
