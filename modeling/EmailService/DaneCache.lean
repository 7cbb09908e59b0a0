/-
EmailService/DaneCache.lean

What the two caches keep of a validated DNS answer.

An answer is validated once, and later lookups are served from the resolver's
cache or from the validator's.  `Origin` records, beside the caches, the
decision that was taken when the cached answer was validated; a state is
`Consistent` with it if every lookup served from a cache takes that decision
again.  The resolver's cache keeps whether an answer was authentic, and not
whether it was bogus, so this holds in every run exactly if no answer of the
run is forged and still usable (`cached_decision_iff`).
-/
import EmailService.Dane

namespace EmailService

open List Function

namespace Dane

open ExpiringCache

variable {T : Tables}

/-! ### Decisions -/

/-- What a lookup comes to for the connection that asked. -/
inductive Decision
  | failClosed
  | mandatory
  | opportunistic
  deriving DecidableEq

/-- The decision `dialSMTP` takes from `daneTLSRequirement`. -/
def decisionOf : Except String Bool → Decision
  | .error _ => .failClosed
  | .ok true => .mandatory
  | .ok false => .opportunistic

/-- The decision on the result of a lookup. -/
def requirement (r : TLSALookupResult × Option String) : Decision :=
  decisionOf (daneTLSRequirement r.1 r.2)

/-- The decision for a host in a state of the caches. -/
def State.decision (T : Tables) (s : State) (x : Exchange) (now : Time) (hostname : String)
    (port : ℤ) : Decision := requirement (s.lookupTLSA T x now hostname port).1

/-- The record is a TLSA record that `LookupTLSA` keeps. -/
def RR.isTLSA (rr : RR) : Bool := (rr.tlsaRecord "" 0).isSome

/-- The decision on a message and its validation. -/
def Msg.decision (msg : Msg) (validation : ValidationResult) : Decision :=
  if validation.bogus then .failClosed
  else if msg.rcode = rcodeSuccess then
    if validation.authentic && msg.answer.any RR.isTLSA then .mandatory else .opportunistic
  else if msg.rcode = rcodeNameError then .opportunistic
  else .failClosed

/-- Whether a record is kept does not depend on the host it was asked for. -/
theorem isSome_tlsaRecord (hostname : String) (port : ℤ) (rr : RR) :
    (rr.tlsaRecord hostname port).isSome = rr.isTLSA := by
  unfold RR.isTLSA RR.tlsaRecord
  split
  · split
    · rfl
    · -- validity looks at neither host nor port
      have hkept : ∀ (valid : Prop) [Decidable valid] (a b : TLSARecord),
          (if valid then some a else none).isSome = (if valid then some b else none).isSome := by
        intro valid _ a b
        split <;> rfl
      exact hkept _ _ _
  · rfl

theorem requirement_tlsaResult (hostname : String) (port : ℤ) (msg : Msg)
    (validation : ValidationResult) :
    requirement (tlsaResult T hostname port msg validation) = msg.decision validation := by
  have hrecords : (msg.answer.filterMap (RR.tlsaRecord hostname port)).isEmpty =
      !msg.answer.any RR.isTLSA := by
    induction msg.answer with
    | nil => rfl
    | cons rr rest ih =>
      have hsome := isSome_tlsaRecord hostname port rr
      rcases hrr : rr.tlsaRecord hostname port with - | record
      · rw [hrr] at hsome
        rw [filterMap_cons_none hrr, ih, any_cons, ← hsome]
        rfl
      · rw [hrr] at hsome
        rw [filterMap_cons_some hrr, any_cons, ← hsome]
        rfl
  unfold tlsaResult Msg.decision
  by_cases hbogus : validation.bogus
  · rw [if_pos hbogus, if_pos hbogus]
    rfl
  · rw [if_neg hbogus, if_neg hbogus]
    rw [Bool.not_eq_true] at hbogus
    by_cases hrcode : msg.rcode = rcodeSuccess
    · rw [if_neg (not_not.mpr hrcode), if_pos hrcode]
      simp only [requirement, daneTLSRequirement, hbogus, hrecords]
      cases validation.authentic <;> cases msg.answer.any RR.isTLSA <;> rfl
    · rw [if_pos hrcode, if_neg hrcode]
      by_cases hname : msg.rcode = rcodeNameError
      · rw [if_pos hname, if_pos hname]
        simp [requirement, daneTLSRequirement, hbogus, decisionOf]
      · rw [if_neg hname, if_neg hname]
        rfl

/-! ### Forged answers -/

variable (x : Exchange) (msg : Msg)

/-- The answer is signed, nobody vouches for it, and some records that a
signature covers are verified by no signature. -/
def Exchange.Forged : Prop :=
  msg.authenticatedData = false ∧ (∃ rr ∈ msg.answer ++ msg.ns, rr.rrtype = 46) ∧
    (msg.rrsigs = [] ∨ ∃ sig ∈ msg.rrsigs, msg.unverified x.checks sig = true)

/-- An answer that is forged is also one that `LookupTLSA` stops at, by its
response code. -/
def Exchange.Sound (x : Exchange) : Prop :=
  ∀ msg, x.response = .ok msg → x.Forged msg →
    msg.rcode ≠ rcodeSuccess ∧ msg.rcode ≠ rcodeNameError

variable (checks : RRSIG → List RR → Bool)

theorem validateSignatures_ok_iff (msg : Msg) :
    validateSignatures T checks msg = .ok true ↔
      ¬(msg.rrsigs = [] ∨ ∃ sig ∈ msg.rrsigs, msg.unverified checks sig = true) := by
  unfold validateSignatures
  by_cases hnone : msg.rrsigs = []
  · simp [hnone]
  · rw [if_neg (by simpa using hnone)]
    rcases hfind : msg.rrsigs.find? (msg.unverified checks) with - | sig
    · refine iff_of_true rfl ?_
      rintro (h | ⟨sig, hsig, hunverified⟩)
      · exact hnone h
      · exact find?_eq_none.mp hfind sig hsig hunverified
    · refine iff_of_false (by simp) fun h => h (.inr ⟨sig, ?_, ?_⟩)
      · exact mem_of_find?_eq_some hfind
      · exact find?_some hfind

theorem validateSignatures_ne_false (msg : Msg) : validateSignatures T checks msg ≠ .ok false := by
  unfold validateSignatures
  split
  · simp
  · split <;> simp

/-- Either the answer is forged, and found bogus and not authentic, or it is
neither. -/
theorem validateResponse_cases :
    (x.Forged msg ∧ (validateResponse T x.checks msg).bogus = true ∧
        (validateResponse T x.checks msg).authentic = false) ∨
      (¬ x.Forged msg ∧ (validateResponse T x.checks msg).bogus = false) := by
  unfold validateResponse
  by_cases had : msg.authenticatedData
  · rw [if_pos had]
    exact .inr ⟨fun h => absurd h.1 (by simp [had]), rfl⟩
  · rw [if_neg had]
    rw [Bool.not_eq_true] at had
    by_cases hsigned : ∃ rr ∈ msg.answer ++ msg.ns, rr.rrtype = 46
    · have hany : ((msg.answer ++ msg.ns).any fun rr => rr.rrtype = 46) = true :=
        any_eq_true.mpr (by simpa using hsigned)
      rw [hany, if_neg (by decide)]
      have hok := validateSignatures_ok_iff (T := T) x.checks msg
      rcases hval : validateSignatures T x.checks msg with err | validated
      · rw [hval] at hok
        have hbad := not_not.mp fun h => nomatch hok.mpr h
        exact .inl ⟨⟨had, hsigned, hbad⟩, rfl, rfl⟩
      · cases validated with
        | false => exact absurd hval (validateSignatures_ne_false x.checks msg)
        | true => exact .inr ⟨fun h => hok.mp hval h.2.2, rfl⟩
    · have hany : ((msg.answer ++ msg.ns).any fun rr => rr.rrtype = 46) = false :=
        any_eq_false.mpr fun rr hrr => by simpa using fun h => hsigned ⟨rr, hrr, h⟩
      rw [hany, if_pos (by decide)]
      exact .inr ⟨fun h => hsigned h.2.1, rfl⟩

/-- What the resolver's cache keeps of the validation. -/
def cachedValidation (validation : ValidationResult) : ValidationResult :=
  { authentic := validation.authentic }

/-- The decision survives the cache unless the answer is forged and usable. -/
theorem decision_cached_iff :
    msg.decision (cachedValidation (validateResponse T x.checks msg)) =
        msg.decision (validateResponse T x.checks msg) ↔
      (x.Forged msg → msg.rcode ≠ rcodeSuccess ∧ msg.rcode ≠ rcodeNameError) := by
  rcases validateResponse_cases (T := T) x msg with ⟨hforged, hbogus, hauth⟩ | ⟨hforged, hbogus⟩
  · unfold Msg.decision cachedValidation
    simp only [hbogus, hauth, hforged, forall_const]
    by_cases hrcode : msg.rcode = rcodeSuccess
    · simp [hrcode]
    · by_cases hname : msg.rcode = rcodeNameError
      · simp [hname]
      · simp [hrcode, hname]
  · refine iff_of_true ?_ fun h => absurd h hforged
    unfold Msg.decision cachedValidation
    rw [hbogus]

/-! ### Runs -/

/-- The decisions taken when the answers behind the cached entries were
validated. -/
structure Origin where
  resolver : String → Decision := fun _ => .opportunistic
  validator : String → Decision := fun _ => .opportunistic

/-- What changes the caches. -/
inductive Event
  | lookup (x : Exchange) (now : Time) (hostname : String) (port : ℤ)
  | cleanResolver (now : Time)
  | cleanValidator (now : Time)

/-- The answers the event may receive satisfy `A`. -/
def Event.Within (A : Exchange → Prop) : Event → Prop
  | lookup x .. => A x
  | _ => True

def State.after (T : Tables) (s : State) : Event → State
  | .lookup x now hostname port => (s.lookupTLSA T x now hostname port).2
  | .cleanResolver now => { s with resolver := s.resolver.cleanup now }
  | .cleanValidator now => { s with validator := s.validator.cleanup now }

/-- The resolver's key for a host. -/
def hostKey (T : Tables) (hostname : String) (port : ℤ) : String :=
  resolverKey T (tlsaName hostname port)

/-- A new answer brings its decision; an entry made from a cached answer takes
over the decision of that answer. -/
def Origin.after (T : Tables) (o : Origin) (s : State) : Event → Origin
  | .lookup x now hostname port =>
    let key := validatorKey hostname port
    match s.validator.find now key, s.resolver.find now (hostKey T hostname port), x.response with
    | some _, _, _ => o
    | none, some _, _ =>
      { o with
        validator := update o.validator key (o.resolver (hostKey T hostname port)) }
    | none, none, .error _ => o
    | none, none, .ok msg =>
      let d := msg.decision (validateResponse T x.checks msg)
      { resolver := update o.resolver (hostKey T hostname port) d
        validator := update o.validator key d }
  | _ => o

/-- The states of runs whose answers satisfy `A`, from empty caches. -/
inductive Reachable (T : Tables) (A : Exchange → Prop) : State → Origin → Prop
  | start : Reachable T A {} {}
  | step {s o} (e : Event) : Reachable T A s o → e.Within A →
      Reachable T A (s.after T e) (o.after T s e)

/-- The decision behind the cached answer that a lookup is served from. -/
def Origin.expected (T : Tables) (o : Origin) (s : State) (now : Time) (hostname : String)
    (port : ℤ) : Option Decision :=
  match s.validator.find now (validatorKey hostname port) with
  | some _ => some (o.validator (validatorKey hostname port))
  | none => (s.resolver.find now (hostKey T hostname port)).map fun _ =>
    o.resolver (hostKey T hostname port)

/-- Every lookup served from a cache takes the decision of the answer it is
served, and where that is to fail, no connection is made. -/
def Consistent (T : Tables) (s : State) (o : Origin) : Prop :=
  ∀ now hostname port d, o.expected T s now hostname port = some d →
    (∀ x, s.decision T x now hostname port = d) ∧
    (d = .failClosed → port = 25 → ∀ C cfg dial, cfg.daneEnabled = true → dial.checked = now →
      ∃ err, (s.dialSMTP T C cfg dial hostname).1 = .error err)

/-! ### One lookup -/

section Lookup

variable {s : State} {x : Exchange} {now : Time} {hostname : String} {port : ℤ}
  {result : TLSALookupResult} {msg : Msg} {validated : Bool}

theorem lookupTLSA_of_validator
    (h : s.validator.find now (validatorKey hostname port) = some result) :
    s.lookupTLSA T x now hostname port =
      ((result, none),
        { s with validator := s.validator.afterGet now (validatorKey hostname port) }) := by
  unfold State.lookupTLSA
  simp only [h]

/-- The caches after a lookup that the validator's cache did not serve. -/
def State.stored (s : State) (resolver : ResolverCache) (x : Exchange) (now : Time) (key : String)
    (r : TLSALookupResult × Option String) : State :=
  let validator := s.validator.afterGet now key
  ⟨resolver,
    match r.2 with
    | some _ => validator
    | none => validator.set key r.1 (x.answeredAt + r.1.lifetime)⟩

theorem lookupTLSA_of_miss (h : s.validator.find now (validatorKey hostname port) = none) :
    s.lookupTLSA T x now hostname port =
      ((lookupTLSA T x now s.resolver hostname port).1,
        s.stored (lookupTLSA T x now s.resolver hostname port).2 x now
          (validatorKey hostname port) (lookupTLSA T x now s.resolver hostname port).1) := by
  unfold State.lookupTLSA State.stored
  simp only [h]
  rcases lookupTLSA T x now s.resolver hostname port with ⟨⟨result, - | err⟩, resolver⟩ <;> rfl

theorem lookup_of_hit (h : s.resolver.find now (hostKey T hostname port) = some (msg, validated)) :
    lookupTLSA T x now s.resolver hostname port =
      (tlsaResult T hostname port msg { authentic := validated },
        s.resolver.afterGet now (hostKey T hostname port)) := by
  unfold lookupTLSA query
  simp only [hostKey] at h
  simp only [h]
  rfl

theorem lookup_of_error {err : String}
    (h : s.resolver.find now (hostKey T hostname port) = none) (hx : x.response = .error err) :
    lookupTLSA T x now s.resolver hostname port =
      (({ errorReason := "DNS query failed: " ++ err }, some err),
        s.resolver.afterGet now (hostKey T hostname port)) := by
  unfold lookupTLSA query
  simp only [hostKey] at h
  simp only [h, hx]
  rfl

theorem lookup_of_answer (h : s.resolver.find now (hostKey T hostname port) = none)
    (hx : x.response = .ok msg) :
    lookupTLSA T x now s.resolver hostname port =
      (tlsaResult T hostname port msg (validateResponse T x.checks msg),
        (s.resolver.afterGet now (hostKey T hostname port)).set (hostKey T hostname port)
          (msg, (validateResponse T x.checks msg).authentic) (x.answeredAt + msg.lifetime)) := by
  unfold lookupTLSA query
  simp only [hostKey] at h
  simp only [h, hx]
  rfl

/-- A new answer brings its decision to both keys. -/
theorem origin_of_answer {o : Origin}
    (hv : s.validator.find now (validatorKey hostname port) = none)
    (hr : s.resolver.find now (hostKey T hostname port) = none) (hx : x.response = .ok msg) :
    o.after T s (.lookup x now hostname port) =
      { resolver := update o.resolver (hostKey T hostname port)
          (msg.decision (validateResponse T x.checks msg))
        validator := update o.validator (validatorKey hostname port)
          (msg.decision (validateResponse T x.checks msg)) } := by
  simp only [Origin.after, hv, hr, hx]

theorem decision_of_validator
    (h : s.validator.find now (validatorKey hostname port) = some result) :
    s.decision T x now hostname port = requirement (result, none) := by
  rw [State.decision, lookupTLSA_of_validator h]

theorem decision_of_resolver (hmiss : s.validator.find now (validatorKey hostname port) = none)
    (h : s.resolver.find now (hostKey T hostname port) = some (msg, validated)) :
    s.decision T x now hostname port = msg.decision { authentic := validated } := by
  rw [State.decision, lookupTLSA_of_miss hmiss, lookup_of_hit h, requirement_tlsaResult]

/-- A lookup that fails closed ends the connection. -/
theorem dialSMTP_of_failClosed {C : Crypto} {cfg : Settings} {dial : Dial}
    (hcfg : cfg.daneEnabled = true)
    (h : s.decision T dial.lookup dial.checked hostname 25 = .failClosed) :
    ∃ err, (s.dialSMTP T C cfg dial hostname).1 = .error err := by
  unfold State.dialSMTP
  split
  · exact ⟨_, rfl⟩
  · split
    · exact ⟨_, rfl⟩
    · split
      · exact ⟨_, rfl⟩
      · have hcheck : ∃ err, (s.checkDANE T cfg dial hostname).1 = .error err := by
          unfold State.decision requirement at h
          unfold State.checkDANE
          rw [if_pos hcfg]
          rcases hreq : daneTLSRequirement
              (s.lookupTLSA T dial.lookup dial.checked hostname 25).1.1
              (s.lookupTLSA T dial.lookup dial.checked hostname 25).1.2 with err | mandatory
          · simp [hreq]
          · rw [hreq] at h
            cases mandatory <;> cases h
        obtain ⟨err, herr⟩ := hcheck
        rcases hdane : s.checkDANE T cfg dial hostname with ⟨err' | mandatory, s'⟩
        · exact ⟨_, rfl⟩
        · rw [hdane] at herr
          cases herr

end Lookup

/-! ### The invariant -/

/-- Each cached entry gives the decision recorded for it. -/
structure Kept (s : State) (o : Origin) : Prop where
  resolver : s.resolver.All fun key v => v.1.decision { authentic := v.2 } = o.resolver key
  validator : s.validator.All fun key r => requirement (r, none) = o.validator key

section Invariant

variable {s : State} {o : Origin}

theorem Kept.start : Kept {} {} := ⟨Cache.all_empty, Cache.all_empty⟩

/-- Storing the result of a lookup, with the decision it comes to. -/
theorem Kept.stored (h : Kept s o) {resolver : ResolverCache} {x : Exchange} {now : Time}
    {key : String} {r : TLSALookupResult × Option String} {d : Decision}
    (hmiss : s.validator.find now key = none) (hd : requirement r = d) :
    (s.stored resolver x now key r).validator.All fun k v =>
      requirement (v, none) = update o.validator key d k := by
  have hothers : ∀ k (v : TLSALookupResult), k ≠ key → requirement (v, none) = o.validator k →
      requirement (v, none) = update o.validator key d k := by
    intro k v hk hv
    rw [update_of_ne hk, hv]
  obtain ⟨result, - | err⟩ := r
  · exact h.validator.afterGet.set (by rw [update_self, hd]) hothers
  · exact h.validator.afterGet_of_miss hmiss hothers

theorem Kept.step (h : Kept s o) (e : Event) (he : e.Within Exchange.Sound) :
    Kept (s.after T e) (o.after T s e) := by
  cases e with
  | cleanResolver now => exact ⟨h.resolver.cleanup, h.validator⟩
  | cleanValidator now => exact ⟨h.resolver, h.validator.cleanup⟩
  | lookup x now hostname port =>
    show Kept (s.lookupTLSA T x now hostname port).2 _
    rcases hv : s.validator.find now (validatorKey hostname port) with - | result
    · rw [lookupTLSA_of_miss hv]
      rcases hr : s.resolver.find now (hostKey T hostname port) with - | ⟨msg, validated⟩
      · rcases hx : x.response with err | msg
        · -- nothing was answered and nothing is stored
          rw [lookup_of_error hr hx]
          simp only [Origin.after, hv, hr, hx]
          exact ⟨h.resolver.afterGet, h.validator.afterGet⟩
        · rw [lookup_of_answer hr hx, origin_of_answer hv hr hx]
          have hkept := (decision_cached_iff (T := T) x msg).mpr (he msg hx)
          refine ⟨h.resolver.afterGet.set ?_ fun k v hk hold => ?_, ?_⟩
          · dsimp only
            rw [update_self]
            exact hkept
          · dsimp only
            rw [update_of_ne hk, hold]
          · exact h.stored hv (requirement_tlsaResult ..)
      · rw [lookup_of_hit hr]
        simp only [Origin.after, hv, hr]
        refine ⟨h.resolver.afterGet, h.stored hv ?_⟩
        exact (requirement_tlsaResult ..).trans (h.resolver.find hr)
    · rw [lookupTLSA_of_validator hv]
      simp only [Origin.after, hv]
      exact ⟨h.resolver, h.validator.afterGet⟩

theorem Reachable.kept (h : Reachable T Exchange.Sound s o) : Kept s o := by
  induction h with
  | start => exact Kept.start
  | step e _ he ih => exact ih.step e he

theorem Kept.consistent (h : Kept s o) : Consistent T s o := by
  intro now hostname port d hd
  have hsame : ∀ x, s.decision T x now hostname port = d := by
    intro x
    unfold Origin.expected at hd
    rcases hv : s.validator.find now (validatorKey hostname port) with - | result
    · rw [hv] at hd
      obtain ⟨⟨msg, validated⟩, hr, rfl⟩ := Option.map_eq_some_iff.mp hd
      rw [decision_of_resolver hv hr]
      exact h.resolver.find hr
    · rw [hv] at hd
      cases hd
      rw [decision_of_validator hv]
      exact h.validator.find hv
  refine ⟨hsame, ?_⟩
  rintro rfl rfl C cfg dial hcfg rfl
  exact dialSMTP_of_failClosed hcfg (hsame dial.lookup)

theorem Reachable.mono {A B : Exchange → Prop} (hAB : ∀ x, A x → B x)
    (h : Reachable T A s o) : Reachable T B s o := by
  induction h with
  | start => exact .start
  | step e _ he ih =>
    refine .step e ih ?_
    cases e with
    | lookup x now hostname port => exact hAB x he
    | cleanResolver now => trivial
    | cleanValidator now => trivial

end Invariant

/-- A forged answer that is asked for twice: the second lookup is served from
the resolver's cache, and must not differ. -/
theorem sound_of_consistent {x : Exchange}
    (h : Consistent T (State.after T {} (.lookup x x.answeredAt "" 25))
      (Origin.after T {} {} (.lookup x x.answeredAt "" 25))) : x.Sound := by
  intro msg hx hforged
  obtain ⟨-, hbogus, -⟩ | ⟨hnot, -⟩ := validateResponse_cases (T := T) x msg
  · set s := State.after T {} (.lookup x x.answeredAt "" 25) with hs
    set o := Origin.after T {} {} (.lookup x x.answeredAt "" 25) with ho
    have hafter : s = .stored {}
        ((Cache.empty.afterGet x.answeredAt (hostKey T "" 25)).set (hostKey T "" 25)
          (msg, (validateResponse T x.checks msg).authentic) (x.answeredAt + msg.lifetime))
        x x.answeredAt (validatorKey "" 25)
        (tlsaResult T "" 25 msg (validateResponse T x.checks msg)) := by
      rw [hs, State.after, lookupTLSA_of_miss rfl, lookup_of_answer rfl hx]
    have hbad : (tlsaResult T "" 25 msg (validateResponse T x.checks msg)).2 =
        some ("DNSSEC validation failed: " ++ (validateResponse T x.checks msg).errorReason) := by
      rw [tlsaResult, if_pos hbogus]
    have hmiss : s.validator.find x.answeredAt (validatorKey "" 25) = none := by
      rw [hafter, State.stored, hbad]
      rfl
    have hlife : 0 ≤ msg.lifetime := by
      unfold Msg.lifetime second
      split <;> positivity
    have hhit : s.resolver.find x.answeredAt (hostKey T "" 25) =
        some (msg, (validateResponse T x.checks msg).authentic) := by
      rw [hafter]
      exact Cache.find_set_self (le_add_of_nonneg_right hlife)
    have hexpected : o.expected T s x.answeredAt "" 25 =
        some (msg.decision (validateResponse T x.checks msg)) := by
      have hdecision : o.resolver (hostKey T "" 25) =
          msg.decision (validateResponse T x.checks msg) := by
        rw [ho, origin_of_answer rfl rfl hx]
        exact update_self ..
      rw [Origin.expected, hmiss, hhit, ← hdecision]
      rfl
    have hsame := (h _ _ _ _ hexpected).1 x
    rw [decision_of_resolver hmiss hhit] at hsame
    exact (decision_cached_iff x msg).mp hsame hforged
  · exact absurd hforged hnot

/-- **A cached answer leads to the decision its validation led to, in every run
of answers from `A`, exactly if no answer in `A` is forged and of a response
code the lookup goes on with.** -/
theorem cached_decision_iff (T : Tables) (A : Exchange → Prop) :
    (∀ s o, Reachable T A s o → Consistent T s o) ↔ ∀ x, A x → x.Sound := by
  constructor
  · intro h x hx
    exact sound_of_consistent (h _ _ (.step (.lookup x x.answeredAt "" 25) .start hx))
  · intro h s o hreach
    exact (hreach.mono h).kept.consistent

/-- A signed TLSA answer whose signature nobody can verify. -/
def forgedAnswer : Exchange where
  udp := .ok
    { answer :=
        [{ ttl := 3600, data := .tlsa 3 0 0 "00ff" },
          { ttl := 3600, data := .rrsig { typeCovered := 52 } }] }
  tcp := .error "connection refused"
  answeredAt := 0
  checks := fun _ _ => false

/-- An hour's worth of the same answer: the first connection fails closed, and
one a minute later is made in the clear. -/
theorem forged_answer_forgotten :
    let connect : Dial :=
      { starttlsOffered := false
        checked := 60 * second
        lookup := forgedAnswer
        verified := 60 * second
        relookup := forgedAnswer }
    let first := State.dialSMTP plainTables bareCrypto {} {} { connect with checked := 0 } "mx.example"
    State.decision plainTables {} forgedAnswer 0 "mx.example" 25 = .failClosed ∧
      (∃ err, first.1 = .error err) ∧
      first.2.decision plainTables forgedAnswer (60 * second) "mx.example" 25 = .opportunistic ∧
      (first.2.dialSMTP plainTables bareCrypto {} connect "mx.example").1 = .ok .clear :=
  ⟨rfl, ⟨_, rfl⟩, rfl, rfl⟩

end Dane

end EmailService
