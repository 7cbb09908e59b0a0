/-
EmailService/DmarcEnforcement.lean

Who gets past DMARC.

The DMARC block of `Data` holds a message to the policy of one domain, that of
the address in the first From field, if there is exactly one.  A message with a
list there, or with no address that can be read, is not held to any policy, and
the domains of further From fields are not looked at.  A policy that only the
organizational domain publishes is not found either.  `dmarc_enforced_iff` says
for which messages, under the records the DNS publishes, that makes no
difference.
-/
import EmailService.SenderIdentity

namespace EmailService.DataPhase

open GoStrings NetMail HeaderFields Dmarc

variable (U : CaseTables) (raw : List UInt8)

/-- The domains that appear in From fields of a message. -/
def authorDomains : List String :=
  ((fromFields raw).flatMap addresses).map (HeaderFields.addressDomain U)

/-- Some From field names a domain. -/
def Determined : Prop := ∃ d ∈ authorDomains U raw, d ≠ ""

/-- DMARC is enabled, in enforce mode. -/
structure Site.Enforces (S : Site) : Prop where
  policyEngine : S.services.policyEngine = true
  enabled : S.config.dmarcEnabled = true
  mode : equalFold S.names.U S.config.dmarcMode "enforce" = true

/-- The signatures of a message. -/
def Site.signatures (S : Site) (s : Session) : List DKIMVerification := (S.dkimCheck s {}).1

/-- What authenticates the message of a session. -/
def Site.evidenceFor (S : Site) (s : Session) (m : Msg) : Evidence :=
  S.evidence s m (S.signatures s)

/-- The message may pass: its author can be told, and it is authenticated for
each of its domains that asks for it. -/
structure Clean (N : Names) (zone : Dmarc.Zone) (e : Evidence) (raw : List UInt8) : Prop where
  determined : Determined N.U raw
  authenticated : ∀ d ∈ authorDomains N.U raw, ∀ a, published N zone d = some a → a.Demanding →
    ¬ Unauthenticated N d a e

/-- The policy the code finds for a message is enforced, and whatever is not
authenticated for the domain `d` is not authenticated under that policy. -/
def Covered (N : Names) (zone : Dmarc.Zone) (raw : List UInt8) (d : String) (a : Applied) : Prop :=
  headerFromDomain N.U raw ≠ "" ∧ ∃ a', found N zone (headerFromDomain N.U raw) = some a' ∧
    a'.policy ≠ .none ∧ Site.dmarcPolicyApplies raw a'.pct = true ∧
    ∀ e, Unauthenticated N d a e → Unauthenticated N (headerFromDomain N.U raw) a' e

/-! ### What the block lets pass -/

section Block

variable {S : Site} {s : Session} {m m' : Msg} {b : List UInt8}

theorem dkimCheck_signatures (m : Msg) : (S.dkimCheck s m).1 = S.signatures s := by
  unfold Site.signatures Site.dkimCheck
  split
  · rfl
  · split <;> rfl

variable {dkim : List DKIMVerification}

/-- A message that leaves the block without quarantine is not one that an
enforced policy refuses. -/
theorem dmarcCheck_unquarantined (hS : S.Enforces) (hauth : s.authenticated = false)
    (h : S.dmarcCheck s m b dkim = .ok m') (hq : m'.quarantine = false)
    (hdomain : headerFromDomain S.names.U b ≠ "") {a : Applied}
    (hfound : found S.names S.services.zone (headerFromDomain S.names.U b) = some a)
    (hpolicy : a.policy ≠ .none) (happlies : Site.dmarcPolicyApplies b a.pct = true) :
    ¬ Unauthenticated S.names (headerFromDomain S.names.U b) a (S.evidence s m dkim) := by
  rintro ⟨hspf, hdkim⟩
  unfold Site.dmarcCheck at h
  rw [if_neg (by simp [hauth, hS.policyEngine, hS.enabled])] at h
  dsimp only at h
  rw [if_neg hdomain, evaluate_of_found _ hfound, hspf, hdkim] at h
  split at h
  · cases h
  · dsimp only at h
    rw [if_pos ⟨rfl, happlies, hS.mode⟩] at h
    split at h
    · cases h
    · cases h
      cases hq
    · next hnone => exact hpolicy hnone

/-- A message that no enforced policy refuses leaves the block as it came. -/
theorem dmarcCheck_passes (hreport : S.services.reportErr = none)
    (hpass : headerFromDomain S.names.U b ≠ "" → ∀ a,
      found S.names S.services.zone (headerFromDomain S.names.U b) = some a → a.policy ≠ .none →
      Site.dmarcPolicyApplies b a.pct = true → ¬ Unauthenticated S.names
      (headerFromDomain S.names.U b) a (S.evidence s m dkim)) :
    ∃ m', S.dmarcCheck s m b dkim = .ok m' ∧ m'.quarantine = m.quarantine := by
  unfold Site.dmarcCheck
  split
  · exact ⟨m, rfl, rfl⟩
  · dsimp only
    split
    · exact ⟨m, rfl, rfl⟩
    · next hdomain =>
      rw [hreport]
      dsimp only
      rcases hfound : found S.names S.services.zone (headerFromDomain S.names.U b) with - | a
      · rw [evaluate_of_not_found _ hfound, if_neg (by simp)]
        exact ⟨_, rfl, rfl⟩
      · rw [evaluate_of_found _ hfound]
        by_cases hauth : (spfPass S.names (headerFromDomain S.names.U b) a (S.evidence s m dkim) ||
          dkimPass S.names (headerFromDomain S.names.U b) a (S.evidence s m dkim)) = true
        · rw [if_pos hauth, if_neg (by simp)]
          exact ⟨_, rfl, rfl⟩
        · -- not authenticated, so the policy is not one that is enforced
          rw [if_neg hauth]
          rw [Bool.or_eq_true, not_or, Bool.not_eq_true, Bool.not_eq_true] at hauth
          split
          · next henforced =>
            dsimp only at henforced ⊢
            have hnone : a.policy = .none := by
              by_contra hpolicy
              exact hpass hdomain a hfound hpolicy henforced.2.1 hauth
            rw [hnone]
            exact ⟨_, rfl, rfl⟩
          · exact ⟨_, rfl, rfl⟩

/-- The end of `Data` where the scanners find nothing. -/
theorem finish_scanned (hauth : s.authenticated = false)
    (hscan : S.services.scan = fun m => .ok (m.data, none))
    (henqueue : S.services.enqueueErr = none) :
    S.finish s m =
      .ok { m with data := S.prependAuthResults m, quarantine := m.quarantine || false } := by
  unfold Site.finish
  simp only [hauth, hscan, henqueue, Bool.false_eq_true, if_false, Option.isSome_none,
    Option.getD_none]

end Block

/-! ### A stranger with any evidence -/

section Stranger

variable (N : Names) (zone : Dmarc.Zone) (e : Evidence) (b : List UInt8)

/-- A server that enforces DMARC and has no other optional service but the
verifier that finds these signatures. -/
def strangerSite : Site where
  names := N
  config :=
    { maxHops := (values (fields b) (utf8 "Received")).length + 1
      dmarcEnabled := true
      dmarcMode := "enforce" }
  validator := ⟨fun _ => none, fun _ => none, none⟩
  services := { zone, dkimVerifier := some (.ok e.dkim) }

/-- A bounce, for which SPF looks at the name of HELO. -/
def strangerSession : Session := { ehlo := e.spfDomain, msg := { spfResult := e.spfResult } }

variable {N zone e b}

theorem strangerSite_enforces (hfold : ∀ c, N.U.sameFold c c = true) :
    (strangerSite N zone e b).Enforces where
  policyEngine := rfl
  enabled := rfl
  mode := by
    show equalFold N.U "enforce" "enforce" = true
    simp [equalFold, hfold]

theorem strangerSite_signatures :
    (strangerSite N zone e b).signatures (strangerSession e) = e.dkim := by
  obtain ⟨_, _, dkim⟩ := e
  rcases dkim with - | ⟨v, vs⟩ <;> rfl

theorem strangerSite_evidence {m : Msg} (hfrom : m.fromAddr = "")
    (hspf : m.spfResult = e.spfResult) :
    (strangerSite N zone e b).evidenceFor (strangerSession e) m = e := by
  have hdomain : (strangerSite N zone e b).spfDomain (strangerSession e) m = e.spfDomain := by
    have hnone : HeaderFields.addressDomain N.U "" = "" := rfl
    unfold Site.spfDomain
    rw [hfrom]
    exact if_pos hnone
  unfold Site.evidenceFor Site.evidence
  rw [hdomain, hspf, strangerSite_signatures]

/-- A readable message that no enforced policy refuses is accepted. -/
theorem strangerSite_accepts (hreadable : NetMail.Readable b)
    (hpass : headerFromDomain N.U b ≠ "" → ∀ a, found N zone (headerFromDomain N.U b) = some a →
      a.policy ≠ .none → Site.dmarcPolicyApplies b a.pct = true →
      ¬ Unauthenticated N (headerFromDomain N.U b) a e) :
    ∃ m, (strangerSite N zone e b).data (strangerSession e) b = .ok (some m) ∧
      m.quarantine = false ∧ (strangerSite N zone e b).evidenceFor (strangerSession e) m = e := by
  let S := strangerSite N zone e b
  let s := strangerSession e
  have hlayer : S.layerChecks s { s.msg with data := b } = .ok
      { s.msg with data := S.received s { s.msg with data := b } ++
          S.stripped { s.msg with data := b } } := by
    unfold Site.layerChecks
    rw [if_neg (not_not.mpr hreadable), if_neg (by simp [s, strangerSession]),
      if_neg (hops_allowed rfl)]
    rfl
  obtain ⟨m₁, hm₁, hfrom, hspf, hq⟩ : ∃ m₁, S.layerChecks s { s.msg with data := b } = .ok m₁ ∧
      m₁.fromAddr = "" ∧ m₁.spfResult = e.spfResult ∧ m₁.quarantine = false :=
    ⟨_, hlayer, rfl, rfl, rfl⟩
  let m₂ : Msg := (S.dkimCheck s { m₁ with admissionKey := "ip:" ++ m₁.clientIP }).2
  obtain ⟨hkeeps, -, hquarantine⟩ := Site.dkimCheck_keeps (S := S) s
    { m₁ with admissionKey := "ip:" ++ m₁.clientIP }
  have hevidence : S.evidenceFor s m₂ = e :=
    strangerSite_evidence (hkeeps.fromAddr.trans hfrom) (hkeeps.spfResult.trans hspf)
  obtain ⟨m₃, hm₃, hq₃⟩ := dmarcCheck_passes (S := S) (s := s) (m := m₂) (b := b) rfl
    fun hdomain a hfound hpolicy happlies => by
      rw [show S.evidence s m₂ (S.signatures s) = e from hevidence]
      exact hpass hdomain a hfound hpolicy happlies
  obtain ⟨hkeeps₃, -⟩ := Site.dmarcCheck_keeps hm₃
  refine ⟨{ m₃ with data := S.prependAuthResults m₃, quarantine := m₃.quarantine || false },
    Site.data_of_passed rfl rfl
      { layered := m₁
        admitted := { m₁ with admissionKey := "ip:" ++ m₁.clientIP }
        judged := m₃
        plugged := m₃
        ruled := m₃
        layer := hm₁
        admits := rfl
        judge := by rw [dkimCheck_signatures]; exact hm₃
        plug := rfl
        rule := rfl
        end_ := finish_scanned rfl rfl rfl }, ?_, ?_⟩
  · rw [Bool.or_false, hq₃]
    exact hquarantine.trans hq
  · refine strangerSite_evidence ?_ ?_
    · exact hkeeps₃.fromAddr.trans (hkeeps.fromAddr.trans hfrom)
    · exact hkeeps₃.spfResult.trans (hkeeps.spfResult.trans hspf)

end Stranger

/-! ### When DMARC is enforced -/

variable {U : CaseTables} {raw b : List UInt8}

/-- The domain the code evaluates is that of the only address of the field. -/
theorem headerFromDomain_eq (h : headerFromDomain U raw ≠ "") :
    ∃ a, parseAddressList (text (NetMail.get (fields raw) fromKey)) = some [a] ∧
      headerFromDomain U raw = HeaderFields.addressDomain U a.address := by
  have hget := get_ne_nil_of_headerFromDomain h
  unfold headerFromDomain readMessage at h ⊢
  by_cases hread : NetMail.Readable raw
  · simp only [if_pos hread, if_neg hget] at h ⊢
    generalize parseAddressList (text (NetMail.get (fields raw) fromKey)) = list at h ⊢
    rcases list with - | - | ⟨a, - | ⟨a', as⟩⟩
    · exact absurd rfl h
    · exact absurd rfl h
    · exact ⟨a, rfl, rfl⟩
    · exact absurd rfl h
  · rw [if_neg hread] at h
    exact absurd rfl h

theorem headerFromDomain_mem (h : headerFromDomain U raw ≠ "") :
    headerFromDomain U raw ∈ authorDomains U raw := by
  obtain ⟨first, hvalue, hfields⟩ := exists_first (get_ne_nil_of_headerFromDomain h)
  obtain ⟨a, hlist, hdomain⟩ := headerFromDomain_eq h
  have haddr : a.address ∈ addresses first := by
    rw [addresses, hvalue, hlist]
    exact List.mem_singleton_self _
  rw [hdomain]
  exact List.mem_map_of_mem
    (List.mem_flatMap.mpr ⟨first, (hfields first).mpr (.inl rfl), haddr⟩)

theorem evidenceFor_of_passed {S : Site} {s : Session} {m : Msg} (p : Site.Passed S s b m) :
    S.evidence s (S.dkimCheck s p.admitted).2 (S.dkimCheck s p.admitted).1 = S.evidenceFor s m := by
  have hkeeps := (Site.dmarcCheck_keeps p.judge).1.trans ((Site.pluginCheck_keeps p.plug).1.trans
    ((Site.policyCheck_keeps p.rule).1.trans (Site.finish_keeps p.end_).1))
  unfold Site.evidenceFor Site.evidence Site.spfDomain
  rw [hkeeps.fromAddr, hkeeps.spfResult, dkimCheck_signatures]

/-- **With DMARC in enforce mode and the DNS answering, the messages that a
stranger gets accepted without quarantine are authenticated for every domain in
their From fields that asks for it, and show such a domain, exactly if the
policy the code finds for the first of them covers the others.** -/
theorem dmarc_enforced_iff (N : Names) (zone : Dmarc.Zone) (b : List UInt8)
    (hfold : ∀ c, N.U.sameFold c c = true) :
    (∀ (S : Site) (s : Session) (m : Msg), S.names = N → S.services.zone = zone → S.Enforces →
      s.authenticated = false → S.data s b = .ok (some m) → m.quarantine = false →
      Clean N zone (S.evidenceFor s m) b) ↔
    (NetMail.Readable b → Determined N.U b ∧ ∀ d ∈ authorDomains N.U b, ∀ a,
      published N zone d = some a → a.Demanding → Covered N zone b d a) := by
  constructor
  · intro h hreadable
    have haccept : ∀ e, (headerFromDomain N.U b ≠ "" → ∀ a,
        found N zone (headerFromDomain N.U b) = some a → a.policy ≠ .none →
        Site.dmarcPolicyApplies b a.pct = true →
        ¬ Unauthenticated N (headerFromDomain N.U b) a e) → Clean N zone e b := by
      intro e hpass
      obtain ⟨m, hm, hq, hevidence⟩ := strangerSite_accepts hreadable hpass
      have hclean := h _ _ m rfl rfl (strangerSite_enforces hfold) rfl hm hq
      rwa [hevidence] at hclean
    have hsilent : ∀ {d a}, d ∈ authorDomains N.U b → published N zone d = some a → a.Demanding →
        headerFromDomain N.U b ≠ "" ∧ ∃ a', found N zone (headerFromDomain N.U b) = some a' ∧
          a'.policy ≠ .none ∧ Site.dmarcPolicyApplies b a'.pct = true := by
      -- a message with nothing to authenticate it is stopped by a policy that is enforced
      intro d a hd hpublished hdemanding
      by_contra hnot
      refine (haccept ⟨"", "none", []⟩ fun hdomain a' hfound hpolicy happlies => ?_).authenticated
        d hd a hpublished hdemanding (unauthenticated_nothing N d a "")
      exact absurd ⟨hdomain, a', hfound, hpolicy, happlies⟩ hnot
    refine ⟨?_, fun d hd a hpublished hdemanding => ?_⟩
    · by_cases hdomain : headerFromDomain N.U b = ""
      · exact (haccept ⟨"", "none", []⟩ fun hne => absurd hdomain hne).determined
      · exact ⟨_, headerFromDomain_mem hdomain, hdomain⟩
    · obtain ⟨hdomain, a', hfound, hpolicy, happlies⟩ := hsilent hd hpublished hdemanding
      refine ⟨hdomain, a', hfound, hpolicy, happlies, fun e hun => ?_⟩
      by_contra hauth
      refine (haccept e fun _ a'' hfound' _ _ => ?_).authenticated d hd a hpublished hdemanding hun
      rw [hfound] at hfound'
      cases hfound'
      exact hauth
  · rintro h S s m rfl rfl hS hauth hm hq
    obtain ⟨p⟩ := Site.passed_of_data hm
    have hreadable : NetMail.Readable b := by
      obtain ⟨hreadable, -⟩ := Site.layerChecks_ok p.layer
      exact readable_of_filterMarker hreadable
    obtain ⟨hdetermined, hcovered⟩ := h hreadable
    refine ⟨hdetermined, fun d hd a hpublished hdemanding hun => ?_⟩
    obtain ⟨hdomain, a', hfound, hpolicy, happlies, himp⟩ := hcovered d hd a hpublished hdemanding
    have hjudged : p.judged.quarantine = false := by
      have hkeeps := (Site.pluginCheck_keeps p.plug).1.trans
        ((Site.policyCheck_keeps p.rule).1.trans (Site.finish_keeps p.end_).1)
      by_contra hset
      rw [hkeeps.quarantine (by simpa using hset)] at hq
      cases hq
    refine dmarcCheck_unquarantined hS hauth p.judge hjudged hdomain hfound hpolicy happlies ?_
    rw [evidenceFor_of_passed]
    exact himp _ hun

/-! ### A domain that asks for rejection -/

def exampleNames : Names where
  U := asciiTables
  etldPlusOne d := if hasSuffix d "b.example" then some "b.example" else none

/-- One domain asks for rejection. -/
def rejectZone : Dmarc.Zone := fun name =>
  if name = "_dmarc.b.example" then ["v=DMARC1; p=reject"] else []

/-- Nothing authenticates the message. -/
def nothing : Evidence := ⟨"", "none", []⟩

/-- The policy of the zone. -/
def rejectAll : Applied := { policy := .reject, pct := 100, adkim := false, aspf := false }

def oneAuthor : List UInt8 := utf8 "From: boss@b.example\r\n\r\nhi\r\n"

/-- A message with the domain in its only From field passes if it is
authenticated for it. -/
theorem one_author_held :
    headerFromDomain exampleNames.U oneAuthor = "b.example" ∧
      ∀ (S : Site) (s : Session) (m : Msg), S.names = exampleNames →
        S.services.zone = rejectZone → S.Enforces → s.authenticated = false →
        S.data s oneAuthor = .ok (some m) → m.quarantine = false →
        Clean exampleNames rejectZone (S.evidenceFor s m) oneAuthor := by
  have hdomain : headerFromDomain exampleNames.U oneAuthor = "b.example" := by decide +kernel
  have hauthors : authorDomains exampleNames.U oneAuthor = ["b.example"] := by decide +kernel
  have hfound : found exampleNames rejectZone "b.example" = some rejectAll := by decide +kernel
  have hpublished : published exampleNames rejectZone "b.example" = some rejectAll := by
    decide +kernel
  refine ⟨hdomain,
    (dmarc_enforced_iff exampleNames rejectZone oneAuthor fun c => ?_).mpr fun _ => ⟨?_, ?_⟩⟩
  · exact beq_self_eq_true _
  · exact ⟨"b.example", by rw [hauthors]; exact List.mem_singleton_self _, by decide⟩
  · intro d hd a ha _
    rw [hauthors, List.mem_singleton] at hd
    subst hd
    rw [hpublished] at ha
    cases ha
    rw [Covered, hdomain]
    exact ⟨by decide, rejectAll, hfound, by decide, by decide +kernel, fun _ h => h⟩

def subdomainAuthor : List UInt8 := utf8 "From: boss@mail.b.example\r\n\r\nhi\r\n"

/-- A stranger gets the message accepted without quarantine, and it is not held
to a policy it should be held to. -/
def Unheld (b : List UInt8) : Prop :=
  ∃ m, (strangerSite exampleNames rejectZone nothing b).data (strangerSession nothing) b =
      .ok (some m) ∧ m.quarantine = false ∧
    ¬ Clean exampleNames rejectZone
      ((strangerSite exampleNames rejectZone nothing b).evidenceFor (strangerSession nothing) m) b

theorem unheld_of {h d : String} (hreadable : NetMail.Readable b)
    (hdomain : headerFromDomain exampleNames.U b = h)
    (hfound : found exampleNames rejectZone h = none) (hd : d ∈ authorDomains exampleNames.U b)
    (hpublished : published exampleNames rejectZone d = some rejectAll) : Unheld b := by
  obtain ⟨m, hm, hq, hevidence⟩ := strangerSite_accepts (N := exampleNames)
    (e := nothing) hreadable fun _ a ha => by
      rw [hdomain, hfound] at ha
      cases ha
  refine ⟨m, hm, hq, fun hclean => ?_⟩
  rw [hevidence] at hclean
  exact hclean.authenticated d hd rejectAll hpublished ⟨by decide, rfl⟩
    (unauthenticated_nothing _ _ _ _)

/-- A domain in a second From field, and one that leaves its policy to its
organizational domain, are not held to the policy. -/
theorem rejection_sidestepped : Unheld twoAuthors ∧ Unheld subdomainAuthor := by
  constructor
  · exact unheld_of (h := "a.example") (d := "b.example") (by decide +kernel) (by decide +kernel)
      (by decide +kernel) (by decide +kernel) (by decide +kernel)
  · exact unheld_of (h := "mail.b.example") (d := "mail.b.example") (by decide +kernel)
      (by decide +kernel) (by decide +kernel) (by decide +kernel) (by decide +kernel)

end EmailService.DataPhase
