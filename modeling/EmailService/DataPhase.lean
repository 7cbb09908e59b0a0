/-
EmailService/DataPhase.lean

The DATA command (internal/smtpd/server.go and layered.go).

`data` takes the bytes a client sends through the checks in their order, to an
SMTP error or to a message for the queue.  The services it asks on the way
(quotas, reputation, scanners, plugins, policy scripts) are fields of
`Services`: each is what the service answers.

Two of the checks are about the author of a message.  `layerChecks` compares
the From field of a message with the rights of the user who submits it
(`accepted_from`), and the DMARC block holds the message of a stranger to the
policy of the author's domain (`accepted_dmarc`).
-/
import EmailService.ByteReaders
import EmailService.Dmarc
import EmailService.Entitlements
import EmailService.HeaderFields
import EmailService.Sha256

namespace EmailService.DataPhase

open GoStrings NetMail HeaderFields Dmarc

structure SMTPError where
  code : ℕ
  message : String
  deriving DecidableEq

/-- What `Data` reads of the configuration. -/
structure Config where
  domain : String := ""
  maxHops : ℤ := 0
  contentFilter : Bool := false
  quarantineHeader : String := ""
  quarantineFolder : String := ""
  spfEnabled : Bool := false
  spfMode : String := ""
  rejectOnSoftfail : Bool := false
  dmarcEnabled : Bool := false
  dmarcMode : String := ""
  dmarcFolder : String := ""
  reputation : Bool := false
  reputationRequired : Bool := false
  reputationRejectBelow : ℤ := 0
  policyRequired : Bool := false

/-- The message of a session. -/
structure Msg where
  fromAddr : String := ""
  toAddrs : List String := []
  data : List UInt8 := []
  clientIP : String := ""
  spfResult : String := ""
  dkimResult : String := ""
  dmarcResult : String := ""
  quarantine : Bool := false
  quarantineFolder : String := ""
  deliveryFolder : String := ""
  admissionKey : String := ""

structure Session where
  authenticated : Bool := false
  username : String := ""
  ehlo : String := ""
  ip : String := ""
  trustedFilter : Bool := false
  msg : Msg := {}

inductive ActionType
  | keep
  | discard
  | reject
  | fileinto
  | redirect
  | accept
  | defer
  | quarantine
  | vacation
  | other
  deriving DecidableEq

/-- What `Data` reads of the action of a policy; `several` says that there is
more than one. -/
structure PolicyAction where
  type : ActionType
  several : Bool := false
  reason : String := ""
  target : String := ""
  headers : List PolicyHeader := []

/-- A date in a header. -/
structure DateText where
  text : String
  oneLine : '\n' ∉ text.toList

theorem oneLine_empty : '\n' ∉ "".toList := by decide

/-- What the services answer.  An optional service that is not there is
`none`. -/
structure Services where
  rateAllows : Bool := true
  readErr : Option String := none
  ipfilter : String → Option SMTPError := fun _ => none
  policyEngine : Bool := true
  verifySPF : String → Except String String := fun _ => .error ""
  reputation : Except String (Option ℤ) := .ok none
  date : DateText := ⟨"", oneLine_empty⟩
  quotaAllows : Bool := true
  stormGuard : Option (Option String) := none
  outbreak : Bool := false
  dkimVerifier : Option (Except String (List DKIMVerification)) := none
  zone : Dmarc.Zone := fun _ => []
  reportErr : Option String := none
  plugins : Option (Except String (String × String)) := none
  policyManager : Option (Except String (Option PolicyAction)) := none
  receiptErr : Option String := none
  /-- what the scanners leave of the data, and the folder of a quarantine -/
  scan : Msg → Except SMTPError (List UInt8 × Option String) := fun m => .ok (m.data, none)
  enqueueErr : Option String := none

/-- A server: its configuration, its accounts, its services and the tables of
the libraries. -/
structure Site where
  names : Names
  config : Config
  validator : Entitlements.Validator
  services : Services

namespace Site

variable (S : Site)

/-! ### The layers before the DATA block -/

/-- The name of the header by which the content filter asks for quarantine. -/
def marker : String :=
  if S.config.quarantineHeader = "" then "X-MailScript-Quarantine" else S.config.quarantineHeader

variable (s : Session) (m : Msg)

/-- The request of the trusted content filter. -/
def filterMarker : Msg :=
  if s.trustedFilter ∧ S.config.contentFilter ∧ hasHeader S.names.U m.data S.marker "true" then
    { m with
      quarantine := true
      quarantineFolder :=
        if S.config.quarantineFolder = "" then "Junk" else S.config.quarantineFolder
      data := removeHeader S.names.U m.data S.marker }
  else m

/-- The From identity of an authenticated user. -/
def ownIdentity (s : Session) (raw : List UInt8) : Bool :=
  headerFromDomain S.names.U raw ≠ "" &&
    match parseAddress (text (NetMail.get (fields raw) fromKey)) with
    | none => false
    | some visible => S.validator.authorizedToSendAs S.names.U s.username visible.address

/-- The SPF check of `layerChecks` on the origin a trusted filter reports. -/
def originSPF (origin : String) (m : Msg) : Except SMTPError Msg :=
  if S.services.policyEngine ∧ S.config.spfEnabled then
    match S.services.verifySPF origin with
    | .error _ => .ok { m with spfResult := "temperror" }
    | .ok result =>
      if equalFold S.names.U S.config.spfMode "enforce" ∧
          (result = "fail" ∨ result = "softfail" ∧ S.config.rejectOnSoftfail) then
        .error ⟨550, "SPF validation failed"⟩
      else .ok { m with spfResult := result }
  else .ok m

/-- The part of `layerChecks` for the trusted filter. -/
def trustedOrigin : Except SMTPError Msg :=
  let origin :=
    text (NetMail.get (fields m.data) (canonicalMIMEHeaderKey (utf8 "X-Mailhub-Original-IP")))
  if !s.trustedFilter ∨ origin = [] then .ok m
  else
    match origin.mapM id with
    | none => .error ⟨550, "Invalid trusted origin metadata"⟩
    | some cs =>
      if !isIP cs then .error ⟨550, "Invalid trusted origin metadata"⟩
      else
        match S.services.ipfilter (String.ofList cs) with
        | some err => .error err
        | none => S.originSPF (String.ofList cs) { m with clientIP := String.ofList cs }

/-- The reputation part of `layerChecks`. -/
def reputationCheck : Except SMTPError Unit :=
  let unavailable : SMTPError := ⟨451, "Required reputation service unavailable"⟩
  if S.config.reputation then
    match S.services.reputation with
    | .error _ => if S.config.reputationRequired then .error unavailable else .ok ()
    | .ok none => .ok ()
    | .ok (some score) =>
      if score < S.config.reputationRejectBelow then
        .error ⟨550, "Sender IP reputation below required threshold"⟩
      else .ok ()
  else if S.config.reputationRequired then .error unavailable
  else .ok ()

/-- The Received field a server adds. -/
def received : List UInt8 :=
  utf8 ("Received: from " ++ sanitizeHeaderValue s.ehlo ++ " ([" ++
    sanitizeHeaderValue m.clientIP ++ "]) by " ++ sanitizeHeaderValue S.config.domain ++ "; " ++
    S.services.date.text ++ "\r\n")

/-- The number of hops at which a message is refused. -/
def hopLimit : ℤ := if S.config.maxHops = 0 then 30 else S.config.maxHops

/-- The headers a message must not bring along. -/
def stripped (m : Msg) : List UInt8 :=
  removeHeader S.names.U (removeHeader S.names.U m.data "X-Mailhub-Original-IP")
    "Authentication-Results"

/-- `layerChecks`. -/
def layerChecks : Except SMTPError Msg :=
  if ¬ NetMail.Readable m.data then .error ⟨550, "Malformed message headers"⟩
  else if s.authenticated ∧ !S.ownIdentity s m.data then
    .error ⟨550, "Not authorized for message From identity"⟩
  else if S.hopLimit ≤ (values (fields m.data) (utf8 "Received")).length then
    .error ⟨554, "Mail routing hop limit exceeded"⟩
  else do
    let m ← S.trustedOrigin s m
    S.reputationCheck
    .ok { m with data := S.received s m ++ S.stripped m }

/-- The quotas and the guards against floods and outbreaks. -/
def admission : Except SMTPError Msg :=
  if !S.services.quotaAllows then .error ⟨451, "Sender recipient quota exceeded"⟩
  else
    let m := { m with
      admissionKey := if s.username = "" then "ip:" ++ m.clientIP else "user:" ++ s.username }
    let stormed : Except SMTPError Msg :=
      match S.services.stormGuard with
      | none => .ok m
      | some admits =>
        if ¬ NetMail.Readable m.data then .error ⟨550, "Invalid message headers"⟩
        else
          match admits with
          | some _ =>
            .error ⟨451, "Mailstorm protection: temporarily deferred; retry later"⟩
          | none => .ok m
    match stormed with
    | .error err => .error err
    | .ok m =>
      if S.services.outbreak then
        .error ⟨451, "Message temporarily deferred by outbreak protection"⟩
      else .ok m

/-! ### Authentication of strangers -/

/-- The signatures that count, and the verdict that is recorded. -/
def dkimCheck : List DKIMVerification × Msg :=
  if s.authenticated then ([], m)
  else
    match S.services.dkimVerifier with
    | none => ([], m)
    | some (.error _) => ([], { m with dkimResult := "fail" })
    | some (.ok []) => ([], { m with dkimResult := "none" })
    | some (.ok vs) => (vs, { m with dkimResult := if vs.any (·.pass) then "pass" else "fail" })

/-- `dmarcPolicyApplies`. -/
def dmarcPolicyApplies (message : List UInt8) (pct : ℤ) : Bool :=
  if pct ≤ 0 then false
  else if 100 ≤ pct then true
  else
    let digest := Sha256.sum256 message
    let bucket := (256 * (digest.getD 0 0).toNat + (digest.getD 1 0).toNat) % 100
    (bucket : ℤ) < pct

/-- The domain SPF authenticates; for a null sender that of HELO. -/
def spfDomain : String :=
  if HeaderFields.addressDomain S.names.U m.fromAddr = "" then s.ehlo
  else HeaderFields.addressDomain S.names.U m.fromAddr

def resultText : Result → String
  | .pass => "pass"
  | .fail => "fail"
  | .none => "none"

/-- What authenticates the message. -/
def evidence (dkim : List DKIMVerification) : Evidence :=
  { spfDomain := S.spfDomain s m, spfResult := m.spfResult, dkim }

/-- The DMARC block; `b` is the message as it came. -/
def dmarcCheck (b : List UInt8) (dkim : List DKIMVerification) : Except SMTPError Msg :=
  if s.authenticated ∨ !S.services.policyEngine ∨ !S.config.dmarcEnabled then .ok m
  else
    let fromHeaderDomain := headerFromDomain S.names.U b
    if fromHeaderDomain = "" then .ok m
    else
      let e := evaluateDMARCDetails S.names S.services.zone fromHeaderDomain (S.evidence s m dkim)
      let m := { m with dmarcResult := resultText e.result }
      match S.services.reportErr with
      | some _ => .error ⟨451, "Unable to persist authentication report"⟩
      | none =>
        if e.result = .fail ∧ dmarcPolicyApplies b e.pct ∧
            equalFold S.names.U S.config.dmarcMode "enforce" then
          match e.policy with
          | .reject => .error ⟨550, "DMARC policy evaluation failed"⟩
          | .quarantine =>
            .ok { m with
              quarantine := true
              quarantineFolder :=
                if S.config.dmarcFolder = "" then "Junk" else S.config.dmarcFolder }
          | .none => .ok m
        else .ok m

/-! ### Plugins, policies and scanners -/

def pluginCheck (m : Msg) : Except SMTPError Msg :=
  match S.services.plugins with
  | none => .ok m
  | some (.error _) => .error ⟨451, "Required admission plugin unavailable"⟩
  | some (.ok ("reject", reason)) => .error ⟨550, "Admission policy rejected message: " ++ reason⟩
  | some (.ok ("defer", reason)) => .error ⟨451, "Admission policy deferred message: " ++ reason⟩
  | some (.ok ("quarantine", _)) => .ok { m with quarantine := true, quarantineFolder := "Junk" }
  | some (.ok _) => .ok m

/-- The switch over the action of a policy; a message that is discarded is
`none`. -/
def policyAction (m : Msg) (a : PolicyAction) : Except SMTPError (Option Msg) :=
  match a.type with
  | .reject => .error ⟨550, a.reason⟩
  | .defer => .error ⟨451, a.reason⟩
  | .discard =>
    match S.services.receiptErr with
    | some _ => .error ⟨451, "Cannot persist submission acceptance"⟩
    | none => .ok none
  | .redirect => .ok (some { m with toAddrs := [a.target] })
  | .quarantine => .ok (some { m with quarantine := true, quarantineFolder := a.reason })
  | .fileinto => .ok (some { m with deliveryFolder := a.target })
  | .accept => .ok (some m)
  | .keep => .ok (some m)
  | _ =>
    if S.config.policyRequired then .error ⟨451, "Unsupported required policy action"⟩
    else .ok (some m)

/-- What is made of the answer of `Evaluate`. -/
def evaluated (m : Msg) : Except String (Option PolicyAction) → Except SMTPError (Option Msg)
  | .error _ =>
    if S.config.policyRequired then .error ⟨451, "Required policy unavailable"⟩ else .ok (some m)
  | .ok none => .ok (some m)
  | .ok (some a) =>
    if a.several ∨ a.type = .vacation then
      .error ⟨451, "Multi-action Sieve is supported only in recipient scripts"⟩
    else
      match S.policyAction m a with
      | .error err => .error err
      | .ok none => .ok none
      | .ok (some m) =>
        match applyPolicyHeaders S.names.U m.data a.headers with
        | none => .error ⟨451, "Invalid policy header action"⟩
        | some data => .ok (some { m with data })

/-- The block of the policy engine. -/
def policyCheck (m : Msg) (b : List UInt8) : Except SMTPError (Option Msg) :=
  match S.services.policyManager with
  | none =>
    if S.config.policyRequired then .error ⟨451, "Required policy unavailable"⟩ else .ok (some m)
  | some answer =>
    match newEmailContext b with
    | none =>
      if S.config.policyRequired then .error ⟨451, "Required policy context unavailable"⟩
      else .ok (some m)
    | some _ => S.evaluated m answer

/-- `prependAuthResults`. -/
def prependAuthResults (m : Msg) : List UInt8 :=
  let orNone (s : String) := if s = "" then "none" else s
  let authservID := if S.config.domain = "" then "localhost" else S.config.domain
  utf8 ("Authentication-Results: " ++ sanitizeHeaderValue authservID ++ "; spf=" ++
    orNone m.spfResult ++ " smtp.mailfrom=" ++ sanitizeHeaderValue m.fromAddr ++ "; dkim=" ++
    orNone m.dkimResult ++ "; dmarc=" ++ orNone m.dmarcResult ++ "\r\n") ++ m.data

/-- The end of `Data`: the scanners and the queue. -/
def finish : Except SMTPError Msg :=
  let m := if s.authenticated then m else { m with data := S.prependAuthResults m }
  match S.services.scan m with
  | .error err => .error err
  | .ok (data, folder) =>
    let m := { m with data, quarantine := m.quarantine || folder.isSome
                      quarantineFolder := folder.getD m.quarantineFolder }
    match S.services.enqueueErr with
    | some _ => .error ⟨451, "Temporary failure, please retry"⟩
    | none => .ok m

/-- `Data`: the message that is queued, if it is not discarded. -/
def data (s : Session) (b : List UInt8) : Except SMTPError (Option Msg) :=
  if !S.services.rateAllows then .error ⟨451, "message rate limit exceeded"⟩
  else
    match S.services.readErr with
    | some err => .error ⟨554, err⟩
    | none => do
        let m ← S.layerChecks s (S.filterMarker s { s.msg with data := b })
        let m ← S.admission s m
        let (dkim, m) := S.dkimCheck s m
        let m ← S.dmarcCheck s m b dkim
        let m ← S.pluginCheck m
        match ← S.policyCheck m b with
        | none => .ok none
        | some m => do
            let m ← S.finish s m
            .ok (some m)

end Site

/-! ### What an accepted message went through -/

/-- What the stages after `layerChecks` keep of a message: who sent it, its SPF
result, and a quarantine once it is set. -/
structure Msg.Keeps (m m' : Msg) : Prop where
  fromAddr : m'.fromAddr = m.fromAddr
  spfResult : m'.spfResult = m.spfResult
  quarantine : m.quarantine = true → m'.quarantine = true

theorem Msg.Keeps.refl (m : Msg) : m.Keeps m := ⟨rfl, rfl, id⟩

theorem Msg.Keeps.trans {m₁ m₂ m₃ : Msg} (h : m₁.Keeps m₂) (h' : m₂.Keeps m₃) : m₁.Keeps m₃ :=
  ⟨h'.fromAddr.trans h.fromAddr, h'.spfResult.trans h.spfResult, h'.quarantine ∘ h.quarantine⟩

namespace Site

section Accepted

variable {S : Site} {s : Session} {m m' : Msg} {b : List UInt8}

theorem ok_of_bind {ε α β : Type} {x : Except ε α} {f : α → Except ε β} {y : β}
    (h : x >>= f = .ok y) : ∃ a, x = .ok a ∧ f a = .ok y := by
  rcases x with e | a
  · cases h
  · exact ⟨a, rfl, h⟩

/-- The stages of `Data` a message that is queued has passed. -/
structure Passed (S : Site) (s : Session) (b : List UInt8) (m : Msg) where
  layered : Msg
  admitted : Msg
  judged : Msg
  plugged : Msg
  ruled : Msg
  layer : S.layerChecks s (S.filterMarker s { s.msg with data := b }) = .ok layered
  admits : S.admission s layered = .ok admitted
  judge : S.dmarcCheck s (S.dkimCheck s admitted).2 b (S.dkimCheck s admitted).1 = .ok judged
  plug : S.pluginCheck judged = .ok plugged
  rule : S.policyCheck plugged b = .ok (some ruled)
  end_ : S.finish s ruled = .ok m

theorem passed_of_data (h : S.data s b = .ok (some m)) : Nonempty (Passed S s b m) := by
  unfold data at h
  split at h
  · cases h
  · split at h
    · cases h
    · obtain ⟨layered, layer, h⟩ := ok_of_bind h
      obtain ⟨admitted, admits, h⟩ := ok_of_bind h
      obtain ⟨judged, judge, h⟩ := ok_of_bind h
      obtain ⟨plugged, plug, h⟩ := ok_of_bind h
      obtain ⟨ruled, rule, h⟩ := ok_of_bind h
      rcases ruled with - | ruled
      · cases h
      · obtain ⟨m', end_, h⟩ := ok_of_bind h
        cases h
        exact ⟨⟨layered, admitted, judged, plugged, ruled, layer, admits, judge, plug, rule, end_⟩⟩

theorem data_of_passed (hrate : S.services.rateAllows = true) (hread : S.services.readErr = none)
    (p : Passed S s b m) : S.data s b = .ok (some m) := by
  unfold data
  rw [hrate, hread]
  show (S.layerChecks s _ >>= _) = _
  rw [p.layer]
  show (S.admission s _ >>= _) = _
  rw [p.admits]
  show (S.dmarcCheck s (S.dkimCheck s p.admitted).2 b (S.dkimCheck s p.admitted).1 >>= _) = _
  rw [p.judge]
  show (S.pluginCheck _ >>= _) = _
  rw [p.plug]
  show (S.policyCheck _ b >>= _) = _
  rw [p.rule]
  show (S.finish s _ >>= _) = _
  rw [p.end_]
  rfl

theorem originSPF_data {origin : String} (h : S.originSPF origin m = .ok m') :
    m'.data = m.data ∧ m'.quarantine = m.quarantine := by
  unfold originSPF at h
  split at h
  · split at h
    · cases h
      exact ⟨rfl, rfl⟩
    · split at h
      · cases h
      · cases h
        exact ⟨rfl, rfl⟩
  · cases h
    exact ⟨rfl, rfl⟩

theorem trustedOrigin_data (h : S.trustedOrigin s m = .ok m') :
    m'.data = m.data ∧ m'.quarantine = m.quarantine := by
  unfold trustedOrigin at h
  dsimp only at h
  split at h
  · cases h
    exact ⟨rfl, rfl⟩
  · split at h
    · cases h
    · split at h
      · cases h
      · split at h
        · cases h
        · have hspf := originSPF_data h
          exact hspf

/-- What `layerChecks` has checked, and what it makes of the data. -/
theorem layerChecks_ok (h : S.layerChecks s m = .ok m') :
    NetMail.Readable m.data ∧ (s.authenticated = true → S.ownIdentity s m.data = true) ∧
      m'.quarantine = m.quarantine ∧
      ∃ m₁ : Msg, m₁.data = m.data ∧ m'.data = S.received s m₁ ++ S.stripped m₁ := by
  unfold layerChecks at h
  split at h
  · cases h
  · next hreadable =>
    split at h
    · cases h
    · next hown =>
      split at h
      · cases h
      · obtain ⟨m₁, horigin, h⟩ := ok_of_bind h
        obtain ⟨-, -, h⟩ := ok_of_bind h
        cases h
        obtain ⟨hdata, hquarantine⟩ := trustedOrigin_data horigin
        refine ⟨not_not.mp hreadable, fun hauth => ?_, hquarantine, m₁, hdata, rfl⟩
        simpa [hauth] using hown

theorem admission_keeps (h : S.admission s m = .ok m') : m.Keeps m' ∧ m'.data = m.data := by
  unfold admission at h
  split at h
  · cases h
  · dsimp only at h
    split at h
    · cases h
    · next hstorm =>
      split at h
      · cases h
      · cases h
        split at hstorm
        · cases hstorm
          exact ⟨⟨rfl, rfl, id⟩, rfl⟩
        · split at hstorm
          · cases hstorm
          · split at hstorm
            · cases hstorm
            · cases hstorm
              exact ⟨⟨rfl, rfl, id⟩, rfl⟩

theorem dkimCheck_keeps (s : Session) (m : Msg) :
    m.Keeps (S.dkimCheck s m).2 ∧ (S.dkimCheck s m).2.data = m.data ∧
      (S.dkimCheck s m).2.quarantine = m.quarantine := by
  unfold dkimCheck
  split
  · exact ⟨.refl m, rfl, rfl⟩
  · split <;> exact ⟨⟨rfl, rfl, id⟩, rfl, rfl⟩

theorem dmarcCheck_keeps {dkim : List DKIMVerification} (h : S.dmarcCheck s m b dkim = .ok m') :
    m.Keeps m' ∧ m'.data = m.data := by
  unfold dmarcCheck at h
  split at h
  · cases h
    exact ⟨.refl m, rfl⟩
  · dsimp only at h
    split at h
    · cases h
      exact ⟨.refl m, rfl⟩
    · split at h
      · cases h
      · split at h
        · split at h
          · cases h
          · cases h
            exact ⟨⟨rfl, rfl, fun _ => rfl⟩, rfl⟩
          · cases h
            exact ⟨⟨rfl, rfl, id⟩, rfl⟩
        · cases h
          exact ⟨⟨rfl, rfl, id⟩, rfl⟩

theorem pluginCheck_keeps (h : S.pluginCheck m = .ok m') : m.Keeps m' ∧ m'.data = m.data := by
  unfold pluginCheck at h
  split at h
  · cases h
    exact ⟨.refl m, rfl⟩
  · cases h
  · cases h
  · cases h
  · cases h
    exact ⟨⟨rfl, rfl, fun _ => rfl⟩, rfl⟩
  · cases h
    exact ⟨.refl m, rfl⟩

theorem policyAction_keeps {a : PolicyAction} (h : S.policyAction m a = .ok (some m')) :
    m.Keeps m' ∧ m'.data = m.data := by
  unfold policyAction at h
  split at h
  · cases h
  · cases h
  · split at h <;> cases h
  · cases h
    exact ⟨⟨rfl, rfl, id⟩, rfl⟩
  · cases h
    exact ⟨⟨rfl, rfl, fun _ => rfl⟩, rfl⟩
  · cases h
    exact ⟨⟨rfl, rfl, id⟩, rfl⟩
  · cases h
    exact ⟨.refl m, rfl⟩
  · cases h
    exact ⟨.refl m, rfl⟩
  · split at h
    · cases h
    · cases h
      exact ⟨.refl m, rfl⟩

/-- The data after the policy engine: as before, or with the headers of the
action applied. -/
theorem policyCheck_keeps (h : S.policyCheck m b = .ok (some m')) :
    m.Keeps m' ∧ (m'.data = m.data ∨ ∃ a, S.services.policyManager = some (.ok (some a)) ∧
      applyPolicyHeaders S.names.U m.data a.headers = some m'.data) := by
  have hsame : ∀ {c : Bool} {err : SMTPError}, (if c then .error err else .ok (some m)) =
      (Except.ok (some m') : Except SMTPError (Option Msg)) → m = m' := by
    intro c err hc
    cases c <;> cases hc
    rfl
  unfold policyCheck at h
  split at h
  · obtain rfl := hsame h
    exact ⟨.refl m, .inl rfl⟩
  · next answer hanswer =>
    split at h
    · obtain rfl := hsame h
      exact ⟨.refl m, .inl rfl⟩
    · unfold evaluated at h
      split at h
      · obtain rfl := hsame h
        exact ⟨.refl m, .inl rfl⟩
      · cases h
        exact ⟨.refl m, .inl rfl⟩
      · next a =>
        split at h
        · cases h
        · split at h
          · cases h
          · cases h
          · next m₁ hm₁ =>
            obtain ⟨hkeeps, hdata⟩ := policyAction_keeps hm₁
            split at h
            · cases h
            · next data hheaders =>
              cases h
              rw [hdata] at hheaders
              exact ⟨hkeeps.trans ⟨rfl, rfl, id⟩, .inr ⟨a, hanswer, hheaders⟩⟩

theorem finish_keeps (h : S.finish s m = .ok m') :
    m.Keeps m' ∧ ∃ m₁ folder, S.services.scan m₁ = .ok (m'.data, folder) ∧
      m₁.data = if s.authenticated then m.data else S.prependAuthResults m := by
  unfold finish at h
  dsimp only at h
  split at h
  · cases h
  · next data folder hscan =>
    split at h
    · cases h
    · cases h
      refine ⟨⟨?_, ?_, fun hq => ?_⟩, _, folder, hscan, ?_⟩
      all_goals cases s.authenticated <;> simp_all

end Accepted

end Site

end EmailService.DataPhase
