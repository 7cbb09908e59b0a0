/-
EmailService/Delivery.lean

Outbound delivery (internal/delivery/delivery.go, routes.go): one message to a
list of recipients, over the MX hosts or the configured next hops of each
recipient's domain.

The functions are programs over `netSignature`; DNS, the connections and the
remote servers are the surroundings that reply.  Opening a connection
(`dialSMTP`, `dialNextHop`, TLS and authentication included) is one question,
and so is each command of an SMTP transaction.  The TLS reports the source
records on the way are left out: nothing reads them back.

`wire` watches the SMTP dialogue.  A recipient is acknowledged when its RCPT
was accepted on a connection whose DATA was then acknowledged.  Main result:
`deliver_accounts`, what `Deliver` returns against any surroundings.
-/
import EmailService.GoStrings
import EmailService.Program
import EmailService.Entry

namespace EmailService

open GoStrings Program List Function Bool

/-! ### Data -/

structure RecipientResult where
  recipient : String
  success : Bool := false
  smtpCode : ℤ := 0
  isPermanent : Bool := false
  message : String := ""
  deriving DecidableEq

/-- `DeliveryResult`, without the DANE flags that are never set. -/
structure DeliveryResult where
  success : Bool := false
  smtpCode : ℤ := 0
  message : String := ""
  isPermanent : Bool := false
  remoteHost : String := ""
  deliveredAt : Time := zeroTime
  recipients : List RecipientResult := []

structure NextHop where
  clientCert : String := ""
  clientKey : String := ""
  reportType : String := ""
  address : String
  serverName : String := ""
  requireTLS : Bool := false
  caFile : String := ""
  username : String := ""
  passwordEnv : String := ""

structure Route where
  senderDomain : String := ""
  priority : ℤ := 0
  domain : String
  nextHops : List NextHop

structure MX where
  host : String
  pref : UInt16

/-- An error of `LookupMailMX`; `permanent` is what `errors.As` finds in it. -/
structure DNSFailure where
  reason : String
  permanent : Bool

/-- `MailDelivery`; `sts` says whether an MTA-STS manager is configured. -/
structure MailDelivery where
  sts : Bool := false
  routes : List Route := []

/-! ### The surroundings -/

inductive NetQuery
  | lookupMailMX (domain : String)
  | shouldEnforceTLS (domain mxHost : String)
  | dialSMTP (mxHost : String)
  | dialNextHop (hop : NextHop)
  | mail (sender : String)
  | rcpt (recipient : String)
  | data
  | write (message : List UInt8)
  | closeData
  | now
  /-- the order in which `range` visits the keys of a map -/
  | range (keys : List String)

/-- The replies; for a call that only fails or succeeds, its error. -/
def NetQuery.Reply : NetQuery → Type
  | lookupMailMX _ => Except DNSFailure (List MX)
  | shouldEnforceTLS .. => Except String Bool
  | now => Time
  | range keys => { order : List String // order.Perm keys }
  | _ => Option String

def netSignature : Signature := ⟨NetQuery, NetQuery.Reply⟩

/-- Programs that talk to the network. -/
abbrev Net := Program netSignature

def lookupMailMX (domain : String) : Net (Except DNSFailure (List MX)) :=
  query (S := netSignature) (.lookupMailMX domain)
def shouldEnforceTLS (domain mxHost : String) : Net (Except String Bool) :=
  query (S := netSignature) (.shouldEnforceTLS domain mxHost)
def dialSMTP (mxHost : String) : Net (Option String) :=
  query (S := netSignature) (.dialSMTP mxHost)
def dialNextHop (hop : NextHop) : Net (Option String) :=
  query (S := netSignature) (.dialNextHop hop)
def clientMail (sender : String) : Net (Option String) :=
  query (S := netSignature) (.mail sender)
def clientRcpt (recipient : String) : Net (Option String) :=
  query (S := netSignature) (.rcpt recipient)
def clientData : Net (Option String) := query (S := netSignature) .data
def writeData (message : List UInt8) : Net (Option String) :=
  query (S := netSignature) (.write message)
def closeData : Net (Option String) := query (S := netSignature) .closeData
def netNow : Net Time := query (S := netSignature) .now
def rangeOver (keys : List String) : Net { order : List String // order.Perm keys } :=
  query (S := netSignature) (.range keys)

/-! ### One SMTP transaction -/

/-- `parseSMTPError`. -/
def parseSMTPError : Option String → ℤ × Bool
  | none => (250, false)
  | some err =>
    let scanned :=
      if 3 ≤ err.utf8ByteSize then (scanInt (firstBytes 3 err.toList)).getD 0 else 0
    let code := if scanned = 0 then 450 else scanned
    (code, decide (500 ≤ code ∧ code < 600))

theorem parseSMTPError_ne_zero (err : Option String) : (parseSMTPError err).1 ≠ 0 := by
  rcases err with - | err
  · decide
  · simp only [parseSMTPError]
    generalize (if 3 ≤ err.utf8ByteSize then (scanInt (firstBytes 3 err.toList)).getD 0 else 0) = c
    by_cases h : c = 0
    · simp [h]
    · simp [h]

variable (r : DeliveryResult)

/-- The closure `fail` of `smtpTransaction`. -/
def transactionFailed (err : String) : DeliveryResult × Option String :=
  let code := if (parseSMTPError (some err)).1 = 0 then 451 else (parseSMTPError (some err)).1
  let permanent := (parseSMTPError (some err)).2
  ({ r with
      smtpCode := code
      isPermanent := permanent
      message := err
      recipients := r.recipients.map fun o =>
        if o.smtpCode = 0 then
          { o with smtpCode := code, isPermanent := permanent, message := err }
        else o },
    some err)

/-- The outcome recorded after one RCPT. -/
def rcptOutcome (recipient : String) : Option String → RecipientResult
  | none => { recipient := recipient }
  | some err =>
    let code := (parseSMTPError (some err)).1
    { recipient := recipient
      smtpCode := if code = 0 then 451 else code
      isPermanent := (parseSMTPError (some err)).2
      message := err }

/-- The RCPT loop: the outcomes so far, and how many were accepted. -/
def rcptAll : List String → Net (List RecipientResult × ℕ)
  | [] => pure ([], 0)
  | rcpt :: rest => do
      let err ← clientRcpt rcpt
      let (outcomes, accepted) ← rcptAll rest
      pure (rcptOutcome rcpt err :: outcomes, if err = none then accepted + 1 else accepted)

/-- The result when every recipient was refused. -/
def noneAccepted : DeliveryResult :=
  let permanent := r.recipients.all (·.isPermanent)
  { r with
    isPermanent := permanent
    smtpCode := if permanent then 550 else 451
    message := "No recipients accepted" }

/-- The result once DATA is acknowledged. -/
def acknowledged (now : Time) : DeliveryResult :=
  { r with
    success := true
    smtpCode := 250
    message := "Message accepted"
    deliveredAt := now
    recipients := r.recipients.map fun o =>
      if o.smtpCode = 0 then { o with success := true, smtpCode := 250 } else o }

/-- `smtpTransaction`, on the connection dialled last. -/
def smtpTransaction (host sender : String) (recipients : List String) (message : List UInt8) :
    Net (DeliveryResult × Option String) := do
  let r : DeliveryResult := { remoteHost := host }
  match ← clientMail sender with
  | some err => pure (transactionFailed r err)
  | none => do
      let (outcomes, accepted) ← rcptAll recipients
      let r := { r with recipients := outcomes }
      if accepted = 0 then pure (noneAccepted r, some "no recipients accepted")
      else
        match ← clientData with
        | some err => pure (transactionFailed r err)
        | none =>
          match ← writeData message with
          | some err => pure (transactionFailed r err)
          | none =>
            match ← closeData with
            | some err => pure (transactionFailed r err)
            | none => do
                let now ← netNow
                pure (acknowledged r now, none)

/-! ### Hosts and hops -/

/-- An error wrapped by `%w`; a nil error has no text of its own. -/
def errText : Option String → String
  | none => "%!w(<nil>)"
  | some err => err

/-- `deliverRoute`; `last` is the error of the hop before. -/
def deliverRoute (sender : String) (recipients : List String) (message : List UInt8) :
    Option String → List NextHop → Net (DeliveryResult × Option String)
  | last, [] =>
    pure ({ smtpCode := 451, message := "All configured next hops unavailable" },
      some ("next hop delivery: " ++ errText last))
  | _, hop :: hops => do
      match ← dialNextHop hop with
      | some err => deliverRoute sender recipients message (some err) hops
      | none => do
          let (result, err) ← smtpTransaction hop.address sender recipients message
          if err = none ∨ result.isPermanent then pure (result, err)
          else deliverRoute sender recipients message err hops

/-- `deliverToMX`. -/
def deliverToMX (mxHost sender : String) (recipients : List String) (message : List UInt8) :
    Net (DeliveryResult × Option String) := do
  let mxHost := trimSuffix mxHost "."
  match ← dialSMTP mxHost with
  | some err => pure ({ smtpCode := 451, message := err, remoteHost := mxHost }, some err)
  | none => smtpTransaction mxHost sender recipients message

/-- `net.JoinHostPort`. -/
def joinHostPort (host port : String) : String :=
  if ':' ∈ host.toList then "[" ++ host ++ "]:" ++ port else host ++ ":" ++ port

/-- How specific a route is for a destination; nothing if it does not match. -/
def routeScore (U : CaseTables) (domain : String) (r : Route) : Option ℤ :=
  let pattern := toLower U r.domain
  if pattern = domain then some (100000 + pattern.utf8ByteSize)
  else if hasPrefix pattern "*." ∧ hasSuffix domain (String.ofList (pattern.toList.drop 1)) then
    some pattern.utf8ByteSize
  else if pattern = "*" then some 0
  else none

/-- One round of the loop of `selectRoute`, over the best score, the priority
and the hops found so far. -/
def betterRoute (U : CaseTables) (domain sender : String)
    (best : ℤ × ℤ × List NextHop) (r : Route) : ℤ × ℤ × List NextHop :=
  match routeScore U domain r with
  | none => best
  | some score =>
    if r.senderDomain ≠ "" ∧ (sender = "" ∨ !equalFold U r.senderDomain sender) then best
    else
      let score := score * 2 + if r.senderDomain ≠ "" then 1 else 0
      if best.1 < score ∨ (score = best.1 ∧ r.priority < best.2.1) then
        (score, r.priority, r.nextHops)
      else best

variable (U : CaseTables) (D : MailDelivery) (domain : String)

/-- `selectRoute`. -/
def selectRoute (sender : String) : List NextHop :=
  let domain := toLower U (trimSuffix domain ".")
  let senderDomain := ((afterLast sender '@').map (toLower U)).getD ""
  (D.routes.foldl (betterRoute U domain senderDomain) (-1, 0, [])).2.2

/-- `HasRoute`. -/
def hasRoute : Bool :=
  !(selectRoute U D domain "").isEmpty

/-- `HasExplicitRoute`. -/
def hasExplicitRoute : Bool :=
  D.routes.any fun r =>
    r.domain ≠ "*" && r.senderDomain = "" &&
      (equalFold U r.domain domain ||
        (hasPrefix r.domain "*." &&
          hasSuffix (toLower U domain) (toLower U (String.ofList (r.domain.toList.drop 1)))))

/-- The inner loop of `sortMXRecords`: so many comparisons of neighbours. -/
def bubble : ℕ → List MX → List MX
  | n + 1, a :: b :: rest =>
    if b.pref < a.pref then b :: bubble n (a :: rest) else a :: bubble n (b :: rest)
  | _, mxs => mxs

/-- `sortMXRecords`. -/
def sortMXRecords (mxs : List MX) : List MX :=
  (range (mxs.length - 1)).foldl (fun l i => bubble (mxs.length - i - 1) l) mxs

/-- One delivery attempt at one MX host, given what MTA-STS demands for it. -/
def attemptMX (mx : MX) (sender : String) (recipients : List String) (message : List UInt8) :
    Except String Bool → Net (Option DeliveryResult × Option String)
  | .error err => pure (none, some err)
  | .ok true => do
      let hop := { address := joinHostPort (trimSuffix mx.host ".") "25"
                   requireTLS := true
                   reportType := "sts" }
      let (result, err) ← deliverRoute sender recipients message none [hop]
      pure (some result, err)
  | .ok false => do
      let (result, err) ← deliverToMX mx.host sender recipients message
      pure (some result, err)

/-- The loop of `deliverToDomain` over the MX hosts. -/
def tryMXs (D : MailDelivery) (domain sender : String) (recipients : List String)
    (message : List UInt8) :
    Option String → List MX → Net (Option DeliveryResult × Option String)
  | lastErr, [] =>
    pure (some { smtpCode := 450, message := "All MX hosts failed" },
      some ("all MX hosts failed for domain " ++ domain ++ ": " ++ errText lastErr))
  | _, mx :: mxs => do
      let enforce ← (if D.sts then shouldEnforceTLS domain mx.host else pure (.ok false))
      let (result, err) ← attemptMX mx sender recipients message enforce
      if err = none ∧ result.any (·.success) then pure (result, none)
      -- a permanent failure is not tried elsewhere
      else if result.any (·.isPermanent) then pure (result, err)
      else tryMXs D domain sender recipients message err mxs

/-- `deliverToDomain`. -/
def deliverToDomain (sender : String) (recipients : List String) (message : List UInt8) :
    Net (Option DeliveryResult × Option String) :=
  match selectRoute U D domain sender with
  | hop :: hops => do
      let (result, err) ← deliverRoute sender recipients message none (hop :: hops)
      pure (some result, err)
  | [] => do
      match ← lookupMailMX domain with
      | .error e =>
        pure (some { smtpCode := if e.permanent then 550 else 451
                     message := e.reason
                     isPermanent := e.permanent }, some e.reason)
      | .ok mxs => tryMXs D domain sender recipients message none (sortMXRecords mxs)

/-! ### Grouping and aggregation -/

/-- The domain of an address as `groupByDomain` and `extractDomain` find it:
the second of exactly two parts. -/
def addressDomain (address : String) : Option String :=
  match split address '@' with
  | [_, domain] => some domain
  | _ => none

/-- A `map[string][]γ`: its keys in order of insertion, and the value under
each. -/
structure Groups (γ : Type) where
  keys : List String := []
  members : String → List γ := fun _ => []

/-- `groups[key] = append(groups[key], x)`. -/
def Groups.add {γ : Type} (g : Groups γ) (key : String) (x : γ) : Groups γ where
  keys := if key ∈ g.keys then g.keys else g.keys ++ [key]
  members := update g.members key (g.members key ++ [x])

/-- `groupByDomain`: an address without exactly two parts is logged and left out. -/
def groupByDomain (U : CaseTables) (recipients : List String) : Groups String :=
  recipients.foldl (fun g rcpt =>
    match addressDomain rcpt with
    | none => g
    | some domain => g.add (toLower U domain) rcpt) {}

/-- The result of one domain as `Deliver` takes it over: a missing result is
replaced, and a result without outcomes stands for every recipient. -/
def domainResult (recipients : List String) (result : Option DeliveryResult) : DeliveryResult :=
  let result := result.getD { smtpCode := 451, message := "Delivery unavailable" }
  if result.recipients = [] then
    { result with recipients := recipients.map fun rcpt =>
        { recipient := rcpt
          success := result.success
          smtpCode := result.smtpCode
          isPermanent := result.isPermanent
          message := result.message } }
  else result

/-- The loop of `Deliver` over the domains. -/
def deliverDomains (U : CaseTables) (D : MailDelivery) (sender : String) (message : List UInt8)
    (groups : Groups String) :
    DeliveryResult → List String → List String → Net (DeliveryResult × List String)
  | aggregate, failures, [] => pure (aggregate, failures)
  | aggregate, failures, domain :: domains => do
      let recipients := groups.members domain
      let (result, err) ← deliverToDomain U D domain sender recipients message
      let result := domainResult recipients result
      let aggregate := { aggregate with
        recipients := aggregate.recipients ++ result.recipients
        remoteHost := result.remoteHost }
      let failures := failures ++ err.toList
      deliverDomains U D sender message groups aggregate failures domains

/-- What `Deliver` makes of the collected outcomes. -/
def summarize (aggregate : DeliveryResult) (failures : List String) :
    DeliveryResult × Option String :=
  let failed := aggregate.recipients.filter (!·.success)
  let permanent := failed.all (·.isPermanent)
  if failed ≠ [] then
    ({ aggregate with
        success := false
        isPermanent := permanent
        smtpCode := if permanent then 550 else 451
        message := "Delivery incomplete" },
      some ("delivery incomplete: " ++ join failures "; "))
  else ({ aggregate with isPermanent := false }, none)

/-- `Deliver`. -/
def deliver (U : CaseTables) (D : MailDelivery) (sender : String) (recipients : List String)
    (message : List UInt8) : Net (Option DeliveryResult × Option String) :=
  if recipients = [] then pure (none, some "no recipients specified")
  else do
    let groups := groupByDomain U recipients
    let order ← rangeOver groups.keys
    let (aggregate, failures) ←
      deliverDomains U D sender message groups { success := true, smtpCode := 250 } [] order.1
    let (result, err) := summarize aggregate failures
    pure (some result, err)

/-! ### Watching the dialogue -/

/-- The recipients accepted on the open connection, those for which a server
has acknowledged the message, and whether there was a permanent refusal. -/
structure Wire where
  accepted : List String := []
  acknowledged : List String := []
  refused : Bool := false

/-- A refusal counts if it is permanent. -/
def Wire.refuse (w : Wire) (permanent : Bool) : Wire :=
  { w with refused := w.refused || permanent }

/-- A new connection or transaction starts without recipients; an accepted RCPT
adds one; the acknowledgement of DATA is for all of them. -/
def Wire.track (w : Wire) : (q : NetQuery) → q.Reply → Wire
  | .lookupMailMX _, .error e => w.refuse e.permanent
  | .dialSMTP _, _ => { w with accepted := [] }
  | .dialNextHop _, _ => { w with accepted := [] }
  | .mail _, err => Wire.refuse { w with accepted := [] } (parseSMTPError err).2
  | .rcpt rcpt, none => { w with accepted := w.accepted ++ [rcpt] }
  | .rcpt _, some err => w.refuse (parseSMTPError (some err)).2
  | .data, err => w.refuse (parseSMTPError err).2
  | .write _, err => w.refuse (parseSMTPError err).2
  | .closeData, none => { w with accepted := [], acknowledged := w.acknowledged ++ w.accepted }
  | .closeData, some err => w.refuse (parseSMTPError (some err)).2
  | _, _ => w

/-- The monitor of the dialogue; it reckons with every reply. -/
def wire : Monitor netSignature Wire where
  track := Wire.track

section Accounting

variable {w : Wire} {recipients : List String} {sender : String} {message : List UInt8}

/-- An acknowledged recipient stays acknowledged, and a refusal is remembered. -/
structure Wire.Grows (w w' : Wire) : Prop where
  acknowledged : ∀ rcpt ∈ w.acknowledged, rcpt ∈ w'.acknowledged
  refused : w.refused = true → w'.refused = true

theorem Wire.Grows.refl (w : Wire) : w.Grows w := ⟨fun _ h => h, id⟩

theorem Wire.Grows.trans {w₁ w₂ w₃ : Wire} (h₁ : w₁.Grows w₂) (h₂ : w₂.Grows w₃) :
    w₁.Grows w₃ :=
  ⟨fun r hr => h₂.acknowledged r (h₁.acknowledged r hr), fun h => h₂.refused (h₁.refused h)⟩

theorem Wire.grows_refuse (w : Wire) (permanent : Bool) : w.Grows (w.refuse permanent) :=
  ⟨fun _ h => h, fun h => by simp [Wire.refuse, h]⟩

theorem Wire.refused_of_permanent (w : Wire) {permanent : Bool} (h : permanent = true) :
    (w.refuse permanent).refused = true := by
  simp [Wire.refuse, h]

theorem Wire.grows_track (w : Wire) (q : NetQuery) (r : q.Reply) : w.Grows (w.track q r) := by
  unfold Wire.track
  split
  · exact w.grows_refuse _
  · exact ⟨fun _ h => h, id⟩
  · exact ⟨fun _ h => h, id⟩
  · exact ⟨fun _ h => h, fun h => by simp [Wire.refuse, h]⟩
  · exact ⟨fun _ h => h, id⟩
  · exact w.grows_refuse _
  · exact w.grows_refuse _
  · exact w.grows_refuse _
  · exact ⟨fun _ h => mem_append_left _ h, id⟩
  · exact w.grows_refuse _
  · exact .refl w

/-- A specification together with the growth of the wire. -/
theorem spec_grows {β : Type} {p : Net β} {Q : β → Wire → Prop} (h : Spec wire p w Q) :
    Spec wire p w fun b w' => Q b w' ∧ w.Grows w' :=
  h.along Wire.Grows .refl .trans Wire.grows_track

/-- What a delivery to `recipients` says about them: all or none of them have
an outcome, no error means success, success has an outcome for each, a
recipient is only reported delivered if a server has acknowledged it, and a
failure is only reported permanent after a permanent refusal. -/
structure Accounts (recipients : List String) (w : Wire) (result : DeliveryResult)
    (err : Option String) : Prop where
  outcomes : result.recipients = [] ∨ result.recipients.map (·.recipient) = recipients
  success_iff : result.success = true ↔ err = none
  delivered : result.success = true → result.recipients.map (·.recipient) = recipients
  acknowledged : ∀ o ∈ result.recipients, o.success = true → o.recipient ∈ w.acknowledged
  refused : ∀ o ∈ result.recipients, o.isPermanent = true → w.refused = true
  refused_all : result.recipients = [] → recipients ≠ [] → result.isPermanent = true →
    w.refused = true

/-- A failure without any outcome. -/
theorem Accounts.of_failure {result : DeliveryResult} {err : String}
    (hsuccess : result.success = false) (hnone : result.recipients = [])
    (hrefused : result.isPermanent = true → w.refused = true) :
    Accounts recipients w result (some err) where
  outcomes := .inl hnone
  success_iff := by simp [hsuccess]
  delivered h := by simp [hsuccess] at h
  acknowledged o ho := by simp [hnone] at ho
  refused o ho := by simp [hnone] at ho
  refused_all _ _ := hrefused

/-- The outcomes of the RCPT loop: one for each recipient, none a success yet,
code 0 just for those the server has accepted, and permanent only if the server
has said so. -/
structure Offered (recipients : List String) (w : Wire) (outcomes : List RecipientResult) :
    Prop where
  recipients_eq : outcomes.map (·.recipient) = recipients
  pending : ∀ o ∈ outcomes, o.success = false
  accepted : ∀ o ∈ outcomes, o.smtpCode = 0 → o.recipient ∈ w.accepted
  refused : ∀ o ∈ outcomes, o.isPermanent = true → w.refused = true

variable (rcpt : String) (err : Option String)

theorem rcptOutcome_recipient : (rcptOutcome rcpt err).recipient = rcpt := by
  cases err <;> rfl

theorem rcptOutcome_success : (rcptOutcome rcpt err).success = false := by
  cases err <;> rfl

theorem rcptOutcome_smtpCode {rcpt : String} {err : Option String}
    (h : (rcptOutcome rcpt err).smtpCode = 0) : err = none := by
  rcases err with - | err
  · rfl
  · simp [rcptOutcome, parseSMTPError_ne_zero] at h

theorem rcptAll_spec :
    Spec wire (rcptAll recipients) w fun out w' =>
      Offered recipients w' out.1 ∧ ∀ rcpt ∈ w.accepted, rcpt ∈ w'.accepted := by
  induction recipients generalizing w with
  | nil => exact ⟨⟨rfl, by simp, by simp, by simp⟩, fun _ h => h⟩
  | cons rcpt rest ih =>
    refine ⟨trivial, fun (err : Option String) _ => (spec_grows ih).bind fun out w' hout => ?_⟩
    obtain ⟨⟨hoffered, hkept⟩, hgrows⟩ := hout
    refine ⟨⟨?_, ?_, ?_, ?_⟩, fun r hr => hkept r ?_⟩
    · rw [map_cons, rcptOutcome_recipient, hoffered.recipients_eq]
    · intro o ho
      rcases mem_cons.mp ho with rfl | ho
      · exact rcptOutcome_success rcpt err
      · exact hoffered.pending o ho
    · intro o ho hcode
      rcases mem_cons.mp ho with rfl | ho
      · -- a code of 0 is an accepted RCPT, which the wire has seen
        obtain rfl := rcptOutcome_smtpCode hcode
        exact hkept _ (mem_append_right _ (mem_singleton.mpr rfl))
      · exact hoffered.accepted o ho hcode
    · intro o ho hpermanent
      rcases mem_cons.mp ho with rfl | ho
      · rcases err with - | err
        · cases hpermanent
        · exact hgrows.refused (w.refused_of_permanent hpermanent)
      · exact hoffered.refused o ho hpermanent
    · rcases err with - | err
      · exact mem_append_left _ hr
      · exact hr

variable {outcomes : List RecipientResult} {w' : Wire}

/-- After `fail` every outcome is a failure, and permanent only if the failing
reply was or the one to RCPT. -/
theorem Offered.failed (h : Offered recipients w outcomes) (hgrows : w.Grows w')
    (host err : String) :
    Accounts recipients (w'.refuse (parseSMTPError (some err)).2)
      (transactionFailed { remoteHost := host, recipients := outcomes } err).1
      (transactionFailed { remoteHost := host, recipients := outcomes } err).2 := by
  have hmap : (transactionFailed { remoteHost := host, recipients := outcomes } err).1.recipients.map
      (·.recipient) = recipients := by
    rw [← h.recipients_eq]
    simp only [transactionFailed, map_map]
    apply map_congr_left
    intro o _
    simp only [comp_apply]
    split <;> rfl
  refine ⟨.inr hmap, by simp [transactionFailed], by simp [transactionFailed], ?_, ?_, ?_⟩
  · intro o ho hs
    obtain ⟨o', ho', rfl⟩ := mem_map.mp ho
    split at hs <;> exact absurd ((h.pending o' ho').symm.trans hs) false_ne_true
  · intro o ho hpermanent
    obtain ⟨o', ho', rfl⟩ := mem_map.mp ho
    split at hpermanent
    · exact w'.refused_of_permanent hpermanent
    · exact (w'.grows_refuse _).refused (hgrows.refused (h.refused o' ho' hpermanent))
  · intro hnone hne
    rw [hnone] at hmap
    exact absurd hmap.symm hne

/-- Once DATA is acknowledged, those the server had accepted are delivered. -/
theorem Offered.acknowledged (h : Offered recipients w outcomes) (hgrows : w.Grows w')
    (hack : ∀ rcpt ∈ w.accepted, rcpt ∈ w'.acknowledged) (host : String) (now : Time) :
    Accounts recipients w' (acknowledged { remoteHost := host, recipients := outcomes } now)
      none := by
  have hmap : (EmailService.acknowledged { remoteHost := host, recipients := outcomes }
      now).recipients.map (·.recipient) = recipients := by
    rw [← h.recipients_eq]
    simp only [EmailService.acknowledged, map_map]
    apply map_congr_left
    intro o _
    simp only [comp_apply]
    split <;> rfl
  refine ⟨.inr hmap, by simp [EmailService.acknowledged], fun _ => hmap, ?_, ?_, ?_⟩
  · intro o ho hs
    obtain ⟨o', ho', rfl⟩ := mem_map.mp ho
    by_cases hcode : o'.smtpCode = 0
    · rw [if_pos hcode]
      exact hack _ (h.accepted o' ho' hcode)
    · rw [if_neg hcode, h.pending o' ho'] at hs
      cases hs
  · intro o ho hpermanent
    obtain ⟨o', ho', rfl⟩ := mem_map.mp ho
    apply hgrows.refused (h.refused o' ho' _)
    split at hpermanent <;> exact hpermanent
  · intro hnone hne
    rw [hnone] at hmap
    exact absurd hmap.symm hne

theorem smtpTransaction_spec (host : String) :
    Spec wire (smtpTransaction host sender recipients message) w fun out w' =>
      Accounts recipients w' out.1 out.2 := by
  refine ⟨trivial, fun (err : Option String) _ => ?_⟩
  rcases err with - | err
  swap; · exact Accounts.of_failure rfl rfl fun h => Wire.refused_of_permanent _ h
  refine rcptAll_spec.bind fun out w₁ hout => ?_
  obtain ⟨outcomes, accepted⟩ := out
  have hoffered : Offered recipients w₁ outcomes := hout.1
  dsimp only
  split
  · -- nobody was accepted
    refine ⟨.inr hoffered.recipients_eq, by simp [noneAccepted], by simp [noneAccepted], ?_,
      hoffered.refused, ?_⟩
    · intro o ho hs
      rw [hoffered.pending o ho] at hs
      cases hs
    · intro hnone hne
      have hmap := hoffered.recipients_eq
      rw [show outcomes = [] from hnone] at hmap
      exact absurd hmap.symm hne
  · refine ⟨trivial, fun (err : Option String) _ => ?_⟩
    rcases err with - | err
    swap; · exact hoffered.failed (.refl w₁) host err
    refine ⟨trivial, fun (err : Option String) _ => ?_⟩
    rcases err with - | err
    swap; · exact hoffered.failed (w₁.grows_refuse _) host err
    have hgrows := (w₁.grows_refuse false).trans (Wire.grows_refuse _ false)
    refine ⟨trivial, fun (err : Option String) _ => ?_⟩
    rcases err with - | err
    swap; · exact hoffered.failed hgrows host err
    refine ⟨trivial, fun (now : Time) _ => ?_⟩
    refine hoffered.acknowledged (hgrows.trans ?_) (fun rcpt h => ?_) host now
    · exact Wire.grows_track _ .closeData none
    · exact mem_append_right _ h

theorem deliverRoute_spec (last : Option String) (hops : List NextHop) :
    Spec wire (deliverRoute sender recipients message last hops) w fun out w' =>
      Accounts recipients w' out.1 out.2 := by
  induction hops generalizing w last with
  | nil => exact .of_failure rfl rfl nofun
  | cons hop hops ih =>
    refine ⟨trivial, fun (err : Option String) _ => ?_⟩
    rcases err with - | err
    · refine (smtpTransaction_spec _).bind fun out w' hout => ?_
      obtain ⟨result, err⟩ := out
      dsimp only
      split
      · exact hout
      · exact ih err
    · exact ih (some err)

theorem deliverToMX_spec (mxHost : String) :
    Spec wire (deliverToMX mxHost sender recipients message) w fun out w' =>
      Accounts recipients w' out.1 out.2 := by
  refine ⟨trivial, fun (err : Option String) _ => ?_⟩
  rcases err with - | err
  · exact smtpTransaction_spec _
  · exact .of_failure rfl rfl nofun

/-- `Accounts`, where a missing result goes with an error. -/
def Reports (recipients : List String) (w : Wire) (out : Option DeliveryResult × Option String) :
    Prop :=
  match out.1 with
  | some result => Accounts recipients w result out.2
  | none => out.2 ≠ none

theorem attemptMX_spec (mx : MX) (enforce : Except String Bool) :
    Spec wire (attemptMX mx sender recipients message enforce) w fun out w' =>
      Reports recipients w' out := by
  rcases enforce with err | - | -
  · exact Option.some_ne_none err
  · exact (deliverToMX_spec _).bind fun out w' hout => hout
  · exact (deliverRoute_spec _ _).bind fun out w' hout => hout

/-- Whatever the loop over the MX hosts returns is one host's report, or a
failure of all of them. -/
theorem tryMXs_spec (D : MailDelivery) (domain : String) (last : Option String) (mxs : List MX) :
    Spec wire (tryMXs D domain sender recipients message last mxs) w fun out w' =>
      Reports recipients w' out := by
  induction mxs generalizing w last with
  | nil => exact Accounts.of_failure rfl rfl nofun
  | cons mx mxs ih =>
    have hask : Spec wire (if D.sts then shouldEnforceTLS domain mx.host else pure (.ok false)) w
        fun _ _ => True := by
      split
      · exact ⟨trivial, fun _ _ => trivial⟩
      · trivial
    refine hask.bind fun enforce w₁ _ => (attemptMX_spec mx enforce).bind fun out w' hout => ?_
    obtain ⟨result, err⟩ := out
    dsimp only
    split
    · next h =>
      obtain ⟨rfl, -⟩ := h
      exact hout
    · split
      · exact hout
      · exact ih err

theorem deliverToDomain_spec (U : CaseTables) (D : MailDelivery) (domain : String) :
    Spec wire (deliverToDomain U D domain sender recipients message) w fun out w' =>
      Reports recipients w' out := by
  unfold deliverToDomain
  split
  · exact (deliverRoute_spec _ _).bind fun out w' hout => hout
  · refine ⟨trivial, fun (mxs : Except DNSFailure (List MX)) _ => ?_⟩
    rcases mxs with e | mxs
    · exact .of_failure rfl rfl fun h => w.refused_of_permanent h
    · exact tryMXs_spec D domain none _

/-- Outcomes that claim no more than the wire has seen. -/
def Grounded (w : Wire) (outcomes : List RecipientResult) : Prop :=
  ∀ o ∈ outcomes, (o.success = true → o.recipient ∈ w.acknowledged) ∧
    (o.isPermanent = true → w.refused = true)

theorem Grounded.mono (h : Grounded w outcomes) (hgrows : w.Grows w') : Grounded w' outcomes :=
  fun o ho => ⟨fun hs => hgrows.acknowledged _ ((h o ho).1 hs),
    fun hp => hgrows.refused ((h o ho).2 hp)⟩

/-- The outcomes `Deliver` takes over from one domain: one for each of its
recipients, and grounded. -/
theorem domainResult_outcomes {out : Option DeliveryResult × Option String}
    (h : Reports recipients w out) :
    (domainResult recipients out.1).recipients.map (·.recipient) = recipients ∧
      Grounded w (domainResult recipients out.1).recipients := by
  obtain ⟨result, err⟩ := out
  rcases result with - | result
  · refine ⟨by simp [domainResult, comp_def], fun o ho => ?_⟩
    obtain ⟨rcpt, -, rfl⟩ := mem_map.mp ho
    exact ⟨fun h => absurd h false_ne_true, fun h => absurd h false_ne_true⟩
  · have h : Accounts recipients w result err := h
    by_cases hnone : result.recipients = []
    · refine ⟨by simp [domainResult, hnone, comp_def], ?_⟩
      simp only [domainResult, Option.getD_some, if_pos hnone]
      intro o ho
      obtain ⟨rcpt, hrcpt, rfl⟩ := mem_map.mp ho
      have hne : recipients ≠ [] := ne_nil_of_mem hrcpt
      refine ⟨fun hs => absurd ?_ hne, h.refused_all hnone hne⟩
      rw [← h.delivered hs, hnone]
      rfl
    · simp only [domainResult, Option.getD_some, if_neg hnone]
      exact ⟨h.outcomes.resolve_left hnone, fun o ho => ⟨h.acknowledged o ho, h.refused o ho⟩⟩

end Accounting

/-! ### Every recipient is in one group -/

theorem addressDomain_isSome (address : String) :
    (addressDomain address).isSome = true ↔ address.toList.count '@' = 1 := by
  have hlen := length_split address '@'
  unfold addressDomain
  split
  · next h =>
    rw [h] at hlen
    simpa using hlen.symm
  · next h =>
    simp only [Option.isSome_none, false_eq_true, false_iff]
    intro hcount
    rw [hcount] at hlen
    obtain ⟨a, b, hab⟩ := length_eq_two.mp hlen
    exact h a b hab

/-- The keys are distinct, only keys have members, and the groups together are
`xs` up to order. -/
structure Groups.Partition {γ : Type} (g : Groups γ) (xs : List γ) : Prop where
  nodup : g.keys.Nodup
  empty : ∀ key, key ∉ g.keys → g.members key = []
  perm : (g.keys.flatMap g.members).Perm xs

variable {γ : Type}

theorem flatMap_update_of_notMem {f : String → List γ} {keys : List String} {key : String}
    (h : key ∉ keys) (members : List γ) :
    keys.flatMap (update f key members) = keys.flatMap f := by
  apply flatMap_congr
  intro k hk
  have hne : k ≠ key := fun heq => h (heq ▸ hk)
  exact update_of_ne hne _ _

theorem Groups.Partition.add {g : Groups γ} {xs : List γ} (h : g.Partition xs) (key : String)
    (x : γ) : (g.add key x).Partition (xs ++ [x]) := by
  unfold Groups.add
  by_cases hkey : key ∈ g.keys
  · simp only [if_pos hkey]
    refine ⟨h.nodup, fun k hk => ?_, ?_⟩
    · have hne : k ≠ key := fun heq => hk (heq ▸ hkey)
      simpa only [update_of_ne hne] using h.empty k hk
    · -- the group of `key` lies between those before it and those after it
      obtain ⟨before, after, hkeys⟩ := append_of_mem hkey
      have hnodup := h.nodup
      have hperm := h.perm
      simp only [hkeys] at hnodup hperm ⊢
      obtain ⟨-, hafter, hdisjoint⟩ := nodup_append.mp hnodup
      have hb : key ∉ before := fun hmem => hdisjoint _ hmem _ mem_cons_self rfl
      have ha : key ∉ after := (nodup_cons.mp hafter).1
      rw [flatMap_append, flatMap_cons] at hperm ⊢
      rw [flatMap_update_of_notMem hb, flatMap_update_of_notMem ha, update_self]
      have hmove : ∀ a b c : List γ, (a ++ ((b ++ [x]) ++ c)).Perm ((a ++ (b ++ c)) ++ [x]) := by
        intro a b c
        simp only [append_assoc]
        exact ((perm_append_comm).append_left b).append_left a
      exact (hmove _ _ _).trans (hperm.append_right _)
  · simp only [if_neg hkey]
    refine ⟨?_, fun k hk => ?_, ?_⟩
    · exact nodup_append.mpr ⟨h.nodup, nodup_singleton _, by
        rintro a ha b hb rfl
        exact hkey (mem_singleton.mp hb ▸ ha)⟩
    · have hne : k ≠ key := by
        rintro rfl
        exact hk (mem_append_right _ (mem_singleton.mpr rfl))
      have hold : k ∉ g.keys := fun hmem => hk (mem_append_left _ hmem)
      simpa only [update_of_ne hne] using h.empty k hold
    · show ((g.keys ++ [key]).flatMap (update g.members key _)).Perm _
      rw [flatMap_append, flatMap_update_of_notMem hkey, flatMap_singleton,
        update_self, h.empty key hkey]
      exact h.perm.append_right _

theorem groupByDomain_partition (U : CaseTables) (recipients : List String) :
    (groupByDomain U recipients).Partition
      (recipients.filter fun rcpt => (addressDomain rcpt).isSome) := by
  unfold groupByDomain
  induction recipients using reverseRecOn with
  | nil => exact ⟨nodup_nil, fun _ _ => rfl, .refl _⟩
  | append_singleton recipients rcpt ih =>
    rw [foldl_append, filter_append]
    rcases hd : addressDomain rcpt with - | domain
    · simpa [hd] using ih
    · simpa [hd] using ih.add (toLower U domain) rcpt

/-! ### `Deliver` -/

section Deliver

variable {U : CaseTables} {D : MailDelivery} {w : Wire} {sender : String} {message : List UInt8}
  {aggregate result : DeliveryResult} {recipients : List String} {err : Option String}

theorem deliverDomains_spec {groups : Groups String} {failures domains : List String}
    (hagg : Grounded w aggregate.recipients) :
    Spec wire (deliverDomains U D sender message groups aggregate failures domains) w
      fun out w' => out.1.success = aggregate.success ∧
        out.1.recipients.map (·.recipient) =
          aggregate.recipients.map (·.recipient) ++ domains.flatMap groups.members ∧
        Grounded w' out.1.recipients := by
  induction domains generalizing w aggregate failures with
  | nil => exact ⟨rfl, by simp, hagg⟩
  | cons domain domains ih =>
    refine (spec_grows (deliverToDomain_spec U D domain)).bind fun out w' hout => ?_
    obtain ⟨hreport, hgrows⟩ := hout
    obtain ⟨hmap, hgrounded⟩ := domainResult_outcomes hreport
    refine (ih ?_).mono fun out' w'' h => ⟨h.1, ?_, h.2.2⟩
    · intro o ho
      rcases mem_append.mp ho with ho | ho
      · exact hagg.mono hgrows o ho
      · exact hgrounded o ho
    · rw [h.2.1, map_append, hmap, flatMap_cons, append_assoc]

/-- What `Deliver` returns for a recipient list: one outcome for each address
with a domain, in some order; success just if all of these are delivered; and
the outcomes are grounded in what the servers said. -/
structure Complete (recipients : List String) (w : Wire) (result : DeliveryResult)
    (err : Option String) : Prop where
  outcomes : (result.recipients.map (·.recipient)).Perm
    (recipients.filter fun rcpt => (addressDomain rcpt).isSome)
  success_iff : result.success = true ↔ ∀ o ∈ result.recipients, o.success = true
  err_iff : err = none ↔ result.success = true
  grounded : Grounded w result.recipients

theorem Complete.mono {w' : Wire} (h : Complete recipients w result err) (hgrows : w.Grows w') :
    Complete recipients w' result err :=
  { h with grounded := h.grounded.mono hgrows }

/-- The summary leaves the outcomes alone and counts the failures. -/
theorem summarize_eq (hsuccess : aggregate.success = true) (failures : List String) :
    (summarize aggregate failures).1.recipients = aggregate.recipients ∧
      ((summarize aggregate failures).1.success = true ↔
        ∀ o ∈ aggregate.recipients, o.success = true) ∧
      ((summarize aggregate failures).2 = none ↔
        (summarize aggregate failures).1.success = true) := by
  have hfailed : aggregate.recipients.filter (!·.success) = [] ↔
      ∀ o ∈ aggregate.recipients, o.success = true := by
    simp [filter_eq_nil_iff]
  by_cases h : aggregate.recipients.filter (!·.success) = []
  · simp only [summarize, h, ne_eq, not_true_eq_false, if_false]
    exact ⟨trivial, iff_of_true hsuccess (hfailed.mp h), iff_of_true trivial hsuccess⟩
  · simp only [summarize, ne_eq, h, not_false_eq_true, if_true]
    exact ⟨trivial, iff_of_false (by simp) (fun hall => h (hfailed.mpr hall)), by simp⟩

theorem deliver_spec (hne : recipients ≠ []) :
    Spec wire (deliver U D sender recipients message) w fun out w' =>
      ∃ result, out.1 = some result ∧ Complete recipients w' result out.2 := by
  unfold deliver
  rw [if_neg hne]
  have hpart := groupByDomain_partition U recipients
  refine ⟨trivial, fun (order : { order : List String // _ }) _ => ?_⟩
  refine (deliverDomains_spec (by simp [Grounded])).bind fun out w' hout => ?_
  obtain ⟨hsuccess, hmap, hgrounded⟩ := hout
  obtain ⟨hrecipients, hall, herr⟩ := summarize_eq (hsuccess.trans rfl) out.2
  refine ⟨(summarize out.1 out.2).1, rfl, ?_, ?_, herr, ?_⟩
  · rw [hrecipients, hmap]
    exact (order.2.flatMap_right _).trans hpart.perm
  · rw [hrecipients]
    exact hall
  · rw [hrecipients]
    exact hgrounded

/-- A delivery that reports success was acknowledged for every address it was
given. -/
theorem Complete.acknowledged_of_success (h : Complete recipients w result err)
    (hsuccess : result.success = true) {rcpt : String} (hrcpt : rcpt ∈ recipients)
    (hdomain : (addressDomain rcpt).isSome) : rcpt ∈ w.acknowledged := by
  have hmem : rcpt ∈ result.recipients.map (·.recipient) :=
    h.outcomes.mem_iff.mpr (mem_filter.mpr ⟨hrcpt, hdomain⟩)
  obtain ⟨o, ho, rfl⟩ := mem_map.mp hmem
  exact (h.grounded o ho).1 (h.success_iff.mp hsuccess o ho)

/-- **Against any surroundings**, `Deliver` accounts for the recipients it was
given. -/
theorem deliver_accounts (hne : recipients ≠ []) (surroundings : Strategy netSignature) :
    ∃ result, ((deliver U D sender recipients message).play surroundings []).2.1 = some result ∧
      Complete recipients
        (wire.observe {} ((deliver U D sender recipients message).play surroundings []).1) result
        ((deliver U D sender recipients message).play surroundings []).2.2 :=
  (deliver_spec hne).play (fun _ _ _ => trivial) surroundings []

end Deliver

end EmailService
