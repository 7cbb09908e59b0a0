/-
EmailService/Queue.lean

The queue manager (internal/smtpd/queue.go, retry.go, dsn.go, compliance.go,
operations.go, sieve_actions.go, jmap.go): acceptance of messages, their
delivery by workers, notifications, and the retry scheduler.

Every function is a program over `queueSignature`.  The message store, the
tier channels, the clock, the network, the mailboxes and the library code on
message contents are the surroundings.  Logging, metrics and the event index
are left out, except that the two clock readings around a delivery attempt
(`beginAttempt`, `endAttempt`) mark where the attempt starts and how it ended.

Two things are coarser than the source.  The mutex that serialises Sieve
effects is not modelled, so that more interleavings are allowed; and of
`sieveVacation` the decisions that only look at message headers are one
question.
-/
import EmailService.Message

namespace EmailService

open GoStrings Program

/-! ### The surroundings -/

/-- What `uuid.NewString()` returns: hexadecimal digits and hyphens. -/
def UUID : Type :=
  { s : String // s.toList.length = 36 ∧ ∀ c ∈ s.toList, c ∈ "0123456789abcdef-".toList }

/-- `bounce.BounceReason`. -/
structure BounceReason where
  action : String := ""
  envelopeID : String := ""
  originalRecipient : String := ""
  returnFull : Bool := false
  smtpCode : ℤ
  message : String
  isPermanent : Bool := false
  remoteHost : String := ""
  recipient : String

/-- What `os.ReadFile` says about a Sieve script. -/
inductive ScriptFile
  | found (script : String)
  | missing
  | failed (err : String)

/-- How the `select` of `enqueueToChannel` ends. -/
inductive SendReply
  | sent
  | full
  | shutdown

/-- A vacation reply: where it goes, its text, and its handle. -/
structure VacationReply where
  address : String
  data : List UInt8
  handle : String

inductive QueueQuery
  | net (q : NetQuery)
  | store (op : Op)
  | get (id : String)
  | listByStatus (status tier : String)
  | audit (actor action id : String)
  | send (ch : Channel) (msg : Message)
  | now
  | uuid
  /-- `StormGuard.Blocked` -/
  | blocked (key : String)
  /-- `limiter.Wait` -/
  | wait (tier : String)
  /-- the three calls of the destination throttle -/
  | acquire (domain : String)
  | release (domain : String)
  | observe (domain : String) (success temporary : Bool)
  | beginAttempt (id rcpt : String)
  | endAttempt (id rcpt : String) (err : Option String)
  /-- `users.Recipient`: the user name of the account -/
  | recipient (address : String)
  | readScript (username : String)
  /-- the error of `policy.NewEmailContext` -/
  | emailContext (msg : Message) (rcpt : String)
  | evaluateSieve (script : String) (msg : Message) (rcpt : String)
  /-- `DeliverOnceWithFlags` -/
  | deliverOnce (key user folder : String) (data : List UInt8) (flags : List String)
  /-- `signOutbound`; nothing if no signer applies -/
  | sign (msg : Message)
  | generateBounce (originalFrom : String) (reason : BounceReason) (data : List UInt8)
  /-- `bounce.ParseReport`, and the reports encoded if there are any -/
  | parseReport (data : List UInt8)
  /-- the data of a Sieve redirect -/
  | redirectCopy (data : List UInt8)
  | vacationReply (msg : Message) (user rcpt : String) (v : Vacation)
  /-- the scans of `ReleaseHeld` -/
  | scan (entry : JournalEntry)
  /-- `sort.Slice` by creation, which need not be stable -/
  | sortByCreation (entries : List JournalEntry)

def QueueQuery.Reply : QueueQuery → Type
  | net q => q.Reply
  | store _ => Except String Answer
  | get _ => Except String JournalEntry
  | listByStatus .. => List JournalEntry
  | audit .. => Option String
  | send .. => SendReply
  | now => Time
  | uuid => UUID
  | blocked _ => Bool
  | wait _ => Option String
  | acquire _ => Bool
  | release _ => Unit
  | observe .. => Unit
  | beginAttempt .. => Unit
  | endAttempt .. => Unit
  | recipient _ => Option String
  | readScript _ => ScriptFile
  | emailContext .. => Option String
  | evaluateSieve .. => Except String SieveAction
  | deliverOnce .. => Except String String
  | sign _ => Except String (Option (List UInt8))
  | generateBounce .. => Except String (List UInt8)
  | parseReport _ => Except String (Option String)
  | redirectCopy _ => Except String (List UInt8)
  | vacationReply .. => Except String (Option VacationReply)
  | scan _ => Option String
  | sortByCreation entries =>
    { l : List JournalEntry // l.Perm entries ∧ l.Pairwise fun a b => a.createdAt ≤ b.createdAt }

def queueSignature : Signature := ⟨QueueQuery, QueueQuery.Reply⟩

/-- Programs of the queue manager. -/
abbrev Queue := Program queueSignature

/-- The questions to the network are questions of the queue manager. -/
def netInclusion : Inclusion netSignature queueSignature where
  query := QueueQuery.net
  replies _ := Equiv.refl _

def askStore (op : Op) : Queue (Except String Answer) :=
  query (S := queueSignature) (.store op)
def askGet (id : String) : Queue (Except String JournalEntry) :=
  query (S := queueSignature) (.get id)
def askAudit (actor action id : String) : Queue (Option String) :=
  query (S := queueSignature) (.audit actor action id)
def askNow : Queue Time := query (S := queueSignature) .now
def askUUID : Queue UUID := query (S := queueSignature) .uuid

/-- `store.UpdateStatus`. -/
def setStatus (id status errorMsg : String) : Queue (Except String Answer) :=
  askStore (.updateStatus id status errorMsg)

/-- `ok, err := store.Transition(..); err == nil && ok`. -/
def tryTransition (id fromStatus toStatus : String) : Queue Bool := do
  match ← askStore (.transition id fromStatus toStatus) with
  | .ok (.flag true) => pure true
  | _ => pure false

/-- The error of a store call. -/
def storeError : Except String Answer → Option String
  | .error err => some err
  | .ok _ => none

/-- `errors.Join`. -/
def joinErr : Option String → Option String → Option String
  | none, err => err
  | err, none => err
  | some err, some err' => some (err ++ "\n" ++ err')

theorem joinErr_eq_none {err err' : Option String} :
    joinErr err err' = none ↔ err = none ∧ err' = none := by
  cases err <;> cases err' <;> simp [joinErr]

/-! ### Channels -/

/-- `enqueueToChannel`; its error is always nil. -/
def enqueueToChannel (tier : String) (msg : Message) : Queue Unit := do
  match ← query (S := queueSignature) (.send (channelForTier tier) msg) with
  | .sent => pure ()
  | .full => do
      let _ ← setStatus msg.id "pending" "queue channel full"
      pure ()
  | .shutdown => do
      let _ ← setStatus msg.id "pending" "queue shutting down"
      pure ()

/-- Take a pending message over and put it on its channel. -/
def handOver (tier : String) (msg : Message) : Queue Unit := do
  if ← tryTransition msg.id "pending" "queued" then enqueueToChannel tier msg else pure ()

/-! ### Compliance -/

namespace QueueManager

variable (qm : QueueManager) (msg : Message)

/-- The metadata of a captured message. -/
def captureMetadata (r : Rule) (encoded : String) (retainUntil : Option Time) : Metadata :=
  let metadata : Metadata := (((((((∅ : Metadata).insert "compliance" "true").insert
    "rule" r.name).insert "domain" (toLower qm.tables r.domain)).insert
    "mode" r.mode.text).insert "legal_hold" (toString r.legalHold)).insert
    "source_id" msg.id).insert "message" encoded
  let metadata := metadata.insert "evidence_sha256"
    (qm.ext.evidenceHash msg.fromAddr msg.toAddrs msg.data)
  match retainUntil with
  | none => metadata
  | some t => metadata.insert "retain_until" (qm.ext.formatRFC3339Nano t)

/-- `captureCompliance`. -/
def captureCompliance (r : Rule) : Queue (Option String) :=
  match qm.codec.marshalMessage { msg with data := [] } with
  | .error err => pure (some err)
  | .ok encoded => do
      -- no retention value means indefinite preservation
      let retainUntil ← (if 0 < r.retention then do
          let now ← askNow
          pure (some (now + r.retention))
        else pure none)
      let id ← askUUID
      let digest := qm.ext.evidenceHash msg.fromAddr msg.toAddrs msg.data
      match ← askAudit ("compliance:" ++ r.name) ("capture_requested:" ++ digest) id.1 with
      | some err => pure (some err)
      | none => do
          let entry : JournalEntry :=
            { messageID := id.1
              fromAddr := msg.fromAddr
              toAddrs := msg.toAddrs
              data := msg.data
              tier := "compliance"
              status := "compliance"
              metadata := qm.captureMetadata msg r encoded retainUntil }
          let r ← askStore (.storeWithReceipt entry [none])
          pure (storeError r)

/-- The loop of `applyCompliance` over the rules that leave the message in
delivery; a BCC rule adds a recipient unless the message is held. -/
def applyRules (qm : QueueManager) (held : Bool) : Message → List Rule →
    Queue (Except String Message)
  | msg, [] => pure (.ok msg)
  | msg, r :: rules => do
      if r.takesCustody then applyRules qm held msg rules
      else if r.mode = .bcc then
        let found := msg.toAddrs.any fun rcpt => equalFold qm.tables rcpt r.bcc
        let msg :=
          if !held && !found then { msg with toAddrs := msg.toAddrs ++ [r.bcc] } else msg
        match ← askAudit ("compliance:" ++ r.name) "bcc_policy_applied" msg.id with
        | some err => pure (.error err)
        | none => applyRules qm held msg rules
      else
        match ← qm.captureCompliance msg r with
        | some err => pure (.error err)
        | none => applyRules qm held msg rules

/-- `applyCompliance`: whether the message is held, and the message as the
rules leave it. -/
def applyCompliance : Queue (Except String (Bool × Message)) :=
  if msg.complianceBypass then pure (.ok (false, msg))
  else do
    let rules := evaluate qm.tables qm.rules msg.fromAddr msg.toAddrs
    let held := rules.any (·.takesCustody)
    let captured ← (match combineRules qm.tables rules with
      | none => pure none
      | some combined => qm.captureCompliance msg combined)
    match captured with
    | some err => pure (.error err)
    | none =>
      match ← qm.applyRules held msg rules with
      | .error err => pure (.error err)
      | .ok msg => pure (.ok (held, msg))

/-! ### Acceptance -/

/-- `finalizeReceipt`: the receipt of a submission that needs no schedule. -/
def finalizeReceipt (qm : QueueManager) :
    Option JournalEntry → Queue (Except String (Option JournalEntry))
  | none => pure (.ok none)
  | some receipt =>
    if receipt.tier ≠ "jmap_submission" then pure (.ok (some receipt))
    else
      match qm.ext.unmarshalSubmission (receipt.meta "submission") with
      | .error err => pure (.error err)
      | .ok sub => do
          let now ← askNow
          let sub := { sub with undoStatus := "final", sendAt := qm.ext.formatRFC3339 now }
          match qm.ext.marshalSubmission sub with
          | .error err => pure (.error err)
          | .ok encoded =>
            pure (.ok (some { receipt with
              metadata := receipt.metadata.insert "submission" encoded }))

/-- `persistSubmissionReceipt`. -/
def persistSubmissionReceipt : Queue (Option String) :=
  match msg.submissionReceipt with
  | none => pure none
  | some _ => do
      match ← qm.finalizeReceipt msg.submissionReceipt with
      | .error err => pure (some err)
      | .ok none => pure none
      | .ok (some receipt) => do
          let r ← askStore (.storeWithReceipt receipt (msg.extraReceipts.map some))
          pure (storeError r)

/-- The bounce reports an incoming message carries are stored. -/
def trackReports : Queue (Option String) :=
  if qm.trackIncoming && !msg.isBounce then do
    match ← query (S := queueSignature) (.parseReport msg.data) with
    | .error err => pure (some err)
    | .ok none => pure none
    | .ok (some reports) => do
        let id ← askUUID
        let entry : JournalEntry :=
          { messageID := id.1
            tier := "bounce_reports"
            status := "bounce_report"
            metadata := (((∅ : Metadata).insert "source_id" msg.id).insert
              "reports" reports).insert "trusted" "false" }
        let r ← askStore (.storeWithReceipt entry [none])
        pure (storeError r)
  else pure none

/-- A JMAP receipt names the queue entry it belongs to. -/
def linkReceipt (msg : Message) : Option JournalEntry :=
  msg.submissionReceipt.map fun receipt =>
    if receipt.tier = "jmap_submission" then
      { receipt with metadata := receipt.metadata.insert "queue_id" msg.id }
    else receipt

/-- The entry `Enqueue` stores for a message. -/
def acceptedEntry (msg : Message) (encoded : String) : JournalEntry :=
  let metadata : Metadata :=
    ((∅ : Metadata).insert "message" encoded).insert "client_ip" msg.clientIP
  let jmap := msg.submissionReceipt.filter fun receipt => receipt.tier = "jmap_submission"
  let metadata :=
    match jmap with
    | none => metadata
    | some receipt => metadata.insert "receipt_id" receipt.messageID
  let scheduled := jmap.isSome && msg.sendAt ≠ zeroTime
  { messageID := msg.id
    fromAddr := msg.fromAddr
    toAddrs := msg.toAddrs
    data := msg.data
    tier := msg.tier
    status := if scheduled then "scheduled" else if msg.quarantine then "held" else ""
    metadata :=
      if scheduled && msg.quarantine then metadata.insert "after_schedule" "held" else metadata }

/-- The part of `Enqueue` after the compliance rules. -/
def accept : Queue (Option String) := do
  let traceID ← (if msg.traceID = "" then do
      let id ← askUUID
      pure ("trace_" ++ id.1)
    else pure msg.traceID)
  let contentHash :=
    if msg.contentHash = "" then qm.codec.contentHash msg.data else msg.contentHash
  let msg := { msg with traceID := traceID, contentHash := contentHash }
  match qm.codec.marshalMessage { msg with data := [], toAddrs := [] } with
  | .error err => pure (some err)
  | .ok encoded => do
      let entry := acceptedEntry msg encoded
      let receipt := linkReceipt msg
      let finalized ← (if msg.quarantine && entry.status ≠ "scheduled" then
          qm.finalizeReceipt receipt
        else pure (.ok receipt))
      match finalized with
      | .error err => pure (some err)
      | .ok receipt =>
        match ← askStore (.storeWithReceipt entry (msg.extraReceipts.map some ++ [receipt])) with
        | .error err => pure (some ("failed to store message: " ++ err))
        | .ok _ =>
          if msg.quarantine || entry.status = "scheduled" then pure none
          else do
            handOver msg.tier msg
            pure none

/-- `Enqueue`. -/
def enqueue : Queue (Option String) := do
  let id ← (if msg.id = "" then do
      let id ← askUUID
      pure id.1
    else pure msg.id)
  let msg := { msg with id := id }
  if msg.sendAt ≠ zeroTime ∧
      !(evaluate qm.tables qm.rules msg.fromAddr msg.toAddrs).isEmpty then
    pure (some "delayed submission conflicts with compliance custody rules")
  else
    match ← qm.applyCompliance msg with
    | .error err => pure (some ("compliance preservation failed: " ++ err))
    | .ok (true, msg) => qm.persistSubmissionReceipt msg
    | .ok (false, msg) =>
      match ← qm.trackReports msg with
      | some err => pure (some err)
      | none => qm.accept msg

/-! ### Notifications -/

/-- `sendDSN`. -/
def sendDSN (recipient event action : String) : Queue (Option String) :=
  if qm.suppress || msg.isBounce || msg.nullSender || !msg.wantsDSN recipient event then
    pure none
  else do
    let key := qm.codec.noticeKey event recipient
    match ← askGet msg.id with
    | .error err => pure (some err)
    | .ok source =>
      if source.meta ("notice:" ++ key) ≠ "" then pure none
      else do
        let reason : BounceReason :=
          { action := action
            envelopeID := msg.dsnMail.envelopeID
            originalRecipient := (msg.dsnRecipients recipient).originalRecipient
            smtpCode := if event = "DELAY" then 451 else 250
            message := "Delivery " ++ action
            recipient := recipient }
        match ← query (S := queueSignature) (.generateBounce msg.fromAddr reason msg.data) with
        | .error err => pure (some err)
        | .ok raw => do
            let id ← askUUID
            let now ← askNow
            let notice : Message :=
              { id := id.1
                toAddrs := [msg.fromAddr]
                data := raw
                tier := tierEmergency
                isBounce := true
                createdAt := now }
            match ← qm.applyCompliance notice with
            | .error err => pure (some err)
            | .ok (held, notice) =>
              match qm.codec.marshalMessage { notice with data := [] } with
              | .error err => pure (some err)
              | .ok encoded => do
                  let child : JournalEntry :=
                    { messageID := notice.id
                      toAddrs := notice.toAddrs
                      data := if held then [] else raw
                      tier := "emergency"
                      status := if held then "delivered" else "pending"
                      createdAt := notice.createdAt
                      metadata := (∅ : Metadata).insert "message" encoded }
                  match ← askStore (.storeNotification msg.id key child) with
                  | .error err => pure (some err)
                  | .ok (.flag true) =>
                    if held then pure none
                    else do
                      handOver tierEmergency notice
                      pure none
                  | .ok _ => pure none

/-- The loop of `sendDSN` calls over the recipients, up to the first error. -/
def sendDSNs (qm : QueueManager) (msg : Message) (event action : String) :
    List String → Queue (Option String)
  | [] => pure none
  | rcpt :: rest => do
      match ← qm.sendDSN msg rcpt event action with
      | some err => pure (some err)
      | none => sendDSNs qm msg event action rest

/-- The loop of `generateBounce`: one bounce for each recipient whose failure
the sender wants to hear of. -/
def bounceEach (qm : QueueManager) (msg : Message) (result : DeliveryResult) :
    List String → Queue (Option String)
  | [] => pure none
  | rcpt :: rest =>
    if !msg.wantsDSN rcpt "FAILURE" then bounceEach qm msg result rest
    else do
      let reason : BounceReason :=
        { envelopeID := msg.dsnMail.envelopeID
          originalRecipient := (msg.dsnRecipients rcpt).originalRecipient
          returnFull := msg.dsnMail.returnFull
          smtpCode := result.smtpCode
          message := result.message
          isPermanent := result.isPermanent
          remoteHost := result.remoteHost
          recipient := rcpt }
      match ← query (S := queueSignature) (.generateBounce msg.fromAddr reason msg.data) with
      | .error err => pure (some err)
      | .ok raw => do
          let now ← askNow
          let bounce : Message :=
            { toAddrs := [msg.fromAddr]
              data := raw
              createdAt := now
              tier := tierEmergency
              parentTraceID := msg.traceID
              isBounce := true }
          match ← qm.enqueue bounce with
          | some err => pure (some err)
          | none => bounceEach qm msg result rest

variable (result : DeliveryResult)

/-- `generateBounce`. -/
def generateBounce (recipients : List String) : Queue (Option String) :=
  if qm.suppress then askAudit "system" "bounce_suppressed_by_configuration" msg.id
  -- no bounce to a null sender, and none for a bounce
  else if msg.nullSender then pure none
  else if msg.isBounce then pure none
  else qm.bounceEach msg result recipients

/-! ### Sieve -/

/-- Enqueue a child with its marker and, from now on, its interval record. -/
def enqueueStamped (qm : QueueManager) (child : Message) (marker : JournalEntry)
    (interval : String) (expiry : Time) (user : String) : Queue (Option String) := do
  let now ← askNow
  let stamp := sieveRecord interval (((∅ : Metadata).insert
    "until" (qm.ext.formatRFC3339Nano expiry)).insert "username" user) now
  qm.enqueue { child with extraReceipts := [stamp], submissionReceipt := some marker }

/-- `enqueueSieveOnce`; `interval` is empty if there is none. -/
def enqueueSieveOnce (qm : QueueManager) (child : Message) (key interval : String)
    (expiry : Time) (source user : String) : Queue (Option String) := do
  match ← askGet key with
  | .ok _ => pure none
  | .error _ => do
      let now ← askNow
      let marker := sieveRecord key
        (((∅ : Metadata).insert "source_id" source).insert "username" user) now
      if interval = "" then qm.enqueue { child with submissionReceipt := some marker }
      else
        match ← askGet interval with
        | .error _ => qm.enqueueStamped child marker interval expiry user
        | .ok old =>
          match qm.ext.parseRFC3339Nano (old.meta "until") with
          | .error err => pure (some err)
          | .ok expires => do
              let now ← askNow
              if now < expires then do
                let r ← askStore (.storeWithReceipt marker [none])
                pure (storeError r)
              else
                match ← setStatus interval "delivered" "" with
                | .error err => pure (some err)
                | .ok _ => qm.enqueueStamped child marker interval expiry user

variable (user : String) (rcpt : String)

/-- `sieveVacation`. -/
def sieveVacation :
    Option Vacation → Queue (Option String)
  | none => pure (some "missing vacation settings")
  | some v =>
    if msg.quarantine || msg.nullSender || msg.isBounce then pure none
    else do
      match ← query (S := queueSignature) (.vacationReply msg user rcpt v) with
      | .error err => pure (some err)
      | .ok none => pure none
      | .ok (some reply) => do
          let now ← askNow
          let key := sieveKey qm.codec ["vacation", msg.id, user, reply.handle]
          let interval := sieveKey qm.codec
            ["vacation-interval", user, toLower qm.tables reply.address, reply.handle]
          let child : Message :=
            { toAddrs := [reply.address]
              data := reply.data
              tier := tierOut
              isBounce := true
              parentTraceID := msg.traceID
              quarantine := msg.quarantine
              quarantineFolder := msg.quarantineFolder }
          qm.enqueueSieveOnce child key interval (now + v.days * 24 * 3600 * 1000000000)
            msg.id user

/-- `sievePlan`: the plan stored for the message, or a fresh one once it is
stored. -/
def sievePlan (script rcpt : String) :
    Queue (Except String SieveAction) := do
  let key := sieveKey qm.codec ["plan", msg.id, user]
  match ← askGet key with
  | .ok entry => pure (qm.codec.unmarshalAction (entry.meta "plan"))
  | .error _ =>
    match ← query (S := queueSignature) (.evaluateSieve script msg rcpt) with
    | .error err => pure (.error err)
    | .ok action =>
      match qm.codec.marshalAction action with
      | .error err => pure (.error err)
      | .ok encoded => do
          let now ← askNow
          let record := sieveRecord key ((((∅ : Metadata).insert "username" user).insert
            "plan" encoded).insert "source_id" msg.id) now
          match ← askStore (.storeWithReceipt record [none]) with
          | .error err => pure (.error err)
          | .ok _ => pure (.ok action)

/-- The folder a `keep` or `fileinto` goes to. -/
def sieveFolder (msg : Message) (a : SieveStep) : String :=
  let folder := if a.type = .keep then msg.deliveryFolder else a.target
  let folder := if folder = "" then msg.deliveryFolder else folder
  let folder := if folder = "" then "INBOX" else folder
  if msg.quarantine && folder = "INBOX" then
    if msg.quarantineFolder = "" then "Junk" else msg.quarantineFolder
  else folder

/-- Add flags that are not there yet, compared without case. -/
def mergeFlags (U : CaseTables) (flags tags : List String) : List String :=
  tags.foldl (fun flags tag =>
    if flags.any fun f => toLower U f = toLower U tag then flags else flags ++ [tag]) flags

/-- Combine deliveries to the same folder. -/
def fileInto (U : CaseTables) (folders : Groups String) (folder : String) (tags : List String) :
    Groups String where
  keys := if folder ∈ folders.keys then folders.keys else folders.keys ++ [folder]
  members := Function.update folders.members folder (mergeFlags U (folders.members folder) tags)

/-- The loop of `executeSieve` over the plan: the folders to file into, or what
the function returns at once. -/
def executeSteps (qm : QueueManager) (msg : Message) (user rcpt : String) :
    Groups String → List SieveStep → Queue (Except (Option String) (Groups String))
  | folders, [] => pure (.ok folders)
  | folders, a :: rest =>
    match a.type with
    | .keep => executeSteps qm msg user rcpt
        (fileInto qm.tables folders (sieveFolder msg a) a.tags) rest
    | .fileinto => executeSteps qm msg user rcpt
        (fileInto qm.tables folders (sieveFolder msg a) a.tags) rest
    | .redirect => do
        match ← query (S := queueSignature) (.redirectCopy msg.data) with
        | .error err => pure (.error (some err))
        | .ok data => do
            let child : Message :=
              { fromAddr := msg.fromAddr
                toAddrs := [a.target]
                data := data
                tier := tierOut
                clientIP := msg.clientIP
                parentTraceID := msg.traceID
                quarantine := msg.quarantine
                quarantineFolder := msg.quarantineFolder }
            let key := sieveKey qm.codec
              ["redirect", msg.id, user, toLower qm.tables a.target]
            match ← qm.enqueueSieveOnce child key "" zeroTime msg.id user with
            | some err => pure (.error (some err))
            | none => executeSteps qm msg user rcpt folders rest
    | .vacation => do
        match ← qm.sieveVacation msg user rcpt a.vacation with
        | some err => pure (.error (some err))
        | none => executeSteps qm msg user rcpt folders rest
    | .reject => do
        let err ← qm.generateBounce msg
          { smtpCode := 550, isPermanent := true, message := a.reason } [rcpt]
        pure (.error err)
    | .discard => executeSteps qm msg user rcpt folders rest
    | .other name => pure (.error (some ("unsupported Sieve delivery action " ++ name)))

/-- One mailbox copy for each folder; the first has the key of a delivery
without a script. -/
def fileCopies (qm : QueueManager) (msg : Message) (user rcpt : String)
    (flags : String → List String) : ℕ → List String → Queue (Option String)
  | _, [] => pure none
  | index, folder :: rest => do
      let key :=
        if index = 0 then msg.id ++ "/" ++ rcpt
        else sieveKey qm.codec ["mailbox", msg.id, user, folder]
      match ← query (S := queueSignature)
          (.deliverOnce key user folder msg.data (flags folder)) with
      | .error err => pure (some err)
      | .ok _ => fileCopies qm msg user rcpt flags (index + 1) rest

/-- `executeSieve`. -/
def executeSieve (action : SieveAction) : Queue (Option String) := do
  match ← qm.executeSteps msg user rcpt {} action.plan with
  | .error err => pure err
  | .ok folders =>
    match ← qm.fileCopies msg user rcpt folders.members 0 folders.keys with
    | some err => pure (some err)
    | none =>
      if folders.keys = [] then pure none
      else qm.sendDSN msg rcpt "SUCCESS" "delivered"

/-! ### Delivery -/

/-- The script of a user; a plan already stored stands in for an unreadable
one. -/
def findScript : Queue ScriptFile :=
  if !qm.policyManager then pure .missing
  else do
    let file ← query (S := queueSignature) (.readScript user)
    match ← askGet (sieveKey qm.codec ["plan", msg.id, user]) with
    | .error _ => pure file
    | .ok _ =>
      match file with
      | .found script => pure (.found script)
      | _ => pure (.found "")

/-- The folder of a delivery without a script. -/
def plainFolder (msg : Message) : String :=
  let folder := if msg.deliveryFolder = "" then "INBOX" else msg.deliveryFolder
  if msg.quarantine && folder = "INBOX" then
    if msg.quarantineFolder = "" then "Junk" else msg.quarantineFolder
  else folder

/-- The delivery of `deliverLocal` to one recipient: the error to join, or the
error it returns at once. -/
def deliverMailbox :
    Queue (Except String (Option String)) := do
  let user ← (if qm.users then query (S := queueSignature) (.recipient rcpt)
    else pure (some rcpt))
  match user with
  | none => pure (.ok (some ("recipient unavailable: " ++ rcpt)))
  | some username =>
    match ← qm.findScript msg username with
    | .failed err => pure (.ok (some ("read Sieve for " ++ rcpt ++ ": " ++ err)))
    | .found script => do
        match ← query (S := queueSignature) (.emailContext msg rcpt) with
        | some err => pure (.ok (some err))
        | none =>
          match ← qm.sievePlan msg username script rcpt with
          | .error err => pure (.ok (some ("Sieve for " ++ rcpt ++ ": " ++ err)))
          | .ok action => do
              let err ← qm.executeSieve msg username rcpt action
              pure (.ok err)
    | .missing => do
        match ← query (S := queueSignature)
            (.deliverOnce (msg.id ++ "/" ++ rcpt) username (plainFolder msg) msg.data []) with
        | .error err => pure (.ok (some ("local delivery to " ++ rcpt ++ ": " ++ err)))
        | .ok _ =>
          match ← qm.sendDSN msg rcpt "SUCCESS" "delivered" with
          | some err => pure (.error err)
          | none => pure (.ok none)

/-- `deliverLocal`. -/
def deliverLocal (qm : QueueManager) (msg : Message) :
    Option String → List String → Queue (Option String)
  | deliveryErr, [] => pure deliveryErr
  | deliveryErr, rcpt :: rest => do
      match ← qm.deliverMailbox msg rcpt with
      | .error err => pure (some err)
      | .ok err => deliverLocal qm msg (joinErr deliveryErr err) rest

/-- `resultHasTemporaryRecipient`. -/
def resultHasTemporaryRecipient : Bool :=
  result.recipients.any fun o => !o.success && !o.isPermanent

/-- `handleRecipientOutcomes`; the recipients it leaves in its copy of the
message are read by nobody. -/
def handleRecipientOutcomes : Queue (Option String) :=
  let permanent := (result.recipients.filter fun o => !o.success && o.isPermanent).map (·.recipient)
  if permanent = [] then pure none else qm.generateBounce msg result permanent

/-- The part of `deliverRemote` after the delivery. -/
def concludeRemote (result : Option DeliveryResult) :
    Option String → Queue (Option String)
  | none =>
    match result with
    | none => pure none
    | some result => qm.handleRecipientOutcomes msg result
  | some err =>
    match result with
    | none => pure (some ("remote delivery: " ++ err))
    | some result => do
        match ← qm.handleRecipientOutcomes msg result with
        | some e => pure (some e)
        | none =>
          if resultHasTemporaryRecipient result then pure (some ("remote delivery: " ++ err))
          else pure none

/-- `deliverRemote`. -/
def deliverRemote (recipients : List String) :
    Queue (Option String) := do
  match ← query (S := queueSignature) (.sign msg) with
  | .error err => pure (some ("dkim signing: dkim sign: " ++ err))
  | .ok signed => do
      let data := signed.getD msg.data
      let domain := (recipients.head?.map extractDomain).getD ""
      let data :=
        if recipients ≠ [] ∧ hasRoute qm.tables qm.delivery domain then
          qm.codec.withOriginalIP msg.clientIP data
        else data
      let (result, err) ←
        (deliver qm.tables qm.delivery msg.fromAddr recipients data).lift netInclusion
      let success := err = none && result.any (·.success)
      let notified ← (if success then qm.sendDSNs msg "SUCCESS" "relayed" recipients
        else pure none)
      match notified with
      | some e => pure (some e)
      | none => do
          let _ ← (if qm.destinations && recipients ≠ [] then
              query (S := queueSignature) (.observe domain success
                (err ≠ none && !result.any (·.isPermanent)))
            else pure ())
          qm.concludeRemote msg result err

/-- `finalizeDelivery`. -/
def finalizeDelivery (msg : Message) : Option String → Queue Unit
  | some err => do
      let _ ← setStatus msg.id "pending" err
      pure ()
  | none => do
      match ← setStatus msg.id "delivered" "" with
      | .ok _ => pure ()
      | .error err => do
          let _ ← setStatus msg.id "pending" err
          pure ()

/-! ### Workers -/

/-- `qm.StormGuard != nil && qm.StormGuard.Blocked(key)`. -/
def paused (qm : QueueManager) (key : String) : Queue Bool :=
  if qm.stormGuard then query (S := queueSignature) (.blocked key) else pure false

/-- `destinations.Acquire`, for a remote destination and if there is a throttle. -/
def acquire (qm : QueueManager) (rcpt : String) : Queue Bool :=
  if !isLocal qm rcpt && qm.destinations then
    query (S := queueSignature) (.acquire (extractDomain rcpt))
  else pure true

/-- The release function `Acquire` has returned. -/
def release (qm : QueueManager) (rcpt : String) : Queue Unit :=
  if !isLocal qm rcpt && qm.destinations then
    query (S := queueSignature) (.release (extractDomain rcpt))
  else pure ()

/-- One delivery attempt, as `processMessage` makes it for a copy of the message
with one recipient. -/
def attempt : Queue (Option String) :=
  let copy := { msg with toAddrs := [rcpt] }
  if recipientSuppressed qm rcpt then
    qm.generateBounce copy
      { smtpCode := 550, isPermanent := true, message := "Recipient suppressed by administrator" }
      [rcpt]
  else if isLocal qm rcpt then qm.deliverLocal copy none [rcpt]
  else qm.deliverRemote copy [rcpt]

/-- The loop of `processMessage` over the recipients: `started` once the message
is in processing, `remaining` the recipients kept for a retry.  The result is
what `remaining` and the error are after the loop, or nothing if the function
has returned from within it. -/
def deliverEach (qm : QueueManager) (msg : Message) :
    Bool → List String → Option String → List String → Queue (Option (List String × Option String))
  | _, remaining, deliveryErr, [] => pure (some (remaining, deliveryErr))
  | started, remaining, deliveryErr, rcpt :: rest => do
      if ← qm.paused msg.admissionKey then
        if started then
          pure (some (remaining ++ rcpt :: rest,
            joinErr deliveryErr (some "sender paused by mailstorm protection")))
        else do
          let _ ← tryTransition msg.id "queued" "pending"
          pure none
      else if ← qm.acquire rcpt then do
        let owned ← (if started then pure true else tryTransition msg.id "queued" "processing")
        if owned then do
          query (S := queueSignature) (.beginAttempt msg.id rcpt)
          let err ← qm.attempt msg rcpt
          qm.release rcpt
          query (S := queueSignature) (.endAttempt msg.id rcpt err)
          let remaining := if err.isSome then remaining ++ [rcpt] else remaining
          match ← askStore (.updateRecipients msg.id (remaining ++ rest)) with
          | .error e => do
              finalizeDelivery msg (some e)
              pure none
          | .ok _ => deliverEach qm msg true remaining (joinErr deliveryErr err) rest
        else do
          qm.release rcpt
          pure none
      else
        deliverEach qm msg started (remaining ++ [rcpt])
          (joinErr deliveryErr (some "destination deferred")) rest

/-- The part of `processMessage` from the loop on. -/
def deliverAll : Queue Unit := do
  match ← qm.deliverEach msg false [] none msg.toAddrs with
  | none => pure ()
  | some (remaining, deliveryErr) =>
    match ← askStore (.updateRecipients msg.id remaining) with
    | .error e => finalizeDelivery msg (some e)
    | .ok _ => finalizeDelivery { msg with toAddrs := remaining } deliveryErr

/-- The branch of `processMessage` for a message a custody rule takes over. -/
def preserve : Queue Unit := do
  if ← tryTransition msg.id "queued" "processing" then
    match ← qm.applyCompliance msg with
    | .error err => do
        let _ ← setStatus msg.id "pending" err
        pure ()
    | .ok _ => do
        let _ ← setStatus msg.id "delivered" "preserved in compliance queue before delivery"
        pure ()
  else pure ()

/-- A custody rule takes the message over before its delivery. -/
def inCustody : Bool :=
  msg.complianceReleaseID = "" &&
    (evaluate qm.tables qm.rules msg.fromAddr msg.toAddrs).any (·.takesCustody)

/-- `processMessage`. -/
def processMessage : Queue Unit :=
  if qm.inCustody msg then qm.preserve msg
  else do
    if ← qm.paused msg.admissionKey then do
      let _ ← tryTransition msg.id "queued" "pending"
      pure ()
    else
      match ← query (S := queueSignature) (.wait msg.tier) with
      | some _ => do
          let _ ← tryTransition msg.id "queued" "pending"
          pure ()
      | none => qm.deliverAll msg

/-! ### The retry scheduler -/

/-- Release the scheduled submissions that are due. -/
def releaseScheduled : List JournalEntry → Queue Unit
  | [] => pure ()
  | e :: rest => do
      let now ← askNow
      let _ ← askStore (.finishScheduled (e.meta "receipt_id") "" false now)
      releaseScheduled rest

/-- The delay warnings for one entry; a failed one does not stop the others. -/
def warnEach (qm : QueueManager) (entry : JournalEntry) : List String → Queue Unit
  | [] => pure ()
  | rcpt :: rest => do
      let _ ← qm.sendDSN (messageFromEntry qm.codec entry) rcpt "DELAY" "delayed"
      warnEach qm entry rest

/-- An entry whose attempts are used up is bounced and given up. -/
def giveUp (qm : QueueManager) (entry : JournalEntry) : Queue Unit := do
  if ← tryTransition entry.messageID "pending" "queued" then
    match ← qm.generateBounce (messageFromEntry qm.codec entry)
        { smtpCode := 554, message := "Delivery retry limit exceeded", isPermanent := true }
        entry.toAddrs with
    | some _ => do
        let _ ← setStatus entry.messageID "pending" "unable to persist final bounce"
        pure ()
    | none => do
        let _ ← setStatus entry.messageID "failed" "retry attempts exhausted; notification processed"
        pure ()
  else pure ()

/-- `calculateNextRetry`, from the last attempt or else the creation. -/
def nextRetry (qm : QueueManager) (entry : JournalEntry) : Time :=
  (if entry.lastAttempt = zeroTime then entry.createdAt else entry.lastAttempt) +
    qm.policy.delay entry.attempts

/-- The body of the loop of `processRetries`. -/
def retryEntry (qm : QueueManager) (entry : JournalEntry) : Queue Unit := do
  if entry.status ≠ "pending" then pure ()
  else if qm.policy.maxAttempts ≤ entry.attempts then qm.giveUp entry
  else do
    let overdue ← (if 0 < qm.delayWarningAfter ∧ 0 < entry.attempts then do
        let now ← askNow
        pure (decide (qm.delayWarningAfter ≤ timeSub now entry.createdAt))
      else pure false)
    let _ ← (if overdue then qm.warnEach entry entry.toAddrs else pure ())
    let now ← askNow
    if now < qm.nextRetry entry ∧ ¬(entry.meta "receipt_id" ≠ "" ∧ entry.attempts = 0) then
      pure ()
    else handOver entry.tier (messageFromEntry qm.codec entry)

def retryEach (qm : QueueManager) : List JournalEntry → Queue Unit
  | [] => pure ()
  | entry :: rest => do
      qm.retryEntry entry
      retryEach qm rest

/-- `processRetries`, from snapshots of the scheduled and of the pending
entries. -/
def processRetries (qm : QueueManager) : Queue Unit := do
  let scheduled ← query (S := queueSignature) (.listByStatus "scheduled" "")
  releaseScheduled scheduled
  let pending ← query (S := queueSignature) (.listByStatus "pending" "")
  let sorted ← query (S := queueSignature) (.sortByCreation pending)
  qm.retryEach (fairPending qm.tables sorted.1)

/-! ### Operators -/

/-- `ReleaseHeld`. -/
def releaseHeld (qm : QueueManager) (id actor : String) : Queue (Option String) := do
  match ← askGet id with
  | .error err => pure (some err)
  | .ok entry =>
    if entry.status ≠ "held" then pure (some "message is not held")
    else if qm.scannerURL = "" then
      pure (some "quarantine release requires a configured scanner")
    else
      match ← query (S := queueSignature) (.scan entry) with
      | some err => pure (some err)
      | none => do
          let r ← askStore (.releaseHeld id actor)
          pure (storeError r)

/-- The message `ReleaseCompliance` releases from a preserved entry. -/
def releasedMessage (e : JournalEntry) (id : String) (msg : Message) : Message :=
  { msg with
    data := e.data
    fromAddr := e.fromAddr
    toAddrs := e.toAddrs
    id := "release-" ++ id
    complianceReleaseID := id
    complianceBypass := true }

/-- `ReleaseCompliance`. -/
def releaseCompliance (qm : QueueManager) (id actor reason : String) :
    Queue (Option String) := do
  match ← askGet id with
  | .error err => pure (some err)
  | .ok e =>
    if e.meta "compliance" ≠ "true" ∨ e.status ≠ "compliance" then
      pure (some "not an active compliance item")
    else
      match verifyEvidence qm.ext e with
      | .error err => pure (some err)
      | .ok () =>
        if e.meta "legal_hold" = "true" then pure (some "clear legal hold before release")
        else if e.meta "mode" = "copy" then
          pure (some "monitoring copies cannot be delivered")
        else
          match qm.codec.parseMessage (e.meta "message") with
          | .error err => pure (some err)
          | .ok msg =>
            let msg := releasedMessage e id msg
            match qm.codec.marshalMessage { msg with data := [] } with
            | .error err => pure (some err)
            | .ok encoded => do
                let child : JournalEntry :=
                  { messageID := msg.id
                    fromAddr := msg.fromAddr
                    toAddrs := msg.toAddrs
                    data := msg.data
                    tier := msg.tier
                    status := if msg.quarantine then "held" else "pending"
                    metadata := ((∅ : Metadata).insert "message" encoded).insert
                      "client_ip" msg.clientIP }
                match ← askStore (.releaseCompliance id actor reason (some child)) with
                | .error err => pure (some err)
                | .ok _ =>
                  if msg.quarantine then pure none
                  else do
                    handOver msg.tier msg
                    pure none

end QueueManager

end EmailService
