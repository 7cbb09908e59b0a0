/-
EmailService/Store.lean

The operations of the message store (internal/storage/store.go, operations.go,
submission_schedule.go, notification.go, compliance.go, compliance_release.go).

Every mutator of the source has one shape: check the request against the
index, clone the entries it touches, journal the clones, and only then publish
them in the in-memory tables.  `Plan` is that shape: an operation either
answers without touching the journal, or names the record to journal and what
to publish once the record is durable.  `MessageStore.exec` carries a plan out.

What the operations read from their surroundings — the clock, fresh UUIDs,
`statfs`, the audit log, the system calls of the journal and the order in
which Go happens to range over a map — is in an `Env`.  `Externals` holds the
library functions they call on opaque texts.
-/
import EmailService.GoStrings
import EmailService.Journal

namespace EmailService

open Function

variable {α : Type}

/-! ### State and surroundings -/

structure Limits where
  maxBytes : ℤ
  maxMessages : ℤ
  minFreeBytes : UInt64

/-- The two in-memory tables. -/
structure Tables where
  index : String → Option JournalEntry
  dlq : String → Option JournalEntry

structure MessageStore (α : Type) extends Tables where
  journal : Journal α
  limits : Limits
  closed : Bool
  closeErr : Option String

variable (t : Tables) (id : String)

/-- `s.index[id] = e`. -/
def Tables.put (e : JournalEntry) : Tables :=
  { t with index := update t.index id (some e) }

/-- `delete(s.index, id)`. -/
def Tables.drop : Tables :=
  { t with index := update t.index id none }

/-- `s.dlq[id] = e`. -/
def Tables.putDLQ (e : JournalEntry) : Tables :=
  { t with dlq := update t.dlq id (some e) }

/-- `delete(s.dlq, id)`. -/
def Tables.dropDLQ : Tables :=
  { t with dlq := update t.dlq id none }

variable (e : JournalEntry)

@[simp] theorem Tables.put_index : (t.put id e).index = update t.index id (some e) := rfl
@[simp] theorem Tables.put_dlq : (t.put id e).dlq = t.dlq := rfl
@[simp] theorem Tables.drop_index : (t.drop id).index = update t.index id none := rfl
@[simp] theorem Tables.drop_dlq : (t.drop id).dlq = t.dlq := rfl
@[simp] theorem Tables.putDLQ_index : (t.putDLQ id e).index = t.index := rfl
@[simp] theorem Tables.putDLQ_dlq : (t.putDLQ id e).dlq = update t.dlq id (some e) := rfl
@[simp] theorem Tables.dropDLQ_index : (t.dropDLQ id).index = t.index := rfl
@[simp] theorem Tables.dropDLQ_dlq : (t.dropDLQ id).dlq = update t.dlq id none := rfl

/-- What one call reads from its surroundings.  Once the journal file has been
closed its system calls fail, which is for `io` to say. -/
structure Env where
  now : Time
  /-- a second reading of the clock within the same call -/
  later : Time
  /-- what `uuid.NewString()` returns for a message without an ID -/
  messageUUID : String
  messageUUID_ne : messageUUID ≠ ""
  /-- what `uuid.New()` returns for a journal record without an ID -/
  recordUUID : String
  /-- `Bavail` and `Bsize` as `statfs` reports them, or its error -/
  statfs : Except String (UInt64 × UInt64)
  /-- the error of `audit.Append`, if it fails -/
  audit : Option String
  io : WriteIO
  /-- the error of closing the journal file, if it fails -/
  fileClose : Option String
  /-- the order in which `range s.index` visits the keys -/
  order : List String

variable (order : List String)

/-- `order` visits the keys of `index`, each once. -/
def Traverses (index : String → Option JournalEntry) : Prop :=
  order.Nodup ∧ ∀ id, id ∈ order ↔ index id ≠ none

/-- `mailstate.Submission`, with the fields no store operation reads kept as
one opaque text. -/
structure Submission where
  sendAt : String
  undoStatus : String
  rest : String

/-- Library functions on opaque texts. -/
structure Externals where
  evidenceHash : String → List String → List UInt8 → String
  unmarshalSubmission : String → Except String Submission
  marshalSubmission : Submission → Except String String
  parseRFC3339 : String → Except String Time
  parseRFC3339Nano : String → Except String Time
  formatRFC3339 : Time → String
  formatRFC3339Nano : Time → String

/-- `strings.TrimSpace(reason) == "" || len(reason) > 2048`. -/
def badReason (reason : String) : Bool :=
  reason.toList.all GoStrings.isSpace || decide (2048 < reason.utf8ByteSize)

/-! ### Plans -/

/-- What an operation returns beside an error. -/
inductive Answer
  | done
  | flag (b : Bool)
  | stored (id : String)
  | expired (n : ℕ)
  deriving DecidableEq

/-- An operation up to its journal write, with what it publishes afterwards.
`context` is the text the operation puts before an error of the journal. -/
inductive Plan
  /-- an error before anything is written -/
  | reject (err : String)
  /-- an answer that changes nothing -/
  | answer (r : Answer)
  /-- `journal.Write(entry)`, then publish the entry the journal has written -/
  | write (entry : JournalEntry) (context : String)
      (publish : JournalEntry → Tables → Tables) (r : Answer)
  /-- `journal.WriteBatch(entries...)`, then publish -/
  | batch (entries : List JournalEntry) (context : String)
      (publish : Tables → Tables) (r : Answer)
  /-- `journal.file.Sync()` -/
  | sync
  /-- `journal.Close()` -/
  | close
  /-- `s.limits = l` -/
  | limit (l : Limits)

/-- Carry out a plan. -/
def MessageStore.exec (F : JournalFormat α) (env : Env) (s : MessageStore α) :
    Plan → Except String Answer × MessageStore α
  | .reject err => (.error err, s)
  | .answer r => (.ok r, s)
  | .write entry context publish r =>
    match s.journal.write F env.io env.recordUUID entry with
    | (.error err, j) => (.error (context ++ err), { s with journal := j })
    | (.ok entry, j) => (.ok r, { s with journal := j, toTables := publish entry s.toTables })
  | .batch entries context publish r =>
    match s.journal.writeBatch F env.io env.recordUUID entries with
    | (.error err, j) => (.error (context ++ err), { s with journal := j })
    | (.ok _, j) => (.ok r, { s with journal := j, toTables := publish s.toTables })
  | .sync =>
    match env.io.sync with
    | some err => (.error err, s)
    | none => (.ok .done, { s with journal := s.journal.setData s.journal.file.data.sync })
  | .close =>
    match env.io.sync with
    | some err => (.error err, { s with closed := true, closeErr := some err })
    | none =>
      let j := s.journal.setData s.journal.file.data.sync
      let s := { s with journal := j, closed := true, closeErr := env.fileClose }
      match env.fileClose with
      | some err => (.error err, s)
      | none => (.ok .done, s)
  | .limit l => (.ok .done, { s with limits := l })

/-! ### Capacity -/

/-- `diskCapacity`. -/
def diskCapacity (env : Env) (limits : Limits) (add : ℕ) : Except String Unit :=
  match env.statfs with
  | .error err => .error err
  | .ok (bavail, bsize) =>
    -- both sides are uint64 and wrap
    if bavail * bsize < limits.minFreeBytes + UInt64.ofNat add then
      .error "storage free-space reserve reached"
    else .ok ()

/-- The entries that count against the spool limits. -/
def spooled (e : JournalEntry) : Bool :=
  e.tier ≠ "mailbox" && e.tier ≠ "jmap_submission" && e.tier ≠ "sieve_effect"

variable (env : Env) (s : MessageStore α)

/-- `capacity`. -/
def capacity (add : ℕ) : Except String Unit :=
  match diskCapacity env s.limits add with
  | .error err => .error err
  | .ok () =>
    let spool := (env.order.filterMap s.index).filter spooled
    let size := (spool.map fun e => e.data.length).sum
    if 0 < s.limits.maxBytes ∧ s.limits.maxBytes < size + add then
      .error "spool byte limit reached"
    else if 0 < s.limits.maxMessages ∧ s.limits.maxMessages ≤ spool.length then
      .error "spool message limit reached"
    else .ok ()

/-- `SetLimits`. -/
def setLimits (l : Limits) : Plan := .limit l

/-- `Health`. -/
def health : Plan :=
  if s.closed then .reject "store closed"
  else
    match capacity env s 0 with
    | .error err => .reject err
    | .ok () =>
      match s.journal.failed with
      | some err => .reject err
      | none => .sync

/-- `Close`; a second call reports what the first one did. -/
def close (s : MessageStore α) : Plan :=
  if s.closed then
    match s.closeErr with
    | some err => .reject err
    | none => .answer .done
  else .close

/-! ### Acceptance -/

/-- The loop over the receipts of `StoreWithReceipt`; `seen` holds the IDs
already in the batch. -/
def collectReceipts (index : String → Option JournalEntry) :
    List String → List (Option JournalEntry) → Except String (List JournalEntry)
  | _, [] => .ok []
  | seen, none :: receipts => collectReceipts index seen receipts
  | seen, some receipt :: receipts =>
    if receipt.messageID = "" ∨ receipt.messageID ∈ seen then .error "invalid receipt ID"
    else if index receipt.messageID ≠ none then .error "receipt already exists"
    else
      match collectReceipts index (receipt.messageID :: seen) receipts with
      | .error err => .error err
      | .ok batch => .ok (receipt :: batch)

/-- The defaults `StoreWithReceipt` fills into the entry it is given. -/
def withDefaults (env : Env) (entry : JournalEntry) : JournalEntry :=
  { entry with
    messageID := if entry.messageID = "" then env.messageUUID else entry.messageID
    status := if entry.status = "" then "pending" else entry.status
    createdAt := if entry.createdAt = zeroTime then env.now else entry.createdAt }

/-- Tiers that are not held to the spool limits. -/
def unmetered (tier : String) : Bool :=
  tier = "mailbox" || tier = "emergency" || tier = "jmap_submission" || tier = "sieve_effect"

/-- Publish a batch: `for _, record := range batch { s.index[...] = ... }`. -/
def publishAll (entries : List JournalEntry) (t : Tables) : Tables :=
  entries.foldl (fun t e => t.put e.messageID (cloneEntry e)) t

/-- `StoreWithReceipt`. -/
def storeWithReceipt (entry : JournalEntry) (receipts : List (Option JournalEntry)) : Plan :=
  let entry := withDefaults env entry
  if s.index entry.messageID ≠ none then
    .reject ("message ID already exists: " ++ entry.messageID)
  else if s.closed then .reject "store closed"
  else
    match diskCapacity env s.limits (entry.data.length * 3 + 4096) with
    | .error err => .reject err
    | .ok () =>
      match if unmetered entry.tier then .ok () else capacity env s entry.data.length with
      | .error err => .reject err
      | .ok () =>
        match collectReceipts s.index [entry.messageID] receipts with
        | .error err => .reject err
        | .ok [] =>
          .write entry "failed to journal message: "
            (fun entry t => t.put entry.messageID (cloneEntry entry))
            (.stored entry.messageID)
        | .ok batch =>
          .batch (entry :: batch) "failed to journal message: "
            (publishAll (entry :: batch)) (.stored entry.messageID)

/-- `Store`. -/
def store (entry : JournalEntry) : Plan :=
  storeWithReceipt env s entry [none]

/-! ### Status and recipients -/

/-- `UpdateStatus`. -/
def updateStatus (messageID status errorMsg : String) : Plan :=
  match s.index messageID with
  | none => .reject ("message not found: " ++ messageID)
  | some entry =>
    let entry := cloneEntry entry
    if entry.meta "compliance" = "true" then
      .reject "use compliance controls for preserved records"
    else
      let entry := { entry with status := status }
      let entry :=
        if status = "processing" then
          { entry with lastAttempt := env.now, attempts := entry.attempts + 1 }
        else entry
      let entry := if errorMsg ≠ "" then { entry with errorMessage := errorMsg } else entry
      .write entry ""
        (fun entry t =>
          let t := t.put messageID entry
          let t := if status = "failed" then t.putDLQ messageID entry else t.dropDLQ messageID
          if status = "delivered" ∨ status = "deleted" then t.drop messageID else t)
        .done

/-- `UpdateRecipients`. -/
def updateRecipients (s : MessageStore α) (messageID : String) (recipients : List String) :
    Plan :=
  match s.index messageID with
  | none => .reject ("message not found: " ++ messageID)
  | some entry =>
    let entry := cloneEntry entry
    if entry.meta "compliance" = "true" then .reject "compliance evidence envelope is immutable"
    else
      .write { entry with toAddrs := recipients } "" (fun entry t => t.put messageID entry) .done

/-- `Transition`. -/
def transition (id fromStatus toStatus : String) : Plan :=
  match s.index id with
  | none => .answer (.flag false)
  | some e =>
    if e.status ≠ fromStatus then .answer (.flag false)
    else if e.meta "compliance" = "true" then
      .reject "use compliance controls for preserved records"
    else
      let v := { cloneEntry e with status := toStatus }
      let v :=
        if toStatus = "processing" then
          { v with attempts := v.attempts + 1, lastAttempt := env.now }
        else v
      .write v ""
        (fun v t => if toStatus = "deleted" then t.drop id else t.put id v) (.flag true)

/-- `RetryFromDLQ`. -/
def retryFromDLQ (s : MessageStore α) (messageID : String) : Plan :=
  match s.index messageID with
  | none => .reject "message not in DLQ"
  | some e =>
    if e.status ≠ "failed" then .reject "message not in DLQ"
    else
      .write { cloneEntry e with status := "pending", attempts := 0, errorMessage := "" } ""
        (fun v t => (t.put messageID v).dropDLQ messageID) .done

variable (X : Externals)

/-- `ReleaseHeld`. -/
def releaseHeld (env : Env) (s : MessageStore α) (id actor : String) : Plan :=
  match s.index id with
  | none => .reject "message is not held"
  | some e =>
    if e.status ≠ "held" then .reject "message is not held"
    else
      let v := { cloneEntry e with
        status := "pending"
        metadata := (e.metadata.insert "released_by" actor).insert "released_at"
          (X.formatRFC3339 env.now) }
      .write v "" (fun v t => t.put id v) .done

/-! ### Scheduled submissions -/

def errBlobNotFound : String := "blobNotFound"
def errCannotUnsend : String := "cannotUnsend"

/-- `FinishScheduled`. -/
def finishScheduled (s : MessageStore α) (receiptID user : String) (cancel : Bool) (now : Time) :
    Plan :=
  match s.index receiptID with
  | none => .reject errBlobNotFound
  | some receipt =>
    if receipt.tier ≠ "jmap_submission" ∨ (user ≠ "" ∧ receipt.meta "username" ≠ user) then
      .reject errBlobNotFound
    else
      match X.unmarshalSubmission (receipt.meta "submission") with
      | .error err => .reject err
      | .ok submission =>
        if cancel ∧ submission.undoStatus = "canceled" then .answer (.flag true)
        else if submission.undoStatus ≠ "pending" then .reject errCannotUnsend
        else
          match s.index (receipt.meta "queue_id") with
          | none => .reject errCannotUnsend
          | some entry =>
            if entry.status ≠ "scheduled" ∨ entry.meta "receipt_id" ≠ receiptID ∨
                entry.meta "compliance" = "true" then
              .reject errCannotUnsend
            else
              match X.parseRFC3339 submission.sendAt with
              | .error err => .reject err
              | .ok due =>
                if !cancel ∧ now < due then .answer (.flag false)
                else
                  let status :=
                    if entry.meta "after_schedule" = "held" then "held" else "pending"
                  let q := { cloneEntry entry with
                    status := if cancel then "deleted" else status }
                  let submission := { submission with
                    undoStatus := if cancel then "canceled" else "final" }
                  match X.marshalSubmission submission with
                  | .error err => .reject err
                  | .ok encoded =>
                    let r := { cloneEntry receipt with
                      metadata := receipt.metadata.insert "submission" encoded }
                    if s.closed then .reject "store closed"
                    else
                      .batch [q, r] ""
                        (fun t =>
                          let t := t.put r.messageID r
                          if cancel then t.drop q.messageID else t.put q.messageID q)
                        (.flag true)

/-- The eligibility test of `ExpireWorkflowRecords`. -/
def expirable (index : String → Option JournalEntry) (now : Time) (receipts sieve : Duration)
    (entry : JournalEntry) : Bool :=
  let age := timeSub now entry.createdAt
  if entry.createdAt = zeroTime then false
  else if entry.tier = "jmap_submission" then
    if receipts ≤ 0 ∨ age < receipts then false
    else
      match X.unmarshalSubmission (entry.meta "submission") with
      | .error _ => false
      | .ok sub =>
        if sub.undoStatus ≠ "final" ∧ sub.undoStatus ≠ "canceled" then false
        else !(entry.meta "queue_id" ≠ "" && (index (entry.meta "queue_id")).isSome)
  else if entry.tier = "sieve_effect" then
    if sieve ≤ 0 ∨ age < sieve then false
    else if entry.meta "until" ≠ "" then
      match X.parseRFC3339Nano (entry.meta "until") with
      | .error _ => false
      | .ok expiry => !decide (now < expiry)
    else if entry.meta "source_id" ≠ "" then (index (entry.meta "source_id")).isNone
    else false
  else false

/-- `ExpireWorkflowRecords`. -/
def expireWorkflowRecords (env : Env) (s : MessageStore α) (now : Time) (receipts sieve : Duration)
    : Plan :=
  if s.closed then .reject "store closed"
  else
    let eligible := (env.order.filterMap s.index).filter (expirable X s.index now receipts sieve)
    let expired := eligible.map fun e => { cloneEntry e with status := "deleted" }
    if expired.isEmpty then .answer (.expired 0)
    else
      .batch expired "" (fun t => expired.foldl (fun t e => t.drop e.messageID) t)
        (.expired expired.length)

/-! ### Notifications -/

/-- `StoreNotification`. -/
def storeNotification (source key : String) (child : JournalEntry) : Plan :=
  match s.index source with
  | none => .reject "notification source missing"
  | some parent =>
    if parent.meta ("notice:" ++ key) ≠ "" then .answer (.flag false)
    else if s.index child.messageID ≠ none then .reject "notification ID collision"
    else
      match diskCapacity env s.limits (child.data.length * 3 + 4096) with
      | .error err => .reject err
      | .ok () =>
        let saved := { cloneEntry parent with
          metadata := parent.metadata.insert ("notice:" ++ key) child.messageID }
        .batch [saved, child] ""
          (fun t =>
            let t := t.put source saved
            if child.status ≠ "delivered" then t.put child.messageID (cloneEntry child)
            else t)
          (.flag true)

/-! ### Compliance -/

/-- `Audit`; `NewMessageStore` has opened the audit log or failed. -/
def audit (env : Env) (s : MessageStore α) : Except String Unit :=
  if s.closed then .error "store closed"
  else
    match env.audit with
    | some err => .error err
    | none => .ok ()

/-- `VerifyEvidence`. -/
def verifyEvidence (e : JournalEntry) : Except String Unit :=
  if e.meta "evidence_sha256" = "" ∨
      e.meta "evidence_sha256" ≠ X.evidenceHash e.fromAddr e.toAddrs e.data then
    .error "compliance evidence integrity check failed"
  else .ok ()

/-- `ReleaseCompliance`. -/
def releaseCompliance (env : Env) (s : MessageStore α) (id actor reason : String)
    (child : Option JournalEntry) : Plan :=
  if badReason reason then .reject "release reason required (max 2048 bytes)"
  else
    match audit env s with
    | .error err => .reject err
    | .ok () =>
      match s.index id with
      | none => .reject "release prohibited"
      | some parent =>
        if parent.meta "compliance" ≠ "true" ∨ parent.status ≠ "compliance" ∨
            parent.meta "legal_hold" = "true" ∨ parent.meta "mode" = "copy" then
          .reject "release prohibited"
        else
          match verifyEvidence X parent with
          | .error err => .reject err
          | .ok () =>
            match child with
            | none => .reject "invalid release transaction"
            | some child =>
              if child.messageID ≠ "release-" ++ id ∨ child.meta "compliance" = "true" ∨
                  (child.status ≠ "pending" ∧ child.status ≠ "held") then
                .reject "invalid release transaction"
              else if X.evidenceHash child.fromAddr child.toAddrs child.data ≠
                  parent.meta "evidence_sha256" then
                .reject "release envelope or bytes differ from preserved evidence"
              else if s.index child.messageID ≠ none then
                .reject "release transaction already exists"
              else
                match capacity env s child.data.length with
                | .error err => .reject err
                | .ok () =>
                  match diskCapacity env s.limits (child.data.length * 3 + 4096) with
                  | .error err => .reject err
                  | .ok () =>
                    let saved := { cloneEntry parent with
                      status := "compliance_released"
                      metadata :=
                        ((parent.metadata.insert "release_id" child.messageID).insert
                          "released_by" actor).insert "released_at"
                            (X.formatRFC3339Nano env.now) }
                    let child := { cloneEntry child with createdAt := env.later }
                    .batch [saved, child] ""
                      (fun t => (t.put id saved).put child.messageID child) .done

/-- `changeCompliance`. -/
def changeCompliance (id reason : String) (r : Answer)
    (change : JournalEntry → Except String JournalEntry) : Plan :=
  if badReason reason then .reject "a reason of 1..2048 bytes is required"
  else
    match audit env s with
    | .error err => .reject err
    | .ok () =>
      match s.index id with
      | none => .reject "compliance item not found"
      | some e =>
        if e.meta "compliance" ≠ "true" then .reject "compliance item not found"
        else
          match change (cloneEntry e) with
          | .error err => .reject err
          | .ok v =>
            .write v ""
              (fun v t => if v.status = "deleted" then t.drop id else t.put id v) r

/-- The change `ClaimComplianceRelease` makes. -/
def claimRelease (e : JournalEntry) : Except String JournalEntry :=
  if e.status ≠ "compliance" ∨ e.meta "legal_hold" = "true" ∨ e.meta "mode" = "copy" then
    .error "release prohibited"
  else .ok { e with status := "compliance_releasing" }

/-- The change `FinishComplianceRelease` makes. -/
def finishRelease (e : JournalEntry) : Except String JournalEntry :=
  if e.status ≠ "compliance_releasing" then .error "release not claimed"
  else .ok { e with status := "compliance_released" }

/-- The change `SetComplianceHold` makes. -/
def setHold (hold : Bool) (e : JournalEntry) : Except String JournalEntry :=
  if e.status = "compliance_releasing" then .error "release in progress"
  else .ok { e with metadata := e.metadata.insert "legal_hold" (toString hold) }

/-- The change `DeleteCompliance` makes. -/
def deletePreserved (now : Time) (e : JournalEntry) : Except String JournalEntry :=
  if e.meta "legal_hold" = "true" ∨ e.status = "compliance_releasing" then
    .error "item protected"
  else
    match X.parseRFC3339Nano (e.meta "retain_until") with
    | .error _ => .error "retention has not expired (empty retention means indefinite)"
    | .ok till =>
      if now < till then .error "retention has not expired (empty retention means indefinite)"
      else .ok { e with status := "deleted" }

/-- `ClaimComplianceRelease`. -/
def claimComplianceRelease (id reason : String) : Plan :=
  changeCompliance env s id reason (.flag true) claimRelease

/-- `FinishComplianceRelease`. -/
def finishComplianceRelease (id : String) : Plan :=
  changeCompliance env s id "delivery transaction persisted" .done finishRelease

/-- `SetComplianceHold`. -/
def setComplianceHold (id reason : String) (hold : Bool) : Plan :=
  changeCompliance env s id reason .done (setHold hold)

/-- `DeleteCompliance`. -/
def deleteCompliance (env : Env) (s : MessageStore α) (id reason : String) : Plan :=
  changeCompliance env s id reason .done (deletePreserved X env.now)

/-! ### Reading -/

/-- `Get`. -/
def get (s : MessageStore α) (messageID : String) : Except String JournalEntry :=
  match s.index messageID with
  | none => .error ("message not found: " ++ messageID)
  | some entry => .ok (cloneEntry entry)

/-- `ListByStatus`, in the order Go ranges over the index. -/
def listByStatus (s : MessageStore α) (status tier : String) : List JournalEntry :=
  (order.filterMap s.index).filter fun e => (tier = "" || e.tier = tier) && e.status = status

/-- `ListPending`. -/
def listPending (s : MessageStore α) (tier : String) : List JournalEntry :=
  listByStatus order s "pending" tier

/-- `GetDLQ`. -/
def getDLQ (s : MessageStore α) : List JournalEntry :=
  (order.filterMap s.dlq).map cloneEntry

/-! ### Operations as a type -/

/-- The operations that can change the store, with their arguments. -/
inductive Op
  | storeWithReceipt (entry : JournalEntry) (receipts : List (Option JournalEntry))
  | updateStatus (messageID status errorMsg : String)
  | updateRecipients (messageID : String) (recipients : List String)
  | transition (id fromStatus toStatus : String)
  | retryFromDLQ (messageID : String)
  | releaseHeld (id actor : String)
  | finishScheduled (receiptID user : String) (cancel : Bool) (now : Time)
  | expireWorkflowRecords (now : Time) (receipts sieve : Duration)
  | storeNotification (source key : String) (child : JournalEntry)
  | releaseCompliance (id actor reason : String) (child : Option JournalEntry)
  | claimComplianceRelease (id reason : String)
  | finishComplianceRelease (id : String)
  | setComplianceHold (id reason : String) (hold : Bool)
  | deleteCompliance (id reason : String)
  | setLimits (l : Limits)
  | health
  | close

/-- What an operation plans in a given store. -/
def Op.plan (env : Env) (s : MessageStore α) : Op → Plan
  | .storeWithReceipt entry receipts => EmailService.storeWithReceipt env s entry receipts
  | .updateStatus id status errorMsg => EmailService.updateStatus env s id status errorMsg
  | .updateRecipients id recipients => EmailService.updateRecipients s id recipients
  | .transition id fromStatus toStatus => EmailService.transition env s id fromStatus toStatus
  | .retryFromDLQ id => EmailService.retryFromDLQ s id
  | .releaseHeld id actor => EmailService.releaseHeld X env s id actor
  | .finishScheduled receiptID user cancel now =>
    EmailService.finishScheduled X s receiptID user cancel now
  | .expireWorkflowRecords now receipts sieve =>
    EmailService.expireWorkflowRecords X env s now receipts sieve
  | .storeNotification source key child => EmailService.storeNotification env s source key child
  | .releaseCompliance id actor reason child =>
    EmailService.releaseCompliance X env s id actor reason child
  | .claimComplianceRelease id reason => EmailService.claimComplianceRelease env s id reason
  | .finishComplianceRelease id => EmailService.finishComplianceRelease env s id
  | .setComplianceHold id reason hold => EmailService.setComplianceHold env s id reason hold
  | .deleteCompliance id reason => EmailService.deleteCompliance X env s id reason
  | .setLimits l => EmailService.setLimits l
  | .health => EmailService.health env s
  | .close => EmailService.close s

/-- One call of the store. -/
def MessageStore.call (F : JournalFormat α) (X : Externals) (env : Env) (s : MessageStore α)
    (op : Op) : Except String Answer × MessageStore α :=
  s.exec F env (op.plan X env s)

end EmailService
