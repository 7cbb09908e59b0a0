/-
EmailService/Message.lean

Queue messages and what is computed from them without asking anybody
(internal/smtpd/queue.go, dsn.go, retry.go, sieve_actions.go;
internal/compliance/engine.go).

Encodings are opaque: a `Codec` says what `json.Marshal` and the hashes give,
and everything proved holds for every codec.  Of `Message` the fields are kept
that a modelled function reads.
-/
import EmailService.Delivery
import EmailService.Store

namespace EmailService

open GoStrings

/-! ### Messages -/

/-- The DSN options of MAIL. -/
structure MailOptions where
  envelopeID : String := ""
  returnFull : Bool := false

/-- The DSN options of one RCPT. -/
structure RcptOptions where
  notify : List String := []
  originalRecipient : String := ""

/-- `Message`. -/
structure Message where
  sendAt : Time := zeroTime
  extraReceipts : List JournalEntry := []
  submissionReceipt : Option JournalEntry := none
  dsnMail : MailOptions := {}
  /-- a recipient without options reads as the zero value -/
  dsnRecipients : String → RcptOptions := fun _ => {}
  complianceBypass : Bool := false
  complianceReleaseID : String := ""
  admissionKey : String := ""
  deliveryFolder : String := ""
  id : String := ""
  traceID : String := ""
  parentTraceID : String := ""
  fromAddr : String := ""
  toAddrs : List String := []
  data : List UInt8 := []
  createdAt : Time := zeroTime
  tier : String := ""
  contentHash : String := ""
  clientIP : String := ""
  heloHostname : String := ""
  isTLSReport : Bool := false
  isBounce : Bool := false
  quarantine : Bool := false
  quarantineFolder : String := ""

def tierEmergency : String := "emergency"
def tierMSA : String := "msa"
def tierInt : String := "int"
def tierOut : String := "out"
def tierBulk : String := "bulk"

/-- The channels of the queue manager. -/
inductive Channel
  | emergency
  | msa
  | int
  | out
  | bulk
  deriving DecidableEq

/-- `channelForTier`; an unknown tier goes out. -/
def channelForTier (tier : String) : Channel :=
  if tier = tierEmergency then .emergency
  else if tier = tierMSA then .msa
  else if tier = tierInt then .int
  else if tier = tierOut then .out
  else if tier = tierBulk then .bulk
  else .out

/-- The buffer of each channel. -/
def Channel.capacity : Channel → ℕ
  | emergency => 10000
  | msa => 50000
  | int => 100000
  | out => 50000
  | bulk => 100000

/-- `wantsDSN`. -/
def Message.wantsDSN (m : Message) (recipient event : String) : Bool :=
  match (m.dsnRecipients recipient).notify with
  | [] => event = "FAILURE" || event = "DELAY"
  | notify => notify.contains event

/-- The sender is the null reverse-path. -/
def Message.nullSender (m : Message) : Bool := m.fromAddr = "" || m.fromAddr = "<>"

/-! ### Compliance rules -/

inductive RuleMode
  | hold
  | reroute
  | copy
  | bcc
  deriving DecidableEq

def RuleMode.text : RuleMode → String
  | hold => "hold"
  | reroute => "reroute"
  | copy => "copy"
  | bcc => "bcc"

/-- The `match` of a rule; absent, it is `either`. -/
inductive RuleScope
  | either
  | sender
  | recipient
  deriving DecidableEq

/-- `compliance.Rule`. -/
structure Rule where
  name : String
  domain : String
  scope : RuleScope
  mode : RuleMode
  bcc : String := ""
  retention : Duration := 0
  legalHold : Bool := false

/-- The rule takes a message out of delivery. -/
def Rule.takesCustody (r : Rule) : Bool := r.mode = .hold || r.mode = .reroute

variable (U : CaseTables)

/-- `compliance.domain`. -/
def complianceDomain (address : String) : String :=
  match cut address '@' with
  | none => ""
  | some (_, d) => toLower U (trimSuffix d ".")

/-- `Evaluate`: the matching rules, in order. -/
def evaluate (rules : List Rule) (sender : String) (recipients : List String) : List Rule :=
  rules.filter fun r =>
    let d := toLower U (trimSuffix r.domain ".")
    (r.scope ≠ .recipient && complianceDomain U sender = d) ||
      (r.scope ≠ .sender && recipients.any fun a => complianceDomain U a = d)

/-- A further custody rule joins the first. -/
def Rule.absorb (combined r : Rule) : Rule :=
  { combined with
    name := combined.name ++ "," ++ r.name
    legalHold := combined.legalHold || r.legalHold
    retention :=
      if combined.retention = 0 ∨ r.retention = 0 then 0
      else if combined.retention < r.retention then r.retention
      else combined.retention }

/-- The one rule `applyCompliance` makes of all custody rules. -/
def combineRules (rules : List Rule) : Option Rule :=
  match rules.filter (·.takesCustody) with
  | [] => none
  | r :: rest =>
    some { rest.foldl Rule.absorb r with
      domain := join ((r :: rest).map fun r => toLower U r.domain) "," }

/-! ### Sieve plans -/

inductive ActionType
  | keep
  | fileinto
  | redirect
  | vacation
  | reject
  | discard
  | other (name : String)
  deriving DecidableEq

structure Vacation where
  sender : String := ""
  addresses : List String := []
  handle : String := ""
  mime : Bool := false
  subject : String := ""
  message : String := ""
  days : ℤ := 0

/-- One action of a plan. -/
structure SieveStep where
  type : ActionType
  reason : String := ""
  target : String := ""
  tags : List String := []
  vacation : Option Vacation := none

/-- `policy.Action` as a recipient script returns it. -/
structure SieveAction where
  actions : List SieveStep := []
  self : SieveStep

/-- The steps to execute. -/
def SieveAction.plan (a : SieveAction) : List SieveStep :=
  if a.actions = [] then [a.self] else a.actions

/-! ### Encodings and configuration -/

/-- JSON and SHA-256, as far as the queue calls them. -/
structure Codec where
  marshalMessage : Message → Except String String
  /-- `json.Unmarshal` into an empty message, its error ignored -/
  unmarshalMessage : String → Message
  /-- `json.Unmarshal` into an empty message -/
  parseMessage : String → Except String Message
  marshalAction : SieveAction → Except String String
  unmarshalAction : String → Except String SieveAction
  /-- the hash in `sieveKey` -/
  hashParts : List String → String
  /-- the key under which `sendDSN` remembers a notice -/
  noticeKey : String → String → String
  contentHash : List UInt8 → String
  /-- `removeHeader` and the header `deliverRemote` prepends, if the client
  address parses -/
  withOriginalIP : String → List UInt8 → List UInt8

/-- `RetryPolicy`; `delay n` is the capped back-off after `n` attempts, which
the source computes in floating point. -/
structure RetryPolicy where
  maxAttempts : ℤ
  delay : ℤ → Duration

/-- What the queue manager is configured with.  The flags say which optional
components are present. -/
structure QueueManager where
  tables : CaseTables
  codec : Codec
  ext : Externals
  delivery : MailDelivery
  rules : List Rule := []
  suppress : Bool := false
  suppressedRecipients : List String := []
  trackIncoming : Bool := false
  delayWarningAfter : Duration := 0
  stormGuard : Bool := false
  destinations : Bool := false
  users : Bool := false
  policyManager : Bool := false
  scannerURL : String := ""
  localDomains : List String := []
  policy : RetryPolicy

/-- `sieveKey`. -/
def sieveKey (C : Codec) (parts : List String) : String := "sieve-" ++ C.hashParts parts

/-- `sieveRecord`. -/
def sieveRecord (id : String) (metadata : Metadata) (now : Time) : JournalEntry :=
  { messageID := id
    tier := "sieve_effect"
    status := "sieve_effect"
    createdAt := now
    metadata := metadata }

/-- `extractDomain`. -/
def extractDomain (address : String) : String := (addressDomain address).getD ""

/-- `RecipientSuppressed`. -/
def recipientSuppressed (qm : QueueManager) (address : String) : Bool :=
  qm.suppressedRecipients.any fun recipient => equalFold qm.tables recipient address

/-- Whether `processMessage` delivers to a mailbox of this server. -/
def isLocal (qm : QueueManager) (rcpt : String) : Bool :=
  qm.localDomains.contains (toLower qm.tables (extractDomain rcpt)) &&
    !hasExplicitRoute qm.tables qm.delivery (extractDomain rcpt)

/-- `mailstorm.Identity`. -/
def identity (user ip : String) : String := if user ≠ "" then "user:" ++ user else "ip:" ++ ip

/-- `messageFromEntry`. -/
def messageFromEntry (C : Codec) (entry : JournalEntry) : Message :=
  let msg := if entry.meta "message" ≠ "" then C.unmarshalMessage (entry.meta "message") else {}
  let msg :=
    if msg.admissionKey = "" then
      let ip := if msg.clientIP = "" then entry.meta "client_ip" else msg.clientIP
      { msg with
        clientIP := ip
        admissionKey := if ip ≠ "" then identity "" ip else "unknown" }
    else msg
  { msg with
    quarantine := entry.status = "held"
    id := entry.messageID
    fromAddr := entry.fromAddr
    toAddrs := entry.toAddrs
    data := entry.data
    createdAt := entry.createdAt
    tier := entry.tier }

/-! ### Fair retry order -/

/-- The domain `fairPending` groups an entry under. -/
def retryDomain (e : JournalEntry) : String :=
  match e.toAddrs with
  | [] => ""
  | rcpt :: _ => ((cut rcpt '@').map fun p => toLower U p.2).getD ""

/-- One pass over the domains: the head of each group that has one, and the
groups that are left. -/
def serveRound : List String → (String → List JournalEntry) →
    List JournalEntry × (String → List JournalEntry)
  | [], groups => ([], groups)
  | domain :: order, groups =>
    match groups domain with
    | [] => serveRound order groups
    | e :: rest =>
      let served := serveRound order (Function.update groups domain rest)
      (e :: served.1, served.2)

/-- So many passes. -/
def serveRounds (order : List String) : ℕ → (String → List JournalEntry) → List JournalEntry
  | 0, _ => []
  | n + 1, groups =>
    (serveRound order groups).1 ++ serveRounds order n (serveRound order groups).2

/-- `fairPending` on entries already sorted by creation. -/
def fairPending (entries : List JournalEntry) : List JournalEntry :=
  let groups := entries.foldl (fun g e => g.add (retryDomain U e) e) ({} : Groups JournalEntry)
  serveRounds groups.keys entries.length groups.members

end EmailService
