/-
EmailService/DmarcReports.lean

The aggregate reports on DMARC evaluations (internal/security/dmarc_reports.go).

`Record` counts an observation in the report of its day and its policy.  A report
is a file, and once it is sealed, or somebody has got it, `Record` goes on to the
next generation of it.  `SendPending` seals the reports of days that are over,
sends each to the destinations that have not got it, and marks them in the file.
One mutex guards the files, so what is done under it is a step here; another one
makes sure that there is one `SendPending` at a time.  It sends without the first
mutex, and marks by writing the report it holds.  That is safe because of the
seal: nobody else writes that file.

A file is taken for what `json.Unmarshal` reads of it, which is the report that was
written with its texts repaired.

Main result: `reports_exact`.  An observation without a reporting address is not
counted at all, though `Record` returns no error (`unwanted_acknowledged`).
-/
import EmailService.Entry
import EmailService.JsonStruct
import EmailService.MailAddress
import EmailService.Sha256

namespace EmailService.DmarcReports

open Json Utf8 List Function
open Std (ExtTreeMap)

/-! ### Reports -/

/-- `DMARCPolicySnapshot`. -/
structure PolicySnapshot where
  domain : List UInt8
  adkim : List UInt8 := []
  aspf : List UInt8 := []
  policy : List UInt8 := []
  subPolicy : List UInt8 := []
  pct : Int64 := 0
  deriving DecidableEq

/-- `DMARCAuthResult`. -/
structure AuthResult where
  domain : List UInt8
  scope : List UInt8 := []
  result : List UInt8
  deriving DecidableEq

/-- `DMARCReason`. -/
structure Reason where
  type : List UInt8
  comment : List UInt8 := []
  deriving DecidableEq

/-- `DMARCRow`. -/
structure Row where
  ip : List UInt8
  count : Int64 := 0
  disposition : List UInt8
  dkim : List UInt8
  spf : List UInt8
  reason : Option Reason
  envelopeFrom : List UInt8
  headerFrom : List UInt8
  authDKIM : List AuthResult
  authSPF : AuthResult
  deriving DecidableEq

/-- `DMARCReport`; `sent` has the destinations for which the map has `true`. -/
structure Report where
  isSealed : Bool := false
  version : List UInt8
  org : List UInt8
  email : List UInt8
  id : List UInt8
  rangeBegin : ℤ
  rangeEnd : ℤ
  published : PolicySnapshot
  records : List Row := []
  rua : List UInt8
  sent : List (List UInt8) := []
  deriving DecidableEq

/-- The arguments of `Record`. -/
structure Observation where
  time : Time
  published : PolicySnapshot
  rua : List UInt8
  spfAligned : Bool
  dkimAligned : Bool
  ip : List UInt8
  headerFrom : List UInt8
  spfDomain : List UInt8
  spfResult : List UInt8
  scope : List UInt8
  disposition : List UInt8
  reason : List UInt8
  dkim : List (List UInt8 × Bool)

/-! ### JSON -/

def PolicySnapshot.value (p : PolicySnapshot) : Value :=
  .obj [(bytes "Domain", .str p.domain), (bytes "ADKIM", .str p.adkim),
    (bytes "ASPF", .str p.aspf), (bytes "Policy", .str p.policy),
    (bytes "SubPolicy", .str p.subPolicy), (bytes "Pct", .num (decimalInt p.pct.toInt))]

def AuthResult.value (a : AuthResult) : Value :=
  .obj [(bytes "Domain", .str a.domain), (bytes "Scope", .str a.scope),
    (bytes "Result", .str a.result)]

/-- A nil slice is `null`. -/
def authValue : List AuthResult → Value
  | [] => .null
  | rs => .arr (rs.map AuthResult.value)

def reasonValue : Option Reason → Value
  | none => .null
  | some r => .obj [(bytes "Type", .str r.type), (bytes "Comment", .str r.comment)]

def Row.value (r : Row) : Value :=
  .obj [(bytes "Row", .obj [(bytes "IP", .str r.ip),
      (bytes "Count", .num (decimalInt r.count.toInt)),
      (bytes "Evaluated", .obj [(bytes "Disposition", .str r.disposition),
        (bytes "DKIM", .str r.dkim), (bytes "SPF", .str r.spf),
        (bytes "Reason", reasonValue r.reason)])]),
    (bytes "Identifiers", .obj [(bytes "EnvelopeFrom", .str r.envelopeFrom),
      (bytes "HeaderFrom", .str r.headerFrom)]),
    (bytes "Auth", .obj [(bytes "DKIM", authValue r.authDKIM), (bytes "SPF", r.authSPF.value)])]

/-! ### What a file keeps -/

def PolicySnapshot.repaired (p : PolicySnapshot) : PolicySnapshot :=
  { p with
    domain := repair p.domain
    adkim := repair p.adkim
    aspf := repair p.aspf
    policy := repair p.policy
    subPolicy := repair p.subPolicy }

def AuthResult.repaired (a : AuthResult) : AuthResult :=
  ⟨repair a.domain, repair a.scope, repair a.result⟩

def Reason.repaired (r : Reason) : Reason := ⟨repair r.type, repair r.comment⟩

def Row.repaired (r : Row) : Row :=
  { r with
    ip := repair r.ip
    disposition := repair r.disposition
    dkim := repair r.dkim
    spf := repair r.spf
    reason := r.reason.map Reason.repaired
    envelopeFrom := repair r.envelopeFrom
    headerFrom := repair r.headerFrom
    authDKIM := r.authDKIM.map AuthResult.repaired
    authSPF := r.authSPF.repaired }

/-- The report as it is read back. -/
def Report.stored (r : Report) : Report :=
  { r with
    version := repair r.version
    org := repair r.org
    email := repair r.email
    id := repair r.id
    published := r.published.repaired
    records := r.records.map Row.repaired
    rua := repair r.rua
    sent := r.sent.map repair }

/-! ### `Record` -/

/-- The name of a report: its file, without the suffix. -/
abbrev Name := List UInt8

abbrev Files := ExtTreeMap Name Report compare

/-- A day, in nanoseconds. -/
def dayLength : ℤ := 86400 * 1000000000

def unix (t : Time) : ℤ := t / 1000000000

/-- `Truncate(24 * time.Hour)`. -/
def dayStart (t : Time) : Time := t - (t - zeroTime) % dayLength

/-- `Format("20060102")`. -/
def dateText (start : Time) : List UInt8 :=
  let (year, month, day) := Rfc3339.date ((start - zeroTime) / dayLength)
  Rfc3339.appendInt year 4 ++ Rfc3339.appendInt month 2 ++ Rfc3339.appendInt day 2

namespace Observation

variable (o : Observation)

def start : Time := dayStart o.time

def baseID : Name :=
  dateText o.start ++
    45 :: hexEncode (Sha256.sum256 (Value.arr [o.published.value, .str o.rua]).print)

def generationID (generation : ℕ) : Name :=
  if 0 < generation then o.baseID ++ 45 :: decimal generation else o.baseID

def row : Row where
  ip := o.ip
  disposition := o.disposition
  dkim := if o.dkimAligned then bytes "pass" else bytes "fail"
  spf := if o.spfAligned then bytes "pass" else bytes "fail"
  reason := if o.reason = [] then none else some { type := o.reason }
  envelopeFrom := o.spfDomain
  headerFrom := o.headerFrom
  authDKIM := o.dkim.map fun d =>
    { domain := d.1, result := if d.2 then bytes "pass" else bytes "fail" }
  authSPF :=
    { domain := o.spfDomain
      scope := o.scope
      result := if o.spfResult = [] then bytes "none" else o.spfResult }

/-- Somebody wants to know. -/
def Wanted : Prop := o.published.domain ≠ [] ∧ o.rua ≠ []

instance : Decidable o.Wanted := by unfold Wanted; infer_instance

end Observation

section Record

variable (org : List UInt8)

def freshReport (o : Observation) (id : Name) : Report where
  version := bytes "1.0"
  org := org
  email := bytes "postmaster@" ++ org
  id := id
  rangeBegin := unix o.start
  rangeEnd := unix (o.start + dayLength - 1000000000)
  published := o.published
  rua := o.rua

/-- Whether `Record` may still count in a report. -/
def Report.isOpen (r : Report) : Bool := !r.isSealed && r.sent.isEmpty

/-- The report with that name, or a new one. -/
def loadReport (files : Files) (o : Observation) (id : Name) : Report :=
  files[id]?.getD (freshReport org o id)

/-- The loop over the generations: the name of the first open one. -/
def findGeneration (files : Files) (o : Observation) : ℕ → ℕ → Option Name
  | 0, _ => none
  | fuel + 1, generation =>
    if (loadReport org files o (o.generationID generation)).isOpen then
      some (o.generationID generation)
    else findGeneration files o fuel (generation + 1)

/-- Whether a row of a report is that row. -/
def sameRow (row old : Row) : Bool := { old with count := 0 }.value.print = row.value.print

/-- One more of a row that is there. -/
def bump (row : Row) : List Row → Option (List Row)
  | [] => none
  | old :: rest =>
    if sameRow row old then some ({ old with count := old.count + 1 } :: rest)
    else (bump row rest).map (old :: ·)

def addRow (row : Row) (records : List Row) : Except String (List Row) :=
  match bump row records with
  | some records => .ok records
  | none =>
    if 10000 ≤ records.length then .error "DMARC report row limit reached"
    else .ok (records ++ [{ row with count := 1 }])

/-- `Record` up to the writing: which report it writes, if any. -/
def record (files : Files) (o : Observation) : Except String (Option (Name × Report)) :=
  if ¬ o.Wanted then .ok none
  else if !NetMail.isIP (o.ip.map fun b => Char.ofNat b.toNat) then
    .error "invalid DMARC source IP"
  else
    -- there are not more closed generations than files
    match findGeneration org files o (files.size + 1) 0 with
    | none => .error "unreachable"
    | some id =>
      let r := loadReport org files o id
      (addRow o.row r.records).map fun records => some (id, { r with records := records })

end Record

/-! ### Calls -/

/-- Where a call of `SendPending` is. -/
inductive Sender
  | idle
  /-- before the next report -/
  | walking (reports : List Report)
  /-- the day of the report is over -/
  | closed (r : Report) (rest : List Report)
  /-- the report is sealed; before the next destination -/
  | sending (r : Report) (uris : List (List UInt8)) (rest : List Report)
  /-- a destination got the report, and is not marked in the file -/
  | marking (r : Report) (uris : List (List UInt8)) (rest : List Report)

/-- A call of `SendMail`. -/
structure Transmission where
  report : Report
  uri : List UInt8
  address : List UInt8

/-- An observation that a file counts. -/
structure Counted where
  call : ℕ
  report : Name
  row : Row
  deriving DecidableEq

/-- The files and the sender; beside them how often `Record` was called, which of these
calls returned no error, what has been counted where, and what was sent. -/
structure State where
  files : Files := {}
  sender : Sender := .idle
  calls : ℕ := 0
  acked : List (ℕ × Observation) := []
  counted : List Counted := []
  transmitted : List Transmission := []

/-- How a file is replaced: not at all, or with an error of the directory
afterwards, or well. -/
inductive Written
  | failed
  | unreported
  | ok
  deriving DecidableEq

inductive Action
  | record (o : Observation) (w : Written)
  | list
  | check (now : Time)
  | freeze (w : Written)
  /-- `address` is what `AuthorizedDestination` makes of the destination -/
  | send (address : Option (List UInt8)) (ok : Bool)
  | mark (w : Written)
  /-- `SendPending` returns, with or without an error, or the process ends -/
  | stop

section Steps

variable (org : List UInt8) (st : State) (id : Name) (r : Report)

def State.write : State :=
  { st with files := st.files.insert id r.stored }

/-- The file of a report counts an observation. -/
def State.count (o : Observation) : State :=
  { st.write id r with counted := ⟨st.calls, id, o.row.repaired⟩ :: st.counted }

/-- A report that is read into one in memory: the map keeps what it had. -/
def Report.reread (r f : Report) : Report := { f with sent := r.sent ++ f.sent }

/-- The destinations of a report. -/
def Report.uris (r : Report) : List (List UInt8) := r.rua.splitOn 44

/-- What is done with one file, under the mutex, or between two such moments; nothing if
the calls are not there. -/
def step (st : State) : Action → Option State
  | .record o w =>
    let next := { st with calls := st.calls + 1 }
    match record org st.files o, w with
    | .error _, _ => some next
    | .ok none, _ => some { next with acked := (st.calls, o) :: st.acked }
    | .ok (some _), .failed => some next
    | .ok (some (id, r)), .unreported =>
      some { st.count id r o with calls := st.calls + 1 }
    | .ok (some (id, r)), .ok =>
      some { st.count id r o with
        calls := st.calls + 1
        acked := (st.calls, o) :: st.acked }
  | .list =>
    match st.sender with
    -- sorted by `Metadata.ID`, as the map is
    | .idle => some { st with sender := .walking (st.files.toList.map Prod.snd) }
    | _ => none
  | .check now =>
    match st.sender with
    | .walking (r :: rest) =>
      some { st with
        sender := if unix now ≤ r.rangeEnd then .walking rest else .closed r rest }
    | _ => none
  | .freeze w =>
    match st.sender with
    | .closed r rest =>
      match st.files[r.id]? with
      | none => some { st with sender := .idle }
      | some f =>
        let r := r.reread f
        if r.isSealed then some { st with sender := .sending r r.uris rest }
        else
          let r := { r with isSealed := true }
          match w with
          | .failed => some { st with sender := .idle }
          | .unreported => some { st.write r.id r with sender := .idle }
          | .ok => some { st.write r.id r with sender := .sending r r.uris rest }
    | _ => none
  | .send address ok =>
    match st.sender with
    | .sending _ [] rest => some { st with sender := .walking rest }
    | .sending r (uri :: uris) rest =>
      match decide (uri ∈ r.sent), address with
      | false, some address =>
        some { st with
          sender :=
            if ok then .marking { r with sent := uri :: r.sent } uris rest
            else .sending r uris rest
          transmitted := ⟨r, uri, address⟩ :: st.transmitted }
      | _, _ => some { st with sender := .sending r uris rest }
    | _ => none
  | .mark w =>
    match st.sender with
    | .marking r uris rest =>
      match w with
      | .failed => some { st with sender := .idle }
      | .unreported => some { st.write r.id r with sender := .idle }
      | .ok => some { st.write r.id r with sender := .sending r uris rest }
    | _ => none
  | .stop => some { st with sender := .idle }

def run : State → List Action → Option State
  | st, [] => some st
  | st, a :: as => (step org st a).bind fun st => run st as

end Steps

/-! ### Rows -/

section Rows

theorem AuthResult.repaired_value (a : AuthResult) : a.value.repaired = a.repaired.value := by
  simp only [AuthResult.value, Value.repaired, repairedMembers, repair_bytes, AuthResult.repaired]

variable (rs : List AuthResult)

theorem repairedElements_value :
    repairedElements (rs.map AuthResult.value) =
      (rs.map AuthResult.repaired).map AuthResult.value := by
  induction rs with
  | nil => rfl
  | cons r rs ih =>
    simp only [map_cons, repairedElements, ih, AuthResult.repaired_value]

theorem repaired_authValue : (authValue rs).repaired = authValue (rs.map AuthResult.repaired) := by
  cases rs with
  | nil => rfl
  | cons r rs =>
    rw [authValue, Value.repaired, repairedElements_value]
    · rfl
    · exact cons_ne_nil _ _

theorem repaired_reasonValue (r : Option Reason) :
    (reasonValue r).repaired = reasonValue (r.map Reason.repaired) := by
  cases r with
  | none => rfl
  | some r =>
    simp only [reasonValue, Value.repaired, repairedMembers, repair_bytes, Option.map_some,
      Reason.repaired]

theorem Row.repaired_value (r : Row) : r.value.repaired = r.repaired.value := by
  simp only [Row.value, Value.repaired, repairedMembers, repair_bytes, repaired_reasonValue,
    repaired_authValue, AuthResult.repaired_value, Row.repaired]

theorem AuthResult.value_injective : Injective AuthResult.value := by
  rintro ⟨d, s, r⟩ ⟨d', s', r'⟩ h
  simp only [AuthResult.value, Value.obj.injEq, cons.injEq, Prod.mk.injEq, Value.str.injEq,
    true_and, and_true] at h
  obtain ⟨rfl, rfl, rfl⟩ := h
  rfl

theorem authValue_injective : Injective authValue := by
  rintro (- | ⟨a, as⟩) (- | ⟨b, bs⟩) h
  · rfl
  · cases h
  · cases h
  · exact AuthResult.value_injective.list_map (Value.arr.inj h)

theorem reasonValue_injective : Injective reasonValue := by
  rintro (- | ⟨t, c⟩) (- | ⟨t', c'⟩) h
  · rfl
  · cases h
  · cases h
  · simp only [reasonValue, Value.obj.injEq, cons.injEq, Prod.mk.injEq, Value.str.injEq,
      true_and, and_true] at h
    obtain ⟨rfl, rfl⟩ := h
    rfl

theorem decimalInt_injective : Injective decimalInt := fun a b h =>
  Option.some.inj (by rw [← parseInt_decimalInt, h, parseInt_decimalInt])

theorem Row.value_injective : Injective Row.value := by
  intro r s h
  simp only [Row.value, Value.obj.injEq, cons.injEq, Prod.mk.injEq, Value.str.injEq,
    Value.num.injEq, true_and, and_true] at h
  obtain ⟨⟨hip, hcount, hdisp, hdkim, hspf, hreason⟩, ⟨henv, hfrom⟩, hauth, hauthSPF⟩ := h
  have hcount := Int64.toInt_inj.mp (decimalInt_injective hcount)
  have hreason := reasonValue_injective hreason
  have hauth := authValue_injective hauth
  have hauthSPF := AuthResult.value_injective hauthSPF
  cases r
  cases s
  dsimp only at *
  subst hip hcount hdisp hdkim hspf hreason henv hfrom hauth hauthSPF
  rfl

theorem sound_authValue : (authValue rs).Sound := by
  have hone : ∀ a : AuthResult, a.value.Sound := fun a => by
    rw [AuthResult.value, Value.Sound]
    simp only [SoundMembers, sound_str, and_self]
  have hall : ∀ rs : List AuthResult, SoundElements (rs.map AuthResult.value) := by
    intro rs
    induction rs with
    | nil => trivial
    | cons r rs ih => exact ⟨hone r, ih⟩
  cases rs with
  | nil => trivial
  | cons r rs => exact hall (r :: rs)

theorem Row.sound_value (r : Row) : r.value.Sound := by
  have hreason : (reasonValue r.reason).Sound := by
    cases r.reason with
    | none => trivial
    | some r => exact ⟨sound_str _, sound_str _, trivial⟩
  have hspf : r.authSPF.value.Sound := ⟨sound_str _, sound_str _, sound_str _, trivial⟩
  exact ⟨⟨sound_str _, sound_decimalInt _,
    ⟨sound_str _, sound_str _, sound_str _, hreason, trivial⟩, trivial⟩,
    ⟨sound_str _, sound_str _, trivial⟩, ⟨sound_authValue _, hspf, trivial⟩, trivial⟩

/-- Rows with the same text are the same once they are stored. -/
theorem Row.repaired_of_print {r s : Row} (h : r.value.print = s.value.print) :
    r.repaired = s.repaired := by
  have hstops : Stops [] := by simp [Stops]
  have hr := value_print (n := s.value.print.length) r.sound_value hstops (by rw [h])
  have hs := value_print (n := s.value.print.length) s.sound_value hstops le_rfl
  rw [h, hs] at hr
  have heq : s.value.repaired = r.value.repaired := (Prod.mk.inj (Except.ok.inj hr)).1
  rw [Row.repaired_value, Row.repaired_value] at heq
  exact (Row.value_injective heq).symm

end Rows

/-! ### Counting -/

section Counting

/-- The row without its count. -/
def Row.key (r : Row) : Row := { r with count := 0 }

/-- How often the rows of a report count `k`. -/
def countOf (k : Row) : List Row → Int64
  | [] => 0
  | r :: rs => (if r.key = k then r.count else 0) + countOf k rs

variable {row k : Row} {records rs : List Row}

theorem countOf_append (k : Row) (rs ss : List Row) :
    countOf k (rs ++ ss) = countOf k rs + countOf k ss := by
  induction rs with
  | nil => exact (Int64.zero_add _).symm
  | cons r rs ih => rw [cons_append, countOf, countOf, ih, Int64.add_assoc]

@[simp] theorem Row.repaired_repaired (r : Row) : r.repaired.repaired = r.repaired := by
  have hreason : ∀ o : Option Reason,
      (o.map .repaired).map Reason.repaired = o.map .repaired := by
    intro o
    cases o with
    | none => rfl
    | some o => simp [Reason.repaired]
  have hauth : ∀ a : AuthResult, a.repaired.repaired = a.repaired := by
    simp [AuthResult.repaired]
  simp only [Row.repaired, repair_repair, hreason, map_map, hauth, comp_def]

theorem bump_spec (hstored : ∀ r ∈ records, r.repaired = r)
    (h : bump row records = some rs) :
    (∀ r ∈ rs, r.repaired = r) ∧
      countOf k rs = countOf k records + if row.repaired = k then 1 else 0 := by
  induction records generalizing rs with
  | nil => cases h
  | cons old rest ih =>
    rw [forall_mem_cons] at hstored
    rw [bump] at h
    split at h
    · next hsame =>
      cases h
      have hkey : old.key = row.repaired := by
        have heq := Row.repaired_of_print (of_decide_eq_true hsame)
        rw [← heq]
        exact congrArg Row.key hstored.1.symm
      refine ⟨?_, ?_⟩
      · rw [forall_mem_cons]
        refine ⟨?_, hstored.2⟩
        show { old.repaired with count := old.count + 1 } = _
        rw [hstored.1]
      · show (if old.key = k then old.count + 1 else 0) + countOf k rest = _
        rw [countOf, hkey]
        split
        · rw [Int64.add_assoc, Int64.add_comm 1, ← Int64.add_assoc]
        · rw [Int64.add_zero]
    · obtain ⟨rs', hrs', rfl⟩ := Option.map_eq_some_iff.mp h
      obtain ⟨hall, hcount⟩ := ih hstored.2 hrs'
      refine ⟨forall_mem_cons.mpr ⟨hstored.1, hall⟩, ?_⟩
      rw [countOf, countOf, hcount, Int64.add_assoc]

/-- **A row is counted once more.** -/
theorem addRow_spec (hrow : row.count = 0) (hstored : ∀ r ∈ records, r.repaired = r)
    (h : addRow row records = .ok rs) :
    countOf k (rs.map Row.repaired) =
      countOf k records + if row.repaired = k then 1 else 0 := by
  rw [addRow] at h
  split at h
  · next rs' hbump =>
    cases h
    obtain ⟨hall, hcount⟩ := bump_spec hstored hbump
    rw [map_congr_left hall, map_id', hcount]
  · split at h
    · cases h
    · cases h
      have hkey : { row with count := 1 }.repaired.key = row.repaired := by
        show { row.repaired with count := 0 } = row.repaired
        rw [← hrow]
        rfl
      rw [map_append, map_congr_left hstored, map_id', countOf_append]
      refine congrArg (countOf k records + ·) ?_
      rw [map_singleton, countOf, countOf, hkey, Int64.add_zero]
      rfl

end Counting

/-! ### Names -/

section Names

variable {org : List UInt8}

theorem valid_name (o : Observation) (generation : ℕ) : Valid (o.generationID generation) := by
  have hdecimal : ∀ (n : ℕ), ∀ b ∈ decimal n, b.toNat < 128 := by
    intro n b hb
    have h := isDigit_of_mem_decimal hb
    simp only [isDigit, Bool.and_eq_true, decide_eq_true_eq] at h
    omega
  have hint : ∀ (x : ℤ) (w : ℕ), ∀ b ∈ Rfc3339.appendInt x w, b.toNat < 128 := by
    intro x w b hb
    rw [Rfc3339.appendInt, mem_append] at hb
    rcases hb with hb | hb
    · split at hb
      · rw [mem_singleton.mp hb]
        decide
      · cases hb
    · split at hb
      · exact (Rfc3339.short_field w _).2 b hb
      · exact hdecimal _ b hb
  have hbase : ∀ b ∈ o.baseID, b.toNat < 128 := by
    intro b hb
    simp only [Observation.baseID, dateText, mem_append, mem_cons] at hb
    rcases hb with ((hb | hb) | hb) | rfl | hb
    · exact hint _ _ b hb
    · exact hint _ _ b hb
    · exact hint _ _ b hb
    · decide
    · exact ((printed_hexEncode _).2 b hb).2
  refine valid_of_ascii fun b hb => ?_
  rw [Observation.generationID] at hb
  split at hb
  · rcases mem_append.mp hb with hb | hb
    · exact hbase b hb
    · rcases mem_cons.mp hb with rfl | hb
      · decide
      · exact hdecimal _ b hb
  · exact hbase b hb

variable {files : Files} {o : Observation} {fuel generation : ℕ} {id : Name}

theorem findGeneration_open (h : findGeneration org files o fuel generation = some id) :
    (∃ g, id = o.generationID g) ∧ (loadReport org files o id).isOpen = true := by
  induction fuel generalizing generation with
  | zero => cases h
  | succ fuel ih =>
    rw [findGeneration] at h
    split at h
    · next hopen =>
      cases h
      exact ⟨⟨generation, rfl⟩, hopen⟩
    · exact ih h

end Names

/-! ### The files -/

section Invariant

variable {org : List UInt8} {st st' : State} {files : Files} {a : Action}

/-- The report is one that was read. -/
def Report.Read (r : Report) : Prop := r.stored = r

theorem Report.read_stored (r : Report) : r.stored.Read := by
  have hpolicy : r.published.repaired.repaired = r.published.repaired := by
    simp [PolicySnapshot.repaired]
  simp only [Read, stored, repair_repair, hpolicy, map_map, comp_def,
    Row.repaired_repaired]

namespace Report.Read

variable {r f : Report}

section

variable (h : r.Read)

include h

theorem id : repair r.id = r.id := congrArg Report.id h

theorem records : ∀ row ∈ r.records, row.repaired = row :=
  map_inj_left.mp ((congrArg Report.records h).trans (map_id' _).symm)

theorem sent : ∀ uri ∈ r.sent, repair uri = uri :=
  map_inj_left.mp ((congrArg Report.sent h).trans (map_id' _).symm)

theorem setSent {sent : List (List UInt8)} (hsent : ∀ uri ∈ sent, repair uri = uri) :
    { r with sent := sent }.Read := by
  show { r.stored with sent := sent.map repair } = _
  rw [map_congr_left hsent, map_id', show r.stored = r from h]

theorem reread (hf : f.Read) : (r.reread f).Read := by
  refine hf.setSent fun uri huri => ?_
  rcases mem_append.mp huri with huri | huri
  · exact h.sent uri huri
  · exact hf.sent uri huri

theorem setSealed : { r with isSealed := true }.Read := by
  show { r.stored with isSealed := true } = _
  rw [show r.stored = r from h]

theorem uris : ∀ uri ∈ r.uris, repair uri = uri := fun _ huri =>
  repair_of_valid
    (valid_of_mem_splitOn (by decide) (valid_of_repair (congrArg rua h)) huri)

end

end Report.Read

/-- The report that `SendPending` holds is sealed, and its file has the same rows. -/
structure Held (files : Files) (r : Report) : Prop where
  read : r.Read
  isSealed : r.isSealed = true
  file : ∃ f, files[r.id]? = some f ∧ f.isSealed = true ∧ f.records = r.records ∧
    f.sent ⊆ r.sent

/-- What the sender knows of the files. -/
def InHand (files : Files) : Sender → Prop
  | .idle => True
  | .walking reports => ∀ r ∈ reports, r.Read
  | .closed r rest => r.Read ∧ ∀ r ∈ rest, r.Read
  | .sending r uris rest | .marking r uris rest =>
    Held files r ∧ (∀ uri ∈ uris, repair uri = uri) ∧ ∀ r ∈ rest, r.Read

/-- The rows of a file. -/
def rowsOf (files : Files) (name : Name) : List Row := (files[name]?.map Report.records).getD []

/-- The observations a file counts in a row. -/
def State.tally (st : State) (name : Name) (k : Row) : ℕ :=
  st.counted.countP fun c => c.report = name ∧ c.row = k

/-- What holds of the files and the sender. -/
structure Sound (st : State) : Prop where
  files : ∀ (name : Name) (f : Report), st.files[name]? = some f → f.Read ∧ f.id = name
  counts : ∀ name k, countOf k (rowsOf st.files name) = Int64.ofNat (st.tally name k)
  calls : ∀ c ∈ st.counted, c.call < st.calls
  acked : ∀ i o, (i, o) ∈ st.acked → o.Wanted →
    ∃ g, st.counted.filter (·.call = i) = [⟨i, o.generationID g, o.row.repaired⟩]
  transmitted : ∀ t ∈ st.transmitted, ∃ f, st.files[t.report.id]? = some f ∧
    f.isSealed = true ∧ f.records = t.report.records
  sender : InHand st.files st.sender

/-- How the files go on: sealed ones keep their rows, and marks stay. -/
structure Extends (files files' : Files) : Prop where
  file : ∀ {name : Name} {f : Report}, files[name]? = some f →
    ∃ f', files'[name]? = some f' ∧ f.sent ⊆ f'.sent ∧
      (f.isSealed = true → f'.isSealed = true ∧ f'.records = f.records)

theorem Extends.refl (files : Files) : Extends files files :=
  ⟨fun {_ f} h => ⟨f, h, .refl _, fun hs => ⟨hs, rfl⟩⟩⟩

variable {name : Name} {r f : Report} {s : Sender}

theorem Extends.insert
    (h : ∀ f, files[name]? = some f → f.sent ⊆ r.sent ∧ (f.isSealed = true → r.isSealed = true ∧
      r.records = f.records)) : Extends files (files.insert name r) := by
  refine ⟨fun {name' f} hf => ?_⟩
  rw [ExtTreeMap.getElem?_insert]
  split
  · next heq =>
    rw [Std.LawfulEqCmp.compare_eq_iff_eq] at heq
    subst heq
    exact ⟨r, rfl, h f hf⟩
  · exact ⟨f, hf, .refl _, fun hs => ⟨hs, rfl⟩⟩

theorem Extends.transmitted {files' : Files} (h : Extends files files') {t : Transmission}
    (ht : ∃ f : Report, files[t.report.id]? = some f ∧ f.isSealed = true ∧
      f.records = t.report.records) :
    ∃ f : Report, files'[t.report.id]? = some f ∧ f.isSealed = true ∧
      f.records = t.report.records := by
  obtain ⟨f, hf, hsealed, hrecords⟩ := ht
  obtain ⟨f', hf', -, hsame⟩ := h.file hf
  exact ⟨f', hf', (hsame hsealed).1, (hsame hsealed).2.trans hrecords⟩

theorem getElem?_insert_of_ne {name' : Name} (h : name ≠ name') (r : Report) :
    (files.insert name r)[name']? = files[name']? := by
  rw [ExtTreeMap.getElem?_insert, if_neg]
  rwa [Std.LawfulEqCmp.compare_eq_iff_eq]

theorem getElem?_insert_same (name : Name) (r : Report) :
    (files.insert name r)[name]? = some r := by
  rw [ExtTreeMap.getElem?_insert, if_pos Std.ReflCmp.compare_self]

/-! ### Steps of the sender -/

theorem Sound.setSender (h : Sound st) (hs : InHand st.files s) :
    Sound { st with sender := s } where
  __ := h
  sender := hs

/-- The file of a report that keeps its rows is written. -/
theorem extends_write (hread : r.Read) (hf : st.files[r.id]? = some f)
    (hrecords : f.records = r.records) (hsent : f.sent ⊆ r.sent) (hsealed : r.isSealed = true) :
    Extends st.files (st.write r.id r).files := by
  refine .insert fun f' hf' => ?_
  rw [hf] at hf'
  cases hf'
  rw [show r.stored = r from hread]
  exact ⟨hsent, fun _ => ⟨hsealed, hrecords.symm⟩⟩

theorem Sound.write (h : Sound st) (hread : r.Read) (hf : st.files[r.id]? = some f)
    (hrecords : f.records = r.records) (hsent : f.sent ⊆ r.sent) (hsealed : r.isSealed = true)
    (hs : InHand (st.write r.id r).files s) : Sound { st.write r.id r with sender := s } where
  files name f' hf' := by
    change (st.files.insert r.id r.stored)[name]? = some f' at hf'
    by_cases hname : r.id = name
    · subst hname
      rw [getElem?_insert_same] at hf'
      cases hf'
      exact ⟨r.read_stored, hread.id⟩
    · rw [getElem?_insert_of_ne hname] at hf'
      exact h.files name f' hf'
  counts name k := by
    have hsame : rowsOf (st.write r.id r).files name = rowsOf st.files name := by
      show ((st.files.insert r.id r.stored)[name]?.map Report.records).getD [] = _
      by_cases hname : r.id = name
      · subst hname
        rw [getElem?_insert_same, rowsOf, hf, show r.stored = r from hread]
        exact hrecords.symm
      · rw [getElem?_insert_of_ne hname, rowsOf]
    show countOf k (rowsOf (st.write r.id r).files name) = _
    rw [hsame]
    exact h.counts name k
  calls := h.calls
  acked := h.acked
  transmitted t ht :=
    (extends_write hread hf hrecords hsent hsealed).transmitted (h.transmitted t ht)
  sender := hs

theorem held_write (hread : r.Read) (hsealed : r.isSealed = true) :
    Held (st.write r.id r).files r where
  read := hread
  isSealed := hsealed
  file := ⟨r.stored, getElem?_insert_same r.id r.stored, by
    rw [show r.stored = r from hread]
    exact ⟨hsealed, rfl, .refl _⟩⟩

/-! ### Steps of `Record` -/

variable {o : Observation} {id : Name} {r : Report}

/-- What `Record` writes. -/
structure Writes (org : List UInt8) (files : Files) (o : Observation) (id : Name) (r : Report) :
    Prop where
  name : ∃ g, id = o.generationID g
  isOpen : (loadReport org files o id).isOpen = true
  row : ∃ rs, addRow o.row (loadReport org files o id).records = .ok rs ∧
    r = { loadReport org files o id with records := rs }

theorem record_ok {out : Option (Name × Report)} (h : record org files o = .ok out) :
    ¬ o.Wanted ∧ out = none ∨
      o.Wanted ∧ ∃ id r, out = some (id, r) ∧ Writes org files o id r := by
  unfold record at h
  split_ifs at h with hwanted hip
  · right
    refine ⟨hwanted, ?_⟩
    split at h
    · cases h
    · next id hfind =>
      obtain ⟨hname, hopen⟩ := findGeneration_open hfind
      dsimp only at h
      cases hadd : addRow o.row (loadReport org files o id).records with
      | error e =>
        rw [hadd] at h
        cases h
      | ok rs =>
        rw [hadd] at h
        cases h
        exact ⟨id, _, rfl, hname, hopen, rs, hadd, rfl⟩
  · cases h
    exact .inl ⟨hwanted, rfl⟩

/-- A report that is loaded was read, or it has no rows. -/
theorem Sound.loadReport (h : Sound st) (org : List UInt8) (o : Observation) (id : Name) :
    (loadReport org st.files o id).id = id ∧
      (∀ row ∈ (loadReport org st.files o id).records, row.repaired = row) ∧
      (loadReport org st.files o id).records = rowsOf st.files id := by
  rw [DmarcReports.loadReport, rowsOf]
  cases hf : st.files[id]? with
  | none => exact ⟨rfl, nofun, rfl⟩
  | some f => exact ⟨(h.files id f hf).2, (h.files id f hf).1.records, rfl⟩

/-- An open report is not one that the sender holds. -/
theorem extends_open (hopen : (loadReport org files o id).isOpen = true) (r : Report) :
    Extends files (files.insert id r) := by
  refine .insert fun f hf => ?_
  rw [loadReport, hf] at hopen
  have hopen : (!f.isSealed && f.sent.isEmpty) = true := hopen
  simp only [Bool.and_eq_true, Bool.not_eq_true', List.isEmpty_iff] at hopen
  rw [hopen.2, hopen.1]
  exact ⟨List.nil_subset _, nofun⟩

theorem Held.insert_open (h : Held files r) (hopen : (loadReport org files o id).isOpen = true)
    (r' : Report) : Held (files.insert id r') r where
  __ := h
  file := by
    obtain ⟨f, hf, hsealed, hrest⟩ := h.file
    refine ⟨f, ?_, hsealed, hrest⟩
    rw [getElem?_insert_of_ne, hf]
    rintro rfl
    rw [loadReport, hf] at hopen
    have hopen : (!f.isSealed && f.sent.isEmpty) = true := hopen
    rw [hsealed] at hopen
    cases hopen

theorem InHand.insert_open (h : InHand files s) (hopen : (loadReport org files o id).isOpen = true)
    (r' : Report) : InHand (files.insert id r') s := by
  cases s with
  | idle => trivial
  | walking reports => exact h
  | closed r rest => exact h
  | sending r uris rest => exact ⟨h.1.insert_open hopen r', h.2⟩
  | marking r uris rest => exact ⟨h.1.insert_open hopen r', h.2⟩

/-- **An observation is counted once.** -/
theorem Sound.count (h : Sound st) (hwrites : Writes org st.files o id r) :
    Sound { st.count id r o with calls := st.calls + 1 } := by
  obtain ⟨⟨g, hid⟩, hopen, rs, hadd, hr⟩ := hwrites
  obtain ⟨hload, hstored, hrows⟩ := h.loadReport org o id
  have hrepair : repair id = id := hid ▸ repair_of_valid (valid_name o g)
  refine
    { files := fun name f hf => ?_
      counts := fun name k => ?_
      calls := fun c hc => ?_
      acked := fun i o' ho hwanted => ?_
      transmitted := fun t ht => (extends_open hopen r.stored).transmitted (h.transmitted t ht)
      sender := h.sender.insert_open hopen r.stored }
  · change (st.files.insert id r.stored)[name]? = some f at hf
    by_cases hname : id = name
    · subst hname
      rw [getElem?_insert_same] at hf
      cases hf
      refine ⟨r.read_stored, ?_⟩
      show repair r.id = id
      have hrid : r.id = id := by
        rw [hr]
        exact hload
      rw [hrid, hrepair]
    · rw [getElem?_insert_of_ne hname] at hf
      exact h.files name f hf
  · show countOf k (((st.files.insert id r.stored)[name]?.map Report.records).getD []) =
      .ofNat (countP _ (⟨st.calls, id, o.row.repaired⟩ :: st.counted))
    rw [countP_cons, Int64.ofNat_add]
    by_cases hname : id = name
    · subst hname
      have hrecords : r.stored.records = rs.map .repaired := by
        rw [hr]
        rfl
      rw [getElem?_insert_same, Option.map_some, Option.getD_some, hrecords,
        addRow_spec rfl hstored hadd, hrows, h.counts, State.tally]
      simp only [true_and, decide_eq_true_eq]
      split <;> rfl
    · rw [getElem?_insert_of_ne hname, ← rowsOf, h.counts, State.tally]
      simp [hname]
  · rcases mem_cons.mp hc with rfl | hc
    · exact Nat.lt_succ_self _
    · exact Nat.lt_succ_of_lt (h.calls c hc)
  · obtain ⟨g', hg'⟩ := h.acked i o' ho hwanted
    refine ⟨g', ?_⟩
    have hlt : i < st.calls := by
      have hmem : (⟨i, o'.generationID g', o'.row.repaired⟩ : Counted) ∈
          st.counted.filter (·.call = i) := hg' ▸ mem_cons_self
      exact h.calls _ (mem_filter.mp hmem).1
    show (⟨st.calls, id, o.row.repaired⟩ :: st.counted).filter _ = _
    rw [filter_cons_of_neg, hg']
    simpa using hlt.ne'

/-- The call is acknowledged. -/
theorem Sound.acknowledge (h : Sound st) {i : ℕ}
    (hi : o.Wanted →
      ∃ g, st.counted.filter (·.call = i) = [⟨i, o.generationID g, o.row.repaired⟩]) :
    Sound { st with acked := (i, o) :: st.acked } where
  __ := h
  acked j o' ho hwanted := by
    rcases mem_cons.mp ho with heq | ho
    · cases heq
      exact hi hwanted
    · exact h.acked j o' ho hwanted

theorem Sound.record (h : Sound st) {w : Written} (hstep : step org st (.record o w) = some st') :
    Sound st' := by
  have hcalls : Sound { st with calls := st.calls + 1 } :=
    { h with calls := fun c hc => Nat.lt_succ_of_lt (h.calls c hc) }
  simp only [step] at hstep
  split at hstep
  · cases hstep
    exact hcalls
  · next hrecord =>
    cases hstep
    refine hcalls.acknowledge fun hwanted => ?_
    rcases record_ok hrecord with ⟨hnot, -⟩ | ⟨-, id, r, hnone, -⟩
    · exact absurd hwanted hnot
    · cases hnone
  · cases hstep
    exact hcalls
  · next id r hrecord =>
    cases hstep
    rcases record_ok hrecord with ⟨-, hnone⟩ | ⟨-, id', r', heq, hwrites⟩
    · cases hnone
    · cases heq
      exact h.count hwrites
  · next id r hrecord =>
    cases hstep
    rcases record_ok hrecord with ⟨-, hnone⟩ | ⟨-, id', r', heq, hwrites⟩
    · cases hnone
    · cases heq
      refine (h.count hwrites).acknowledge fun _ => ?_
      obtain ⟨g, rfl⟩ := hwrites.name
      refine ⟨g, ?_⟩
      -- every other call was an earlier one
      have hothers : st.counted.filter (·.call = st.calls) = [] := by
        refine filter_eq_nil_iff.mpr fun c hc => ?_
        simpa using (h.calls c hc).ne
      show (_ :: st.counted).filter _ = _
      rw [filter_cons_of_pos (by simp), hothers]

/-- **What one step preserves.** -/
theorem Sound.step (h : Sound st) (hstep : step org st a = some st') : Sound st' := by
  have hsender := h.sender
  cases a with
  | record o w => exact h.record hstep
  | list =>
    simp only [step] at hstep
    split at hstep
    · cases hstep
      refine h.setSender fun r hr => ?_
      obtain ⟨⟨name, r⟩, hmem, rfl⟩ := mem_map.mp hr
      exact (h.files name r (ExtTreeMap.mem_toList_iff_getElem?_eq_some.mp hmem)).1
    · cases hstep
  | check now =>
    simp only [step] at hstep
    split at hstep
    · next r rest hs =>
      rw [hs] at hsender
      cases hstep
      refine h.setSender ?_
      split
      · exact fun r' hr' => hsender r' (mem_cons_of_mem _ hr')
      · exact forall_mem_cons.mp hsender
    · cases hstep
  | freeze w =>
    simp only [step] at hstep
    split at hstep
    · next r rest hs =>
      rw [hs] at hsender
      split at hstep
      · cases hstep
        exact h.setSender trivial
      · next f hf =>
        obtain ⟨hf', hid⟩ := h.files r.id f hf
        have hread : (r.reread f).Read := hsender.1.reread hf'
        have hfile : st.files[(r.reread f).id]? = some f := by
          rw [show (r.reread f).id = r.id from hid, hf]
        have hsent : f.sent ⊆ (r.reread f).sent := subset_append_right ..
        split at hstep
        · next hsealed =>
          cases hstep
          exact h.setSender
            ⟨⟨hread, hsealed, f, hfile, hsealed, rfl, hsent⟩, hread.uris, hsender.2⟩
        · have hheld : Held (st.write _ _).files { r.reread f with isSealed := true } :=
            held_write hread.setSealed rfl
          split at hstep
          · cases hstep
            exact h.setSender trivial
          · cases hstep
            exact h.write hread.setSealed hfile rfl hsent rfl trivial
          · cases hstep
            exact h.write hread.setSealed hfile rfl hsent rfl ⟨hheld, hread.uris, hsender.2⟩
    · cases hstep
  | send address ok =>
    simp only [step] at hstep
    split at hstep
    · next r rest hs =>
      rw [hs] at hsender
      cases hstep
      exact h.setSender hsender.2.2
    · next r uri uris rest hs =>
      rw [hs] at hsender
      obtain ⟨hheld, huris, hrest⟩ := hsender
      rw [forall_mem_cons] at huris
      split at hstep
      · next address =>
        cases hstep
        obtain ⟨f, hf, hsealed, hrecords, hsent⟩ := hheld.file
        refine { h with transmitted := fun t ht => ?_, sender := ?_ }
        · rcases mem_cons.mp ht with rfl | ht
          · exact ⟨f, hf, hsealed, hrecords⟩
          · exact h.transmitted t ht
        · show InHand st.files (if ok then _ else _)
          split
          · refine ⟨⟨hheld.read.setSent ?_, hheld.isSealed, f, hf, hsealed, hrecords, ?_⟩,
              huris.2, hrest⟩
            · exact forall_mem_cons.mpr ⟨huris.1, hheld.read.sent⟩
            · exact Subset.trans hsent (subset_cons_self ..)
          · exact ⟨hheld, huris.2, hrest⟩
      · cases hstep
        exact h.setSender ⟨hheld, huris.2, hrest⟩
    · cases hstep
  | mark w =>
    simp only [step] at hstep
    split at hstep
    · next r uris rest hs =>
      rw [hs] at hsender
      obtain ⟨hheld, hrest⟩ := hsender
      obtain ⟨f, hf, -, hrecords, hsent⟩ := hheld.file
      split at hstep
      · cases hstep
        exact h.setSender trivial
      · cases hstep
        exact h.write hheld.read hf hrecords hsent hheld.isSealed trivial
      · cases hstep
        exact h.write hheld.read hf hrecords hsent hheld.isSealed
          ⟨held_write hheld.read hheld.isSealed, hrest⟩
    · cases hstep
  | stop =>
    cases hstep
    exact h.setSender trivial

/-! ### What lasts -/

/-- A report is not sent to a destination that was marked in its file. -/
def Unmarked (files : Files) (t : Transmission) : Prop :=
  ∀ f : Report, files[t.report.id]? = some f → t.uri ∉ f.sent

/-- How the state goes on. -/
structure Continues (st st' : State) : Prop where
  files : Extends st.files st'.files
  transmitted : ∃ news, st'.transmitted = news ++ st.transmitted ∧ ∀ t ∈ news, Unmarked st.files t

theorem Continues.of_transmitted (hfiles : Extends st.files st'.files)
    (h : st'.transmitted = st.transmitted) : Continues st st' := ⟨hfiles, [], h, nofun⟩

theorem Continues.refl (st : State) : Continues st st := .of_transmitted (.refl _) rfl

theorem Continues.trans {st'' : State} (h : Continues st st') (h' : Continues st' st'') :
    Continues st st'' := by
  obtain ⟨news, hnews, hunmarked⟩ := h.transmitted
  obtain ⟨news', hnews', hunmarked'⟩ := h'.transmitted
  refine ⟨⟨fun {name f} hf => ?_⟩, news' ++ news, ?_, fun t ht => ?_⟩
  · obtain ⟨f₁, hf₁, hsent, hsealed⟩ := h.files.file hf
    obtain ⟨f₂, hf₂, hsent', hsealed'⟩ := h'.files.file hf₁
    refine ⟨f₂, hf₂, Subset.trans hsent hsent', fun hs => ?_⟩
    obtain ⟨hs₁, hrecords⟩ := hsealed hs
    obtain ⟨hs₂, hrecords'⟩ := hsealed' hs₁
    exact ⟨hs₂, hrecords'.trans hrecords⟩
  · rw [hnews', hnews, append_assoc]
  · rcases mem_append.mp ht with ht | ht
    · intro f hf hmem
      obtain ⟨f₁, hf₁, hsent, -⟩ := h.files.file hf
      exact hunmarked' t ht f₁ hf₁ (hsent hmem)
    · exact hunmarked t ht

/-- **How one step goes on.** -/
theorem Sound.continues (h : Sound st) (hstep : DmarcReports.step org st a = some st') :
    Continues st st' := by
  have hsender := h.sender
  cases a with
  | record o w =>
    simp only [DmarcReports.step] at hstep
    split at hstep
    iterate 3
      cases hstep
      exact .of_transmitted (.refl _) rfl
    all_goals
      next hrecord =>
      cases hstep
      rcases record_ok hrecord with ⟨-, hnone⟩ | ⟨-, id', r', heq, hwrites⟩
      · cases hnone
      · cases heq
        exact .of_transmitted (extends_open hwrites.isOpen _) rfl
  | list =>
    simp only [DmarcReports.step] at hstep
    split at hstep <;> cases hstep
    exact .of_transmitted (.refl _) rfl
  | check now =>
    simp only [DmarcReports.step] at hstep
    split at hstep <;> cases hstep
    exact .of_transmitted (.refl _) rfl
  | freeze w =>
    simp only [DmarcReports.step] at hstep
    split at hstep
    · next r rest hs =>
      rw [hs] at hsender
      split at hstep
      · cases hstep
        exact .of_transmitted (.refl _) rfl
      · next f hf =>
        obtain ⟨hf', hid⟩ := h.files r.id f hf
        have hread : (r.reread f).Read := hsender.1.reread hf'
        have hfile : st.files[(r.reread f).id]? = some f := by
          rw [show (r.reread f).id = r.id from hid, hf]
        have hsent : f.sent ⊆ (r.reread f).sent := subset_append_right ..
        have hwrite := extends_write hread.setSealed hfile rfl hsent rfl
        split at hstep
        · cases hstep
          exact .of_transmitted (.refl _) rfl
        · split at hstep
          · cases hstep
            exact .of_transmitted (.refl _) rfl
          · cases hstep
            exact .of_transmitted hwrite rfl
          · cases hstep
            exact .of_transmitted hwrite rfl
    · cases hstep
  | send address ok =>
    simp only [DmarcReports.step] at hstep
    split at hstep
    · cases hstep
      exact .of_transmitted (.refl _) rfl
    · next r uri uris rest hs =>
      rw [hs] at hsender
      split at hstep
      · next hnot =>
        cases hstep
        refine ⟨.refl _, [_], rfl, fun t ht f hf hmem => ?_⟩
        cases mem_singleton.mp ht
        obtain ⟨f', hf', -, -, hsent⟩ := hsender.1.file
        cases hf.symm.trans hf'
        exact of_decide_eq_false hnot (hsent hmem)
      · cases hstep
        exact .of_transmitted (.refl _) rfl
    · cases hstep
  | mark w =>
    simp only [DmarcReports.step] at hstep
    split at hstep
    · next r uris rest hs =>
      rw [hs] at hsender
      have hheld := hsender.1
      obtain ⟨f, hf, -, hrecords, hsent⟩ := hheld.file
      have hwrite := extends_write hheld.read hf hrecords hsent hheld.isSealed
      split at hstep
      · cases hstep
        exact .of_transmitted (.refl _) rfl
      · cases hstep
        exact .of_transmitted hwrite rfl
      · cases hstep
        exact .of_transmitted hwrite rfl
    · cases hstep
  | stop =>
    cases hstep
    exact .of_transmitted (.refl _) rfl

theorem Sound.run (h : Sound st) {actions : List Action} (hrun : run org st actions = some st') :
    Sound st' ∧ Continues st st' := by
  induction actions generalizing st with
  | nil =>
    cases hrun
    exact ⟨h, .refl _⟩
  | cons a actions ih =>
    obtain ⟨mid, hstep, hrun⟩ := Option.bind_eq_some_iff.mp hrun
    obtain ⟨hsound, hcontinues⟩ := ih (h.step hstep) hrun
    exact ⟨hsound, (h.continues hstep).trans hcontinues⟩

theorem sound_empty : Sound {} where
  files name f hf := by
    rw [ExtTreeMap.getElem?_empty] at hf
    cases hf
  counts name k := by
    rw [rowsOf, ExtTreeMap.getElem?_empty]
    rfl
  calls := nofun
  acked := nofun
  transmitted := nofun
  sender := trivial

/-- **Reports neither lose nor double count.**  Take any run, and any way it goes on.  An
acknowledged observation that somebody wants is counted exactly once, in a generation of
its report, and the numbers in the files are those of the observations counted there.
A sealed report keeps its rows, which are those that were sent.  A report is not sent
to a destination that is marked in its file. -/
theorem reports_exact {before after : List Action} (hrun : run org {} before = some st)
    (hrest : run org st after = some st') :
    (∀ i o, (i, o) ∈ st.acked → o.Wanted →
      ∃ g, st.counted.filter (·.call = i) = [⟨i, o.generationID g, o.row.repaired⟩]) ∧
    (∀ name k, countOf k (rowsOf st.files name) = Int64.ofNat (st.tally name k)) ∧
    (∀ (name : Name) (f : Report), st.files[name]? = some f → f.isSealed = true →
      ∃ f' : Report, st'.files[name]? = some f' ∧ f'.isSealed = true ∧ f'.records = f.records) ∧
    (∀ t ∈ st.transmitted, ∃ f : Report, st.files[t.report.id]? = some f ∧
      f.isSealed = true ∧ f.records = t.report.records) ∧
    ∃ news, st'.transmitted = news ++ st.transmitted ∧ ∀ t ∈ news, Unmarked st.files t := by
  have h : Sound st := (sound_empty.run hrun).1
  obtain ⟨-, hcontinues⟩ := h.run hrest
  refine ⟨h.acked, h.counts, fun name f hf hsealed => ?_, h.transmitted, hcontinues.transmitted⟩
  obtain ⟨f', hf', -, hsame⟩ := hcontinues.files.file hf
  exact ⟨f', hf', hsame hsealed⟩

/-! ### Two days -/

/-- A message that failed, at noon of the first of March 2026. -/
def spoofed : Observation where
  time := 1772366400 * 1000000000
  published := { domain := bytes "example.org" }
  rua := bytes "mailto:a@example.org,mailto:b@example.org"
  spfAligned := false
  dkimAligned := false
  ip := bytes "192.0.2.1"
  headerFrom := bytes "example.org"
  spfDomain := bytes "example.net"
  spfResult := bytes "pass"
  scope := bytes "mfrom"
  disposition := bytes "none"
  reason := []
  dkim := []

def nextDay : Time := 1772452800 * 1000000000

/-- Two observations, and one more while the report goes out. -/
def firstDelivery : List Action :=
  [.record spoofed .ok, .record spoofed .ok, .list, .check nextDay, .freeze .ok,
    .send (some (bytes "a@example.org")) true, .record spoofed .ok, .mark .ok, .stop]

def secondDelivery : List Action :=
  [.list, .check nextDay, .freeze .ok, .send (some (bytes "a@example.org")) true,
    .send (some (bytes "b@example.org")) true, .mark .ok]

theorem reports_exact_spoofed : ∃ st st',
    run (bytes "mx") {} firstDelivery = some st ∧
    run (bytes "mx") st secondDelivery = some st' ∧
    st.acked.map Prod.fst = [2, 1, 0] ∧
    st'.transmitted.map Transmission.address = [bytes "b@example.org", bytes "a@example.org"] ∧
    (∀ i o, (i, o) ∈ st.acked → o.Wanted →
      ∃ g, st.counted.filter (·.call = i) = [⟨i, o.generationID g, o.row.repaired⟩]) ∧
    (∀ name k, countOf k (rowsOf st.files name) = Int64.ofNat (st.tally name k)) ∧
    (∀ (name : Name) (f : Report), st.files[name]? = some f → f.isSealed = true →
      ∃ f' : Report, st'.files[name]? = some f' ∧ f'.isSealed = true ∧ f'.records = f.records) ∧
    (∀ t ∈ st.transmitted, ∃ f : Report, st.files[t.report.id]? = some f ∧
      f.isSealed = true ∧ f.records = t.report.records) ∧
    ∃ news, st'.transmitted = news ++ st.transmitted ∧ ∀ t ∈ news, Unmarked st.files t := by
  have hrun : ((run (bytes "mx") {} firstDelivery).bind fun st =>
      (run (bytes "mx") st secondDelivery).map fun st' =>
        (st.acked.map Prod.fst, st'.transmitted.map Transmission.address)) =
      some ([2, 1, 0], [bytes "b@example.org", bytes "a@example.org"]) := by decide +kernel
  obtain ⟨st, hst, hrest⟩ := Option.bind_eq_some_iff.mp hrun
  obtain ⟨st', hst', heq⟩ := Option.map_eq_some_iff.mp hrest
  obtain ⟨hacked, hsent⟩ := Prod.mk.inj heq
  exact ⟨st, st', hst, hst', hacked, hsent, reports_exact hst hst'⟩

/-- **An observation that nobody wants is acknowledged and counted nowhere**: the policy
has no reporting address. -/
theorem unwanted_acknowledged : ∃ st,
    run (bytes "mx") {} [.record { spoofed with rua := [] } .ok] = some st ∧
    (0, { spoofed with rua := [] }) ∈ st.acked ∧ st.counted = [] ∧ st.files.isEmpty = true :=
  ⟨_, rfl, mem_cons_self, rfl, rfl⟩

end Invariant

end EmailService.DmarcReports
