/-
EmailService/AuditLog.lean

The audit chain (internal/auditlog/audit.go): one JSON record a line, each with
the hash of the record before it and its own.

The hash is taken over one encoding of a record and checked over the encoding
of what was read back.  The two agree where the texts of the record are UTF-8
(`verifyLine_marshal`), and then a chain the server wrote can be reopened
(`reopens`).  A byte that is not UTF-8 is written as an escape and read back as
a rune, which is encoded as itself: the chain does not open again
(`byte_closes_chain`).
-/
import EmailService.JsonStruct
import EmailService.Sha256

namespace EmailService.AuditLog

open Json Utf8 List Prod Sha256

/-- `Record`. -/
structure Record where
  version : ℤ := 0
  sequence : ℕ := 0
  time : List UInt8 := []
  actor : List UInt8 := []
  action : List UInt8 := []
  id : List UInt8 := []
  previous : List UInt8 := []
  hash : List UInt8 := []
  deriving DecidableEq

/-- The members `json.Marshal` writes, in the order of the struct. -/
def Record.value (r : Record) : Value :=
  .obj [(bytes "version", .num (decimalInt r.version)),
    (bytes "sequence", .num (decimal r.sequence)),
    (bytes "time", .str r.time),
    (bytes "actor", .str r.actor),
    (bytes "action", .str r.action),
    (bytes "id", .str r.id),
    (bytes "previous", .str r.previous),
    (bytes "hash", .str r.hash)]

/-- `json.Marshal`. -/
def Record.marshal (r : Record) : List UInt8 := r.value.print

/-- The fields `json.Unmarshal` stores into. -/
def recordFields : List (Json.Field Record) :=
  [⟨bytes "version", storeInt fun z r => { r with version := z }⟩,
    ⟨bytes "sequence", storeUint64 fun n r => { r with sequence := n }⟩,
    ⟨bytes "time", storeString fun s r => { r with time := s }⟩,
    ⟨bytes "actor", storeString fun s r => { r with actor := s }⟩,
    ⟨bytes "action", storeString fun s r => { r with action := s }⟩,
    ⟨bytes "id", storeString fun s r => { r with id := s }⟩,
    ⟨bytes "previous", storeString fun s r => { r with previous := s }⟩,
    ⟨bytes "hash", storeString fun s r => { r with hash := s }⟩]

/-- `hash`: over the record without its own hash. -/
def hash (r : Record) : List UInt8 := hexEncode (sum256 { r with hash := [] }.marshal)

/-! ### Reading a chain -/

/-- The tokens of a `bufio.Scanner`, before `dropCR`. -/
def scanLines : List UInt8 → List (List UInt8)
  | [] => []
  | b :: l =>
    if b = 10 then [] :: scanLines l
    else
      match scanLines l with
      | [] => [[b]]
      | line :: lines => (b :: line) :: lines

/-- `dropCR`. -/
def dropCR (line : List UInt8) : List UInt8 :=
  if line.getLast? = some 13 then line.dropLast else line

/-- Why a chain is refused; a record is named by its place. -/
inductive VerifyError
  | tooLong
  | invalidRecord (sequence : ℕ)
  | mismatch (sequence : ℕ)
  | badTime
  deriving DecidableEq

/-- A `uint64`. -/
def wrap (n : ℕ) : ℕ := n % 2 ^ 64

/-- The body of the loop of `Verify`.  A line with its newline has to fit the
scanner's buffer. -/
def verifyLine (seq : ℕ) (head line : List UInt8) : Except VerifyError (ℕ × List UInt8) :=
  if 2 ^ 20 ≤ line.length then .error .tooLong
  else
    match unmarshal recordFields (dropCR line) {} with
    | none => .error (.invalidRecord (wrap (seq + 1)))
    | some r =>
      if r.version ≠ 1 ∨ r.sequence ≠ wrap (seq + 1) ∨ r.previous ≠ head ∨ r.hash ≠ hash r then
        .error (.mismatch (wrap (seq + 1)))
      else if Rfc3339.parse r.time = none then .error .badTime
      else .ok (r.sequence, r.hash)

def verifyLines (seq : ℕ) (head : List UInt8) :
    List (List UInt8) → Except VerifyError (ℕ × List UInt8)
  | [] => .ok (seq, head)
  | line :: lines =>
    match verifyLine seq head line with
    | .error e => .error e
    | .ok (seq, head) => verifyLines seq head lines

/-- `Verify`. -/
def verify (content : List UInt8) : Except VerifyError (ℕ × List UInt8) :=
  verifyLines 0 [] (scanLines content)

/-- `Log`. -/
structure Log where
  sequence : ℕ := 0
  head : List UInt8 := []
  failed : Option String := none
  deriving DecidableEq

inductive OpenError
  | incomplete
  | verify (e : VerifyError)
  deriving DecidableEq

/-- `Open`, of a file that may be missing. -/
def openLog : Option (List UInt8) → Except OpenError Log
  | none => .ok {}
  | some content =>
    if content ≠ [] ∧ content.getLast? ≠ some 10 then .error .incomplete
    else
      match verify content with
      | .error e => .error (.verify e)
      | .ok (sequence, head) => .ok { sequence, head }

/-! ### Writing a chain -/

/-- The chain's file and the log that holds it. -/
structure Chain where
  file : Option (List UInt8) := none
  log : Log := {}

/-- What the operating system answers during one append: `none` is success, and
`write` has the number of bytes written. -/
structure AppendIO where
  openFile : Option String := none
  write : Option (ℕ × Option String) := none
  sync : Option String := none
  close : Option String := none
  openDir : Option String := none
  syncDir : Option String := none

/-- The record of an append. -/
def nextRecord (l : Log) (now : ℤ) (actor action id : List UInt8) : Record :=
  let r : Record :=
    { version := 1
      sequence := wrap (l.sequence + 1)
      time := Rfc3339.format 0 now
      actor, action, id
      previous := l.head }
  { r with hash := hash r }

/-- `f.Write` and what is made of its answer, with the bytes that reached the
file. -/
def writeResult (io : AppendIO) (raw : List UInt8) : Option String × List UInt8 :=
  match io.write with
  | none => (none, raw)
  | some (n, some err) => (some err, raw.take n)
  | some (n, none) => (if n = raw.length then none else some "short write", raw.take n)

/-- The first of the errors that happened. -/
def firstError : List (Option String) → Option String
  | [] => none
  | some err :: _ => some err
  | none :: errs => firstError errs

/-- `Append`. -/
def Chain.append (io : AppendIO) (now : ℤ) (c : Chain) (actor action id : List UInt8) :
    Option String × Chain :=
  match c.log.failed with
  | some err => (some err, c)
  | none =>
    if 4096 < actor.length ∨ 8192 < action.length ∨ 4096 < id.length then
      (some "audit field exceeds limit", c)
    else
      let r := nextRecord c.log now actor action id
      let raw := r.marshal ++ [10]
      match io.openFile with
      | some err => (some err, c)
      | none =>
        let (writeErr, written) := writeResult io raw
        let file := some (c.file.getD [] ++ written)
        -- a failed call skips those after it, but the file is closed in any case
        match firstError [writeErr, io.sync, io.close, io.openDir, io.syncDir] with
        | some err => (some err, { file, log := { c.log with failed := some err } })
        | none => (none, { file, log := { c.log with sequence := r.sequence, head := r.hash } })

/-! ### Runs -/

/-- One call that succeeded. -/
inductive Step : Chain → Chain → Prop
  | append {io now c actor action id c'} :
      c.append io now actor action id = (none, c') → Step c c'
  | reopen {c log} : openLog c.file = .ok log → Step c { c with log }

/-- A step that appends UTF-8, at a time whose year has four digits. -/
inductive CleanStep : Chain → Chain → Prop
  | append {io now c actor action id c'} : Valid actor → Valid action → Valid id →
      Rfc3339.FourDigits 0 now → c.append io now actor action id = (none, c') → CleanStep c c'
  | reopen {c log} : openLog c.file = .ok log → CleanStep c { c with log }

/-! ### Lines -/

theorem scanLines_line {line : List UInt8} (h : 10 ∉ line) (l : List UInt8) :
    scanLines (line ++ 10 :: l) = line :: scanLines l := by
  induction line with
  | nil => rw [nil_append, scanLines, if_pos rfl]
  | cons b line ih =>
    rw [mem_cons, not_or] at h
    rw [cons_append, scanLines, if_neg fun hb => h.1 hb.symm, ih h.2]

/-- The text of some lines. -/
def unlines (lines : List (List UInt8)) : List UInt8 := lines.flatMap (· ++ [10])

variable {lines : List (List UInt8)} {seq n : ℕ} {head actor action id : List UInt8} {r : Record}
  {c c' : Chain} {now : ℤ} {io : AppendIO}

theorem scanLines_unlines (h : ∀ line ∈ lines, 10 ∉ line) : scanLines (unlines lines) = lines := by
  induction lines with
  | nil => rfl
  | cons line lines ih =>
    have ih' := ih fun line' h' => h line' (mem_cons_of_mem _ h')
    rw [unlines, flatMap_cons, append_assoc, singleton_append,
      scanLines_line (h line mem_cons_self)]
    exact congrArg (line :: ·) ih'

theorem unlines_concat (lines : List (List UInt8)) (line : List UInt8) :
    unlines (lines ++ [line]) = unlines lines ++ (line ++ [10]) := by
  simp [unlines]

theorem getLast?_unlines (lines : List (List UInt8)) :
    unlines lines = [] ∨ (unlines lines).getLast? = some 10 := by
  induction lines using reverseRecOn with
  | nil => exact .inl rfl
  | append_singleton lines line _ =>
    right
    rw [unlines_concat, ← append_assoc, getLast?_concat]

theorem verifyLines_concat {seq' : ℕ} {head' : List UInt8}
    (h : verifyLines seq head lines = .ok (seq', head')) (line : List UInt8) :
    verifyLines seq head (lines ++ [line]) = verifyLine seq' head' line := by
  induction lines generalizing seq head with
  | nil =>
    cases h
    rw [nil_append, verifyLines]
    rcases hl : verifyLine seq' head' line with e | ⟨seq₁, head₁⟩
    · rfl
    · rfl
  | cons l lines ih =>
    rw [cons_append, verifyLines]
    rw [verifyLines] at h
    rcases hl : verifyLine seq head l with e | ⟨seq₁, head₁⟩
    · rw [hl] at h
      cases h
    · rw [hl] at h
      exact ih h

/-! ### A record is read back -/

/-- The texts of the record are UTF-8. -/
structure Record.Texts (r : Record) : Prop where
  time : Valid r.time
  actor : Valid r.actor
  action : Valid r.action
  id : Valid r.id
  previous : Valid r.previous
  hash : Valid r.hash

theorem sound_value (r : Record) : r.value.Sound := by
  rw [Record.value, Value.Sound]
  simp only [SoundMembers, sound_str, sound_decimal, sound_decimalInt, and_self]

theorem repaired_value (h : r.Texts) : r.value.repaired = r.value := by
  have hkey : ∀ s, repair (bytes s) = bytes s := fun s => repair_encode _
  simp only [Record.value, Value.repaired, repairedMembers, hkey, repair_of_valid h.time,
    repair_of_valid h.actor, repair_of_valid h.action, repair_of_valid h.id,
    repair_of_valid h.previous, repair_of_valid h.hash]

/-- Every member goes to the field it was written from. -/
theorem storeStruct_value (hversion : -2 ^ 63 ≤ r.version ∧ r.version < 2 ^ 63)
    (hsequence : r.sequence < 2 ^ 64) : storeStruct recordFields r.value {} = some r := by
  have h₁ := storeInt_decimalInt hversion fun z (r : Record) => { r with version := z }
  have h₂ := storeUint64_decimal hsequence fun n (r : Record) => { r with sequence := n }
  have hversion' : fieldOf recordFields (bytes "version") = some ⟨_, _⟩ := rfl
  have hsequence' : fieldOf recordFields (bytes "sequence") = some ⟨_, _⟩ := rfl
  have htime : fieldOf recordFields (bytes "time") = some ⟨_, _⟩ := rfl
  have hactor : fieldOf recordFields (bytes "actor") = some ⟨_, _⟩ := rfl
  have haction : fieldOf recordFields (bytes "action") = some ⟨_, _⟩ := rfl
  have hid : fieldOf recordFields (bytes "id") = some ⟨_, _⟩ := rfl
  have hprevious : fieldOf recordFields (bytes "previous") = some ⟨_, _⟩ := rfl
  have hhash : fieldOf recordFields (bytes "hash") = some ⟨_, _⟩ := rfl
  simp only [storeStruct, Record.value, storeMembers, hversion', hsequence', htime, hactor,
    haction, hid, hprevious, hhash, h₁, h₂, storeString, Option.bind_some]

/-! ### The shape of a line -/

theorem hash_spec (r : Record) : Valid (hash r) ∧ (hash r).length ≤ 64 := by
  have h := printed_hexEncode (sum256 { r with hash := [] }.marshal)
  rw [length_sum256] at h
  exact ⟨valid_of_ascii fun b hb => (h.2 b hb).2, h.1⟩

/-- A record within the limits, as `Append` makes them. -/
structure Record.Bounded (r : Record) : Prop where
  version : r.version = 1
  sequence : r.sequence < 2 ^ 64
  time : r.time.length ≤ 35
  actor : r.actor.length ≤ 4096
  action : r.action.length ≤ 8192
  id : r.id.length ≤ 4096
  previous : r.previous.length ≤ 64
  hash : r.hash.length ≤ 64

theorem printed_text {s : List UInt8} (h : s.length ≤ n) : Printed (6 * n + 2) (quote s) :=
  (printed_quote s).mono (by omega)

theorem printed_member {m : ℕ} (key : String) {v rest : List UInt8} (hkey : (bytes key).length ≤ 8)
    (hv : Printed m v) (hrest : Printed n rest) :
    Printed (m + n + 51) (quote (bytes key) ++ 58 :: (v ++ rest)) := by
  refine ((printed_text hkey).append ((hv.append hrest).cons (b := 58) (by decide))).mono ?_
  omega

/-- A line of the chain fits the scanner's buffer. -/
theorem printed_marshal (h : r.Bounded) : Printed 200000 r.marshal := by
  have hversion : Printed 1 (decimalInt r.version) := by
    rw [h.version]
    exact printed_decimal (n := 1) (k := 0) (by decide)
  have hsequence : Printed 20 (decimal r.sequence) :=
    printed_decimal (k := 19) (h.sequence.trans (by decide))
  -- from the closing brace to the opening one
  have h₉ : Printed 1 [125] := Within.nil.cons (by decide)
  have h₈ := printed_member "hash" (by decide) (printed_text h.hash) h₉
  have h₇ := printed_member "previous" (by decide) (printed_text h.previous)
    (h₈.cons (b := 44) (by decide))
  have h₆ := printed_member "id" (by decide) (printed_text h.id)
    (h₇.cons (b := 44) (by decide))
  have h₅ := printed_member "action" (by decide) (printed_text h.action)
    (h₆.cons (b := 44) (by decide))
  have h₄ := printed_member "actor" (by decide) (printed_text h.actor)
    (h₅.cons (b := 44) (by decide))
  have h₃ := printed_member "time" (by decide) (printed_text h.time)
    (h₄.cons (b := 44) (by decide))
  have h₂ := printed_member "sequence" (by decide) hsequence
    (h₃.cons (b := 44) (by decide))
  have h₁ := printed_member "version" (by decide) hversion
    (h₂.cons (b := 44) (by decide))
  have hall := (h₁.cons (b := 123) (by decide)).mono (n := 200000) (by decide)
  simpa only [Record.marshal, Record.value, Value.print, printMembers] using hall

/-- A line ends with its brace, so no carriage return is cut off. -/
theorem dropCR_marshal (r : Record) : dropCR r.marshal = r.marshal := by
  have hlast : r.marshal.getLast? = some 125 := by
    simp only [Record.marshal, Record.value, Value.print, printMembers]
    simp only [← append_assoc, ← cons_append, getLast?_concat]
  rw [dropCR, hlast]
  rfl

/-! ### Appends keep the chain readable -/

/-- A record that is the next one of a chain. -/
structure Record.Follows (r : Record) (seq : ℕ) (head : List UInt8) : Prop where
  texts : r.Texts
  bounded : r.Bounded
  sequence : r.sequence = wrap (seq + 1)
  previous : r.previous = head
  hash : r.hash = AuditLog.hash r
  time : Rfc3339.parse r.time ≠ none

/-- **The hash of what was written is the hash of what is read.** -/
theorem verifyLine_marshal (h : r.Follows seq head) :
    verifyLine seq head r.marshal = .ok (r.sequence, r.hash) := by
  have hshort : ¬ 2 ^ 20 ≤ r.marshal.length := by
    have := (printed_marshal h.bounded).1
    omega
  have hversion : -2 ^ 63 ≤ r.version ∧ r.version < 2 ^ 63 := by
    rw [h.bounded.version]
    decide
  have hread : unmarshal recordFields (dropCR r.marshal) {} = some r := by
    rw [dropCR_marshal, Record.marshal, unmarshal_print recordFields (sound_value r),
      repaired_value h.texts, storeStruct_value hversion h.bounded.sequence]
  have hmatch : ¬ (r.version ≠ 1 ∨ r.sequence ≠ wrap (seq + 1) ∨ r.previous ≠ head ∨
      r.hash ≠ hash r) := by
    simp only [h.bounded.version, ← h.sequence, h.previous, ← h.hash, ne_eq, not_true_eq_false,
      or_self, not_false_eq_true]
  rw [verifyLine, if_neg hshort, hread]
  dsimp only
  rw [if_neg hmatch, if_neg h.time]

/-- What a chain the server wrote looks like: its lines verify up to what the
log holds. -/
structure Chain.Good (c : Chain) : Prop where
  written : ∃ lines, c.file.getD [] = unlines lines ∧ (∀ line ∈ lines, 10 ∉ line) ∧
    verifyLines 0 [] lines = .ok (c.log.sequence, c.log.head)
  fresh : c.file = none → c.log.sequence = 0 ∧ c.log.head = []
  healthy : c.log.failed = none
  sequence_lt : c.log.sequence < 2 ^ 64
  head : Valid c.log.head ∧ c.log.head.length ≤ 64

theorem Chain.Good.openLog (h : c.Good) : openLog c.file = .ok c.log := by
  obtain ⟨lines, hfile, hlines, hverify⟩ := h.written
  have hlog : c.log = { sequence := c.log.sequence, head := c.log.head } := by
    rw [← h.healthy]
  rcases hc : c.file with - | content
  · obtain ⟨hseq, hhead⟩ := h.fresh hc
    rw [hseq, hhead] at hlog
    rw [AuditLog.openLog, hlog]
  · rw [hc, Option.getD_some] at hfile
    have hend : ¬ (content ≠ [] ∧ content.getLast? ≠ some 10) := by
      rw [hfile]
      rcases getLast?_unlines lines with hnil | hlast
      · exact fun h => h.1 hnil
      · exact fun h => h.2 hlast
    rw [AuditLog.openLog, if_neg hend, verify, hfile, scanLines_unlines hlines, hverify]
    exact congrArg Except.ok hlog.symm

theorem nextRecord_follows {l : Log} (hhead : Valid l.head ∧ l.head.length ≤ 64)
    (hactor : Valid actor) (haction : Valid action) (hid : Valid id)
    (hnow : Rfc3339.FourDigits 0 now)
    (hlen : ¬ (4096 < actor.length ∨ 8192 < action.length ∨ 4096 < id.length)) :
    (nextRecord l now actor action id).Follows l.sequence l.head := by
  have hzone : (0 : ℤ).natAbs < 1440 := by decide
  have htime := Rfc3339.short_format hzone hnow
  have hparse := Rfc3339.parse_format hzone hnow
  have hhash : (nextRecord l now actor action id).hash =
      hash (nextRecord l now actor action id) := rfl
  have hspec := hash_spec (nextRecord l now actor action id)
  push Not at hlen
  refine ⟨⟨valid_of_ascii htime.2, hactor, haction, hid, hhead.1, ?_⟩,
    ⟨rfl, Nat.mod_lt _ (by decide), htime.1, hlen.1, hlen.2.1, hlen.2.2, hhead.2, ?_⟩, rfl, rfl,
    hhash, ?_⟩
  · exact hhash ▸ hspec.1
  · exact hhash ▸ hspec.2
  · show Rfc3339.parse (Rfc3339.format 0 now) ≠ none
    rw [hparse]
    exact Option.some_ne_none now

theorem firstError_none {errs : List (Option String)} (h : firstError errs = none) :
    ∀ e ∈ errs, e = none := by
  induction errs with
  | nil => exact fun e he => nomatch he
  | cons e errs ih =>
    rcases e with - | err
    · rintro e' (- | ⟨-, he'⟩)
      · rfl
      · exact ih h e' he'
    · cases h

/-- A write without an error wrote everything. -/
theorem writeResult_ok {raw written : List UInt8} {err : Option String}
    (h : writeResult io raw = (err, written)) (herr : err = none) : written = raw := by
  subst herr
  unfold writeResult at h
  split at h
  · exact (congrArg snd h).symm
  · cases h
  · split_ifs at h with hn
    · rw [hn, take_length] at h
      exact (congrArg snd h).symm
    · cases h

/-- What a successful append did. -/
theorem append_ok (h : c.append io now actor action id = (none, c')) :
    ¬ (4096 < actor.length ∨ 8192 < action.length ∨ 4096 < id.length) ∧
      c' = { file :=
               some (c.file.getD [] ++ ((nextRecord c.log now actor action id).marshal ++ [10]))
             log := { c.log with
               sequence := (nextRecord c.log now actor action id).sequence
               head := (nextRecord c.log now actor action id).hash } } := by
  rcases hf : c.log.failed with - | err
  · by_cases hlen : 4096 < actor.length ∨ 8192 < action.length ∨ 4096 < id.length
    · simp only [Chain.append, hf, if_pos hlen] at h
      cases h
    · rcases ho : io.openFile with - | err
      · simp only [Chain.append, hf, if_neg hlen, ho] at h
        generalize (nextRecord c.log now actor action id).marshal ++ [10] = raw at h ⊢
        rcases hw : writeResult io raw with ⟨writeErr, written⟩
        simp only [hw] at h
        split at h
        · cases h
        · rename_i hnone
          rw [mk.injEq] at h
          refine ⟨hlen, ?_⟩
          rw [← h.2, writeResult_ok hw (firstError_none hnone _ mem_cons_self)]
          simp only [hf]
      · simp only [Chain.append, hf, if_neg hlen, ho] at h
        cases h
  · simp only [Chain.append, hf] at h
    cases h

theorem CleanStep.good (hstep : CleanStep c c') (h : c.Good) : c'.Good := by
  cases hstep with
  | @append io now c actor action id c' hactor haction hid hnow happend =>
    obtain ⟨hlen, rfl⟩ := append_ok happend
    have hfollows := nextRecord_follows h.head hactor haction hid hnow hlen
    obtain ⟨lines, hfile, hlines, hverify⟩ := h.written
    generalize nextRecord c.log now actor action id = r at hfollows ⊢
    have hprinted := printed_marshal hfollows.bounded
    refine ⟨⟨lines ++ [r.marshal], ?_, ?_, ?_⟩, (fun hnone => nomatch hnone), h.healthy,
      hfollows.bounded.sequence, hfollows.texts.hash, hfollows.bounded.hash⟩
    · rw [unlines_concat, ← hfile]
      rfl
    · intro line hline
      rcases mem_append.mp hline with hline | hline
      · exact hlines line hline
      · -- a newline is a control character
        rw [mem_singleton.mp hline]
        exact fun h10 => absurd (hprinted.2 10 h10) (by decide)
    · rw [verifyLines_concat hverify, verifyLine_marshal hfollows]
  | @reopen c log hopen =>
    rw [h.openLog] at hopen
    cases hopen
    exact h

/-- **The chain can always be reopened**, after appends of UTF-8: with the
sequence number and the head the log holds. -/
theorem reopens {c : Chain} (h : Relation.ReflTransGen CleanStep {} c) :
    openLog c.file = .ok c.log := by
  have hgood : c.Good := by
    induction h with
    | refl => exact ⟨⟨[], rfl, (fun _ hl => nomatch hl), rfl⟩, fun _ => ⟨rfl, rfl⟩, rfl,
        by decide, by decide, by decide⟩
    | tail _ hstep ih => exact hstep.good ih
  exact hgood.openLog

/-- A chain of one record. -/
def oneRecord (actor action id : List UInt8) : Chain :=
  (Chain.append {} 63844847998000000000 {} actor action id).2

theorem append_oneRecord (h : ¬ (4096 < actor.length ∨ 8192 < action.length ∨ 4096 < id.length)) :
    Chain.append {} 63844847998000000000 {} actor action id =
      (none, oneRecord actor action id) := by
  have hfirst : (Chain.append {} 63844847998000000000 {} actor action id).1 = none := by
    simp only [Chain.append, if_neg h]
    rfl
  exact Prod.ext hfirst rfl

theorem reopens_one :
    openLog (oneRecord (bytes "admin") (bytes "compliance_list") (bytes "example.com")).file =
      .ok (oneRecord (bytes "admin") (bytes "compliance_list") (bytes "example.com")).log := by
  apply reopens
  apply Relation.ReflTransGen.single
  exact CleanStep.append ((valid_iff _).mpr ⟨_, rfl⟩) ((valid_iff _).mpr ⟨_, rfl⟩)
    ((valid_iff _).mpr ⟨_, rfl⟩) (by decide +kernel) (append_oneRecord (by decide))

/-- **A byte that is not UTF-8 closes the chain.**  Listing the messages of the
domain `%ff` is acknowledged and recorded, and the record does not verify. -/
theorem byte_closes_chain :
    Step {} (oneRecord (bytes "admin") (bytes "compliance_list") [255]) ∧
      openLog (oneRecord (bytes "admin") (bytes "compliance_list") [255]).file =
        .error (.verify (.mismatch 1)) := by
  refine ⟨.append (append_oneRecord (by decide)), ?_⟩
  decide +kernel

end EmailService.AuditLog
