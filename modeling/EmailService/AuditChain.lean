/-
EmailService/AuditChain.lean

What the head of an audit chain says about the chain
(internal/auditlog/audit.go).

Two files that verify up to the same head hold the same records
(`same_records`): from the last record back, equal hashes are hashes of equal
texts, equal texts are encodings of equal records, and these name the same record
before them.  That the encoding of a record determines it is proved
(`marshal_injective`); that no two of the texts hashed collide under SHA-256 is a
hypothesis about the two files.
-/
import EmailService.AuditLog

namespace EmailService.AuditLog

open Json Utf8 List Sha256

/-- The record of a line. -/
def readLine (line : List UInt8) : Option Record := unmarshal recordFields (dropCR line) {}

/-- The records of a file. -/
def records (content : List UInt8) : List Record := (scanLines content).filterMap readLine

/-- The text that is hashed for a record. -/
def Record.hashed (r : Record) : List UInt8 := { r with hash := [] }.marshal

/-! ### Records that were read -/

/-- A record as it can be read: its texts are UTF-8 and its numbers fit. -/
structure Record.Read (r : Record) : Prop where
  texts : r.Texts
  version : -2 ^ 63 ≤ r.version ∧ r.version < 2 ^ 63
  sequence : r.sequence < 2 ^ 64

variable {r r' : Record} {line head head' : List UInt8} {seq seq' : ℕ} {lines : List (List UInt8)}

/-- Every field keeps a record one that can be read. -/
theorem Record.Read.store {f : Json.Field Record} {v : Value} (hf : f ∈ recordFields)
    (hv : v.repaired = v) (h : f.store v r = some r') (hr : r.Read) : r'.Read := by
  have hsame := hr
  obtain ⟨⟨htime, hactor, haction, hid, hprevious, hhash⟩, hversion, hsequence⟩ := hr
  simp only [recordFields, mem_cons, not_mem_nil, or_false] at hf
  rcases hf with rfl | rfl | rfl | rfl | rfl | rfl | rfl | rfl
  · obtain rfl | ⟨z, hz, rfl⟩ := storeInt_ok h
    · exact hsame
    · exact ⟨⟨htime, hactor, haction, hid, hprevious, hhash⟩, hz, hsequence⟩
  · obtain rfl | ⟨n, hn, rfl⟩ := storeUint64_ok h
    · exact hsame
    · exact ⟨⟨htime, hactor, haction, hid, hprevious, hhash⟩, hversion, hn⟩
  all_goals
    obtain rfl | ⟨s, hs, rfl⟩ := storeString_ok h hv
    · exact hsame
  · exact ⟨⟨hs, hactor, haction, hid, hprevious, hhash⟩, hversion, hsequence⟩
  · exact ⟨⟨htime, hs, haction, hid, hprevious, hhash⟩, hversion, hsequence⟩
  · exact ⟨⟨htime, hactor, hs, hid, hprevious, hhash⟩, hversion, hsequence⟩
  · exact ⟨⟨htime, hactor, haction, hs, hprevious, hhash⟩, hversion, hsequence⟩
  · exact ⟨⟨htime, hactor, haction, hid, hs, hhash⟩, hversion, hsequence⟩
  · exact ⟨⟨htime, hactor, haction, hid, hprevious, hs⟩, hversion, hsequence⟩

theorem read_of_readLine (h : readLine line = some r) : r.Read := by
  refine unmarshal_keeps (fun f hf v s s' hv hs hread => hread.store hf hv hs) h ?_
  have hnil : Valid [] := valid_of_ascii nofun
  exact ⟨⟨hnil, hnil, hnil, hnil, hnil, hnil⟩, by decide, by decide⟩

/-- **The encoding determines the record.** -/
theorem marshal_injective (hr : r.Read) (hr' : r'.Read) (h : r.marshal = r'.marshal) : r = r' := by
  have hread : ∀ r : Record, r.Read → unmarshal recordFields r.marshal {} = some r := by
    intro r hr
    rw [Record.marshal, unmarshal_print recordFields (sound_value r), repaired_value hr.texts,
      storeStruct_value hr.version hr.sequence]
  exact Option.some.inj ((hread r hr).symm.trans (h ▸ hread r' hr'))

theorem Record.Read.clear (h : r.Read) : Record.Read { r with hash := [] } where
  texts := ⟨h.texts.time, h.texts.actor, h.texts.action, h.texts.id, h.texts.previous,
    valid_of_ascii nofun⟩
  version := h.version
  sequence := h.sequence

/-! ### The chain, from its head back -/

theorem hash_ne_nil (r : Record) : hash r ≠ [] := by
  intro h
  have hsum : sum256 r.hashed = [] := hexEncode_injective h
  have hlen := length_sum256 r.hashed
  rw [hsum] at hlen
  cases hlen

theorem verifyLine_ok (h : verifyLine seq head line = .ok (seq', head')) :
    ∃ r, readLine line = some r ∧ r.previous = head ∧ r.hash = hash r ∧ head' = r.hash := by
  rw [verifyLine] at h
  split at h
  · cases h
  · split at h
    · cases h
    · next r hr =>
      split at h
      · cases h
      · next hmatch =>
        split at h
        · cases h
        · cases h
          simp only [not_or, not_not] at hmatch
          exact ⟨r, hr, hmatch.2.2.1, hmatch.2.2.2, rfl⟩

/-- The last line of a chain. -/
theorem verifyLines_append (h : verifyLines seq head (lines ++ [line]) = .ok (seq', head')) :
    ∃ seq₁ r, verifyLines seq head lines = .ok (seq₁, r.previous) ∧ readLine line = some r ∧
      r.hash = hash r ∧ head' = r.hash := by
  induction lines generalizing seq head with
  | nil =>
    rw [nil_append, verifyLines] at h
    split at h
    · cases h
    · next seq₁ head₁ hline =>
      cases h
      obtain ⟨r, hr, hprevious, hhash, hhead⟩ := verifyLine_ok hline
      exact ⟨seq, r, by rw [verifyLines, hprevious], hr, hhash, hhead⟩
  | cons l lines ih =>
    rw [cons_append, verifyLines] at h
    rw [verifyLines]
    split at h
    · cases h
    · exact ih h

/-- Records of one hash are equal, if their texts do not collide. -/
theorem record_eq {line' : List UInt8} (hr : readLine line = some r)
    (hr' : readLine line' = some r') (hhash : r.hash = hash r) (hhash' : r'.hash = hash r')
    (hsame : r.hash = r'.hash)
    (hcollision : sum256 r.hashed = sum256 r'.hashed → r.hashed = r'.hashed) :
    r = r' := by
  have hsum : sum256 r.hashed = sum256 r'.hashed := by
    refine hexEncode_injective ?_
    exact hhash.symm.trans (hsame.trans hhash')
  have hclear := marshal_injective (read_of_readLine hr).clear (read_of_readLine hr').clear
    (hcollision hsum)
  cases r
  cases r'
  simp only [Record.mk.injEq] at hclear hsame ⊢
  tauto

/-- **Lines that verify up to the same head are lines of the same records.** -/
theorem same_lines {lines' : List (List UInt8)} (h : verifyLines 0 [] lines = .ok (seq, head))
    (h' : verifyLines 0 [] lines' = .ok (seq', head))
    (hcollision : ∀ r ∈ lines.filterMap readLine, ∀ r' ∈ lines'.filterMap readLine,
      sum256 r.hashed = sum256 r'.hashed → r.hashed = r'.hashed) :
    lines.filterMap readLine = lines'.filterMap readLine := by
  induction lines using reverseRecOn generalizing lines' seq seq' head with
  | nil =>
    cases h
    rcases eq_nil_or_concat' lines' with rfl | ⟨lines', line', rfl⟩
    · rfl
    · -- the head of a chain with a record is not empty
      obtain ⟨-, r, -, -, hhash, hhead⟩ := verifyLines_append h'
      exact absurd (hhash.symm.trans hhead.symm) (hash_ne_nil r)
  | append_singleton lines line ih =>
    obtain ⟨seq₁, r, hbefore, hr, hhash, rfl⟩ := verifyLines_append h
    rcases eq_nil_or_concat' lines' with rfl | ⟨lines', line', rfl⟩
    · rw [verifyLines, Except.ok.injEq, Prod.mk.injEq] at h'
      exact absurd (hhash.symm.trans h'.2.symm) (hash_ne_nil r)
    · obtain ⟨seq₁', r', hbefore', hr', hhash', hhead⟩ := verifyLines_append h'
      simp only [filterMap_append, filterMap_cons, hr, hr', filterMap_nil,
        mem_append, mem_singleton] at hcollision ⊢
      obtain rfl := record_eq hr hr' hhash hhash' hhead
        (hcollision r (.inr rfl) r' (.inr rfl))
      rw [ih hbefore hbefore' fun x hx x' hx' => hcollision x (.inl hx) x' (.inl hx')]

/-- **The head determines the chain.**  Two files that verify and end with the same sequence
number and head hold the same records, if no two texts hashed for them collide. -/
theorem same_records (file file' : List UInt8) (seq : ℕ) (head : List UInt8)
    (hfile : verify file = .ok (seq, head)) (hfile' : verify file' = .ok (seq, head))
    (hcollision : ∀ r ∈ records file, ∀ r' ∈ records file',
      sum256 r.hashed = sum256 r'.hashed → r.hashed = r'.hashed) :
    records file = records file' := same_lines hfile hfile' hcollision

/-- The first record of a chain. -/
def firstRecord : Record :=
  nextRecord {} 63844847998000000000 (bytes "admin") (bytes "login") (bytes "x")

theorem same_records_blank :
    verify (firstRecord.marshal ++ [10]) = .ok (1, firstRecord.hash) ∧
      verify (32 :: firstRecord.marshal ++ [13, 10]) = .ok (1, firstRecord.hash) ∧
      records (firstRecord.marshal ++ [10]) = records (32 :: firstRecord.marshal ++ [13, 10]) := by
  have hfile : verify (firstRecord.marshal ++ [10]) = .ok (1, firstRecord.hash) := by
    decide +kernel
  have hfile' : verify (32 :: firstRecord.marshal ++ [13, 10]) = .ok (1, firstRecord.hash) := by
    decide +kernel
  have hrecords : records (firstRecord.marshal ++ [10]) = [firstRecord] := by decide +kernel
  have hrecords' : records (32 :: firstRecord.marshal ++ [13, 10]) = [firstRecord] := by
    decide +kernel
  refine ⟨hfile, hfile', same_records _ _ 1 firstRecord.hash hfile hfile' ?_⟩
  rw [hrecords, hrecords']
  intro r hr r' hr' _
  rw [mem_singleton.mp hr, mem_singleton.mp hr']

end EmailService.AuditLog
