/-
EmailService/Entry.lean

The records of the message journal (internal/storage/journal.go) and the small
amount of Go they rest on: string-keyed metadata, instants and durations, and
the expansion of a transaction record that replay performs.

Two identifications are made throughout.  A nil slice or map and an empty one
are the same value, as every store operation treats them alike; and
`cloneEntry`, which in the source cuts the aliasing between the caller's entry
and the stored one, is the identity on values.
-/
import Mathlib

namespace EmailService

open List

/-! ### Instants and durations -/

/-- `time.Time` as nanoseconds since the Unix epoch. -/
abbrev Time := ℤ

/-- `time.Duration` in nanoseconds. -/
abbrev Duration := ℤ

/-- The zero `time.Time`, January 1 of year 1. -/
def zeroTime : Time := -62135596800 * 1000000000

def maxDuration : Duration := 2 ^ 63 - 1
def minDuration : Duration := -2 ^ 63

/-- `Time.Sub`, which saturates at the bounds of a duration. -/
def timeSub (t u : Time) : Duration := max minDuration (min maxDuration (t - u))

/-! ### Journal entries -/

/-- `map[string]string`; a missing key reads as the empty string. -/
abbrev Metadata := Std.ExtTreeMap String String compare

def Metadata.get (m : Metadata) (key : String) : String := m.getD key ""

theorem Metadata.get_insert_of_ne {m : Metadata} {key key' value : String} (h : key ≠ key') :
    Metadata.get (m.insert key value) key' = Metadata.get m key' := by
  unfold Metadata.get
  rw [Std.ExtTreeMap.getD_insert, if_neg]
  exact fun he => h (Std.LawfulEqCmp.eq_of_compare he)

/-- `JournalEntry`: one message of the store, and at the same time one record
of the journal.  `transaction` is set only on the records `WriteBatch` makes. -/
structure JournalEntry where
  transaction : List (Option JournalEntry) := []
  id : String := ""
  messageID : String := ""
  fromAddr : String := ""
  toAddrs : List String := []
  data : List UInt8 := []
  tier : String := ""
  attempts : ℤ := 0
  lastAttempt : Time := zeroTime
  createdAt : Time := zeroTime
  status : String := ""
  errorMessage : String := ""
  metadata : Metadata := ∅

variable (e : JournalEntry)

/-- `entry.Metadata[key]`. -/
def JournalEntry.meta (key : String) : String := e.metadata.get key

/-- `cloneEntry`. -/
def cloneEntry : JournalEntry := e

@[simp] theorem cloneEntry_eq : cloneEntry e = e := rfl

/-! ### Transaction records -/

/-- One child of a transaction record, as `replayFile` admits it. -/
def expandChild : Option JournalEntry → Except String JournalEntry
  | none => .error "invalid journal transaction"
  | some child =>
    if child.messageID = "" ∨ child.transaction ≠ [] ∨ child.status = "transaction" then
      .error "invalid journal transaction"
    else .ok child

/-- The entries one record stands for: the body of the loop of `replayFile`
after a successful decode. -/
def expandRecord : Except String (List JournalEntry) :=
  if e.status = "transaction" then
    if e.transaction = [] then .error "empty journal transaction"
    else e.transaction.mapM expandChild
  else .ok [e]

/-- A child that `replayFile` admits. -/
structure ValidChild (e : JournalEntry) : Prop where
  messageID_ne : e.messageID ≠ ""
  transaction_eq : e.transaction = []
  status_ne : e.status ≠ "transaction"

variable {e : JournalEntry} {es : List JournalEntry}

theorem expandChild_some_iff {e' : JournalEntry} :
    expandChild (some e) = .ok e' ↔ ValidChild e ∧ e' = e := by
  by_cases h : e.messageID = "" ∨ e.transaction ≠ [] ∨ e.status = "transaction"
  · have herr : expandChild (some e) = .error "invalid journal transaction" := if_pos h
    rw [herr]
    constructor
    · intro h'
      cases h'
    · rintro ⟨⟨h₁, h₂, h₃⟩, -⟩
      rcases h with h | h | h
      exacts [absurd h h₁, absurd h₂ h, absurd h h₃]
  · have hok : expandChild (some e) = .ok e := if_neg h
    rw [hok]
    push Not at h
    constructor
    · intro h'
      cases h'
      exact ⟨⟨h.1, h.2.1, h.2.2⟩, rfl⟩
    · rintro ⟨-, rfl⟩
      rfl

/-- A record written by `Write` with an ordinary status is one entry. -/
theorem expandRecord_single (h : e.status ≠ "transaction") :
    expandRecord e = .ok [e] := if_neg h

theorem mapM_expandChild_ok (h : ∀ e ∈ es, ValidChild e) :
    (es.map some).mapM expandChild = .ok es := by
  induction es with
  | nil => rfl
  | cons e es ih =>
    have he := expandChild_some_iff.mpr ⟨h e mem_cons_self, rfl⟩
    have hes := ih fun e' he' => h e' (mem_cons_of_mem _ he')
    rw [map_cons, mapM_cons, he, hes]
    rfl

theorem mapM_expandChild_inv {l : List (Option JournalEntry)} (h : l.mapM expandChild = .ok es) :
    ∀ e ∈ es, ValidChild e := by
  induction l generalizing es with
  | nil =>
    cases h
    intro e he
    cases he
  | cons o l ih =>
    rw [mapM_cons] at h
    rcases ho : expandChild o with err | e
    · rw [ho] at h
      cases h
    · rcases hl : l.mapM expandChild with err | es'
      · rw [ho, hl] at h
        cases h
      · rw [ho, hl] at h
        cases h
        intro e' he'
        rcases mem_cons.mp he' with rfl | he'
        · rcases o with - | child
          · cases ho
          · obtain ⟨hvalid, heq⟩ := expandChild_some_iff.mp ho
            exact heq ▸ hvalid
        · exact ih hl e' he'

/-- No record stands for an entry that is itself a transaction. -/
theorem expandRecord_status {r : JournalEntry} (h : expandRecord r = .ok es) :
    ∀ e ∈ es, e.status ≠ "transaction" := by
  unfold expandRecord at h
  split_ifs at h with htx hnil
  · exact fun e he => (mapM_expandChild_inv h e he).status_ne
  · cases h
    intro e he
    rw [mem_singleton.mp he]
    exact htx

/-- The record `WriteBatch` hands to `Write`, before an ID is filled in. -/
def batchRecord (entries : List JournalEntry) : JournalEntry :=
  { status := "transaction", transaction := entries.map some }

/-- A batch of admissible entries stands for exactly these entries, whatever
ID its record was given. -/
theorem expandRecord_batch (hne : es ≠ []) (h : ∀ e ∈ es, ValidChild e) (recordID : String) :
    expandRecord { batchRecord es with id := recordID } = .ok es := by
  have hmap : es.map some ≠ [] := by simpa using hne
  unfold expandRecord batchRecord
  rw [if_pos rfl, if_neg hmap]
  exact mapM_expandChild_ok h

end EmailService
