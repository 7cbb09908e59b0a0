/-
EmailService/Journal.lean

The write-ahead journal of the message store (internal/storage/journal.go).

A journal appends one record at a time to its active file and rolls an append
back when encoding or syncing fails; when the rollback fails too, it latches
itself unhealthy.  `writeLocked` follows the source call by call, with the
answers of the operating system in a `WriteIO`.

The record format is a parameter (`JournalFormat`), so that the same journal
can be read at the level of whole records or at the level of bytes.

Main results: what one append can do to the active file
(`writeLocked_spec`), and what a crash in the middle of it can leave
(`writeStates_torn`).
-/
import EmailService.CrashFile
import EmailService.Framing
import EmailService.Entry

namespace EmailService

open CrashFile List

/-- How records are laid out in a journal file. -/
abbrev JournalFormat (α : Type) := Framing expandRecord α

/-- The format in which a record is one symbol: journals as lists of records. -/
def recordFormat : JournalFormat JournalEntry where
  encode r := .ok [r]
  decode := Framing.expandAll expandRecord
  decode_nil := rfl
  decode_append := by
    rintro r s t h
    cases h
    rfl
  decode_prefix := by
    rintro r s p h hp
    cases h
    rcases prefix_concat_iff.mp (show p <+: [] ++ [r] from hp) with rfl | hnil
    · right
      rcases he : expandRecord r with err | es <;> simp [Framing.expandAll, he] <;> rfl
    · left
      rw [prefix_nil.mp hnil]
      rfl
  decode_sound := fun h => ⟨_, h⟩

/-- `checkpoint.json`: the covered names as a reader sees them, and as a crash
before the next directory sync may still show them. -/
structure Checkpoint where
  covered : List String
  durable : List String

/-- `Journal`.  The directory is the files created before the active one, the
active one, and those created after it; of the encoder only its sticky error
matters. -/
structure Journal (α : Type) where
  failed : Option String
  encoderErr : Option String
  older : List (DirFile α)
  file : DirFile α
  newer : List (DirFile α)
  checkpoint : Checkpoint

variable {α : Type}

/-! ### Replay -/

/-- The journal directory as `Replay` finds it. -/
structure Directory (α : Type) where
  files : List (String × List α)
  covered : List String

/-- `filepath.Glob` lists matching files in lexicographic order. -/
def glob (files : List (String × List α)) : List (String × List α) :=
  files.insertionSort fun f g => f.1 ≤ g.1

/-- The loop of `Replay` over the listed files. -/
def replayFiles (F : JournalFormat α) (covered : List String) :
    List (String × List α) → Except String (List JournalEntry)
  | [] => .ok []
  | (name, content) :: files =>
    if name ∈ covered then replayFiles F covered files
    else
      match F.decode content with
      | .error err => .error ("replay journal file " ++ name ++ ": " ++ err)
      | .ok fileEntries => do
          let entries ← replayFiles F covered files
          pure (fileEntries ++ entries)

/-- `Replay`. -/
def Directory.replay (F : JournalFormat α) (d : Directory α) :
    Except String (List JournalEntry) :=
  replayFiles F d.covered (glob d.files)

/-- Every file of the journal directory, in order of creation. -/
def Journal.files (j : Journal α) : List (DirFile α) := j.older ++ j.file :: j.newer

/-- The directory as the running process sees it. -/
def Journal.directory (j : Journal α) : Directory α :=
  ⟨DirFile.visible j.files, j.checkpoint.covered⟩

/-- `j.Crash d`: a crash may leave the directory `d`. -/
def Journal.Crash (j : Journal α) (d : Directory α) : Prop :=
  DirFile.Survivors j.files d.files ∧
    (d.covered = j.checkpoint.covered ∨ d.covered = j.checkpoint.durable)

variable {y : String × List α} {fs : List (String × List α)} {F : JournalFormat α}
  {covered : List String} {es : List JournalEntry} {content : List α} {io : WriteIO}
  {f f' : CrashFile α} {e : JournalEntry} {r : Option String} {err uuid : String} {j : Journal α}

theorem orderedInsert_concat {x : String × List α} (h : x.1 ≤ y.1) (fs : List (String × List α)) :
    (fs ++ [y]).orderedInsert (fun f g => f.1 ≤ g.1) x
      = fs.orderedInsert (fun f g => f.1 ≤ g.1) x ++ [y] := by
  induction fs with
  | nil => simp [h]
  | cons f fs ih =>
    by_cases hf : x.1 ≤ f.1
    · simp [hf]
    · simp [hf, ih]

/-- The youngest name is listed last. -/
theorem glob_concat (h : ∀ x ∈ fs, x.1 ≤ y.1) : glob (fs ++ [y]) = glob fs ++ [y] := by
  induction fs with
  | nil => rfl
  | cons x fs ih =>
    have ih' := ih fun x' hx' => h x' (mem_cons_of_mem _ hx')
    unfold glob at ih' ⊢
    rw [cons_append, insertionSort_cons, ih', insertionSort_cons]
    exact orderedInsert_concat (h x mem_cons_self) _

/-- Files are replayed one after the other. -/
theorem replayFiles_append_eq (F : JournalFormat α) (covered : List String)
    (fs gs : List (String × List α)) :
    replayFiles F covered (fs ++ gs) = (do
      let es ← replayFiles F covered fs
      let es' ← replayFiles F covered gs
      pure (es ++ es')) := by
  induction fs with
  | nil =>
    rcases hg : replayFiles F covered gs with err | es' <;> simp only [nil_append, hg] <;> rfl
  | cons f fs ih =>
    obtain ⟨name, content⟩ := f
    simp only [replayFiles, cons_append, ih]
    by_cases hc : name ∈ covered
    · rw [if_pos hc, if_pos hc]
    · rw [if_neg hc, if_neg hc]
      rcases F.decode content with err | es₁
      · rfl
      · rcases replayFiles F covered fs with err | es₂
        · rfl
        · rcases replayFiles F covered gs with err | es₃
          · rfl
          · exact congrArg Except.ok (append_assoc ..).symm

theorem replayFiles_append {gs : List (String × List α)} {es' : List JournalEntry}
    (h : replayFiles F covered fs = .ok es) (h' : replayFiles F covered gs = .ok es') :
    replayFiles F covered (fs ++ gs) = .ok (es ++ es') := by
  rw [replayFiles_append_eq, h, h']
  rfl

theorem replayFiles_singleton {name : String} (hc : name ∉ covered)
    (hd : F.decode content = .ok es) : replayFiles F covered [(name, content)] = .ok es := by
  simp only [replayFiles, if_neg hc, hd]
  exact congrArg Except.ok (append_nil es)

/-- No entry that is itself a transaction comes out of a file. -/
theorem decode_status (h : F.decode content = .ok es) : ∀ e ∈ es, e.status ≠ "transaction" := by
  obtain ⟨rs, hrs⟩ := F.decode_sound h
  clear h
  induction rs generalizing es with
  | nil =>
    cases hrs
    intro e he
    cases he
  | cons r rs ih =>
    simp only [Framing.expandAll] at hrs
    rcases hr : expandRecord r with err | es₁
    · rw [hr] at hrs
      cases hrs
    · rcases hrest : Framing.expandAll expandRecord rs with err | es₂
      · rw [hr, hrest] at hrs
        cases hrs
      · rw [hr, hrest] at hrs
        cases hrs
        intro e he
        rcases mem_append.mp he with he | he
        · exact expandRecord_status hr e he
        · exact ih hrest e he

theorem replayFiles_status (h : replayFiles F covered fs = .ok es) :
    ∀ e ∈ es, e.status ≠ "transaction" := by
  induction fs generalizing es with
  | nil =>
    cases h
    intro e he
    cases he
  | cons f fs ih =>
    obtain ⟨name, content⟩ := f
    simp only [replayFiles] at h
    by_cases hc : name ∈ covered
    · rw [if_pos hc] at h
      exact ih h
    · rw [if_neg hc] at h
      rcases hd : F.decode content with err | es₁
      · rw [hd] at h
        cases h
      · rcases hr : replayFiles F covered fs with err | es₂
        · rw [hd, hr] at h
          cases h
        · rw [hd, hr] at h
          cases h
          intro e he
          rcases mem_append.mp he with he | he
          · exact decode_status hd e he
          · exact ih hr e he

/-! ### Append and rollback -/

/-- What the operating system answers during one append: `none` is success.
`encode` is a short write, with the number of symbols that reached the file. -/
structure WriteIO where
  seek : Option String := none
  encode : Option (ℕ × String) := none
  sync : Option String := none
  truncate : Option String := none
  reseek : Option String := none
  resync : Option String := none

/-- Every call of a rollback succeeds. -/
structure WriteIO.RollsBack (io : WriteIO) : Prop where
  truncate : io.truncate = none
  reseek : io.reseek = none
  resync : io.resync = none

/-- `j.encoder.Encode(entry)`. -/
def encodeTo (F : JournalFormat α) (io : WriteIO) (encoderErr : Option String)
    (f : CrashFile α) (entry : JournalEntry) : Option String × CrashFile α :=
  match encoderErr with
  | some err => (some err, f)
  | none =>
    match F.encode entry with
    | .error err => (some err, f)
    | .ok s =>
      match io.encode with
      | none => (none, f.write s)
      | some (n, err) => (some err, f.write (s.take n))

/-- `Encode` and, if it succeeded, `Sync`. -/
def appendTo (F : JournalFormat α) (io : WriteIO) (encoderErr : Option String)
    (f : CrashFile α) (entry : JournalEntry) : Option String × CrashFile α :=
  match encodeTo F io encoderErr f entry with
  | (some err, f) => (some err, f)
  | (none, f) =>
    match io.sync with
    | some err => (some err, f)
    | none => (none, f.sync)

/-- `Truncate`, `Seek` and `Sync` back to the offset before the append. -/
def rollbackTo (io : WriteIO) (offset : ℕ) (f : CrashFile α) :
    Option String × CrashFile α :=
  match io.truncate with
  | some err => (some err, f)
  | none =>
    match io.reseek with
    | some err => (some err, f.truncate offset)
    | none =>
      match io.resync with
      | some err => (some err, f.truncate offset)
      | none => (none, (f.truncate offset).sync)

/-- `if entry.ID == "" { entry.ID = uuid.New().String() }`. -/
def fillID (uuid : String) (entry : JournalEntry) : JournalEntry :=
  if entry.id = "" then { entry with id := uuid } else entry

def Journal.setData (j : Journal α) (f : CrashFile α) : Journal α :=
  { j with file := { j.file with data := f } }

/-- `writeLocked`; on success it returns the entry with its ID filled in, as
the caller's pointer sees it. -/
def writeLocked (F : JournalFormat α) (io : WriteIO) (uuid : String) (j : Journal α)
    (entry : JournalEntry) : Except String JournalEntry × Journal α :=
  match j.failed with
  | some err => (.error err, j)
  | none =>
    let entry := fillID uuid entry
    match io.seek with
    | some err => (.error err, j)
    | none =>
      let offset := j.file.data.content.length
      match appendTo F io j.encoderErr j.file.data entry with
      | (none, f) => (.ok entry, j.setData f)
      | (some original, f) =>
        match rollbackTo io offset f with
        | (none, f) =>
          (.error ("journal write rolled back: " ++ original),
            { j.setData f with encoderErr := none })
        | (some err, f) =>
          let failed := "journal rollback failed: " ++ err ++ " (write: " ++ original ++ ")"
          (.error failed, { j.setData f with encoderErr := none, failed := some failed })

/-- `Write`. -/
def Journal.write (F : JournalFormat α) (io : WriteIO) (uuid : String) (j : Journal α)
    (entry : JournalEntry) : Except String JournalEntry × Journal α :=
  writeLocked F io uuid j entry

/-- `WriteBatch`. -/
def Journal.writeBatch (F : JournalFormat α) (io : WriteIO) (uuid : String) (j : Journal α)
    (entries : List JournalEntry) : Except String JournalEntry × Journal α :=
  j.write F io uuid (batchRecord entries)

/-- The states of the active file after each call `writeLocked` makes; a crash
inside the call finds one of them. -/
def writeStates (F : JournalFormat α) (io : WriteIO) (uuid : String) (j : Journal α)
    (entry : JournalEntry) : List (CrashFile α) :=
  let f₀ := j.file.data
  let f₁ := (encodeTo F io j.encoderErr f₀ (fillID uuid entry)).2
  [f₀, f₁, f₁.sync, f₁.truncate f₀.content.length, (f₁.truncate f₀.content.length).sync]

/-! ### What one append does -/

/-- Nothing pending: no latch, a fresh encoder, and a durable active file. -/
structure Journal.Healthy (j : Journal α) : Prop where
  failed : j.failed = none
  encoder : j.encoderErr = none
  clean : j.file.data.Clean

/-- `Piece F e p`: `p` is a piece of the frame of `e` that an interrupted
append may leave behind. -/
def Piece (F : JournalFormat α) (e : JournalEntry) (p : List α) : Prop :=
  p = [] ∨ ∃ s, F.encode e = .ok s ∧ p <+: s

theorem encodeTo_clean (h : encodeTo F io none f e = (r, f')) :
    ∃ p, f' = f.write p ∧ Piece F e p ∧ (r = none → F.encode e = .ok p) := by
  rcases he : F.encode e with err | s
  · simp only [encodeTo, he, Prod.mk.injEq] at h
    obtain ⟨rfl, rfl⟩ := h
    exact ⟨[], by simp [write], .inl rfl, fun h => nomatch h⟩
  · rcases hio : io.encode with - | ⟨n, err⟩
    · simp only [encodeTo, he, hio, Prod.mk.injEq] at h
      obtain ⟨rfl, rfl⟩ := h
      exact ⟨s, rfl, .inr ⟨s, he, prefix_rfl⟩, fun _ => rfl⟩
    · simp only [encodeTo, he, hio, Prod.mk.injEq] at h
      obtain ⟨rfl, rfl⟩ := h
      exact ⟨s.take n, rfl, .inr ⟨s, he, take_prefix n s⟩, fun h => nomatch h⟩

theorem appendTo_ok (hf : f.Clean) (h : appendTo F io none f e = (none, f')) :
    ∃ s, F.encode e = .ok s ∧ f' = ⟨f.synced ++ s, [], []⟩ := by
  rcases he : encodeTo F io none f e with ⟨r, f₁⟩
  obtain ⟨p, rfl, -, hp⟩ := encodeTo_clean he
  rcases r with - | err
  · rcases hs : io.sync with - | err
    · simp only [appendTo, he, hs, Prod.mk.injEq, true_and] at h
      refine ⟨p, hp rfl, ?_⟩
      rw [← h, sync, content_write, hf.content_eq]
    · simp only [appendTo, he, hs, Prod.mk.injEq] at h
      exact absurd h.1 (by simp)
  · simp only [appendTo, he, Prod.mk.injEq] at h
    exact absurd h.1 (by simp)

theorem appendTo_error (h : appendTo F io none f e = (some err, f')) :
    ∃ p, f' = f.write p ∧ Piece F e p := by
  rcases he : encodeTo F io none f e with ⟨r, f₁⟩
  obtain ⟨p, rfl, hp, -⟩ := encodeTo_clean he
  rcases r with - | err'
  · rcases hs : io.sync with - | err'
    · simp only [appendTo, he, hs, Prod.mk.injEq] at h
      exact absurd h.1 (by simp)
    · simp only [appendTo, he, hs, Prod.mk.injEq] at h
      exact ⟨p, h.2.symm, hp⟩
  · simp only [appendTo, he, Prod.mk.injEq] at h
    exact ⟨p, h.2.symm, hp⟩

theorem rollbackTo_cases {p : List α} (hf : f.Clean)
    (h : rollbackTo io f.content.length (f.write p) = (r, f')) :
    (r = none ∧ f' = f) ∨
      (r ≠ none ∧ ¬ io.RollsBack ∧ (f' = f.write p ∨ f' = ⟨f.synced, [], p⟩)) := by
  rcases ht : io.truncate with - | err
  · rcases hk : io.reseek with - | err
    · rcases hs : io.resync with - | err
      · simp only [rollbackTo, ht, hk, hs, Prod.mk.injEq] at h
        exact .inl ⟨h.1.symm, by rw [← h.2, hf.truncate_write]⟩
      · simp only [rollbackTo, ht, hk, hs, Prod.mk.injEq] at h
        refine .inr ⟨by simp [← h.1], fun hr => ?_, .inr ?_⟩
        · rw [hr.resync] at hs; cases hs
        · rw [← h.2, hf.truncate_write_eq]
    · simp only [rollbackTo, ht, hk, Prod.mk.injEq] at h
      refine .inr ⟨by simp [← h.1], fun hr => ?_, .inr ?_⟩
      · rw [hr.reseek] at hk; cases hk
      · rw [← h.2, hf.truncate_write_eq]
  · simp only [rollbackTo, ht, Prod.mk.injEq] at h
    refine .inr ⟨by simp [← h.1], fun hr => ?_, .inl h.2.symm⟩
    rw [hr.truncate] at ht; cases ht

/-- A journal whose rollback has failed: it is latched, and behind the durable
records its file may show a piece of the frame of `e`. -/
structure Journal.Latched (F : JournalFormat α) (j j' : Journal α) (e : JournalEntry) :
    Prop where
  failed : j'.failed ≠ none
  encoder : j'.encoderErr = none
  eq : ∃ f, j' = { j.setData f with failed := j'.failed } ∧ f.synced = j.file.data.synced ∧
    Piece F e f.tail ∧ Piece F e f.residue

/-- **What one append can do**: acknowledge the record and make its whole frame
durable; report an error and leave the journal as it was; or report an error
and latch. -/
theorem writeLocked_spec {j' : Journal α} {r : Except String JournalEntry} (hj : j.Healthy)
    (h : writeLocked F io uuid j e = (r, j')) :
    (r = .ok (fillID uuid e) ∧ ∃ s, F.encode (fillID uuid e) = .ok s ∧
        j' = j.setData ⟨j.file.data.synced ++ s, [], []⟩) ∨
      ((∃ err, r = .error err) ∧ j' = j) ∨
      ((∃ err, r = .error err) ∧ ¬ io.RollsBack ∧ j.Latched F j' (fillID uuid e)) := by
  obtain ⟨hfail, henc, hclean⟩ := hj
  simp only [writeLocked, hfail] at h
  rcases hk : io.seek with - | err
  · simp only [hk] at h
    rcases ha : appendTo F io j.encoderErr j.file.data (fillID uuid e) with ⟨ra, f₁⟩
    rw [henc] at ha
    rw [henc, ha] at h
    rcases ra with - | original
    · obtain ⟨s, hs, rfl⟩ := appendTo_ok hclean ha
      simp only [Prod.mk.injEq] at h
      exact .inl ⟨h.1.symm, s, hs, h.2.symm⟩
    · obtain ⟨p, rfl, hp⟩ := appendTo_error ha
      rcases hrb : rollbackTo io j.file.data.content.length (j.file.data.write p) with ⟨rr, f₂⟩
      simp only [hrb] at h
      rcases rollbackTo_cases hclean hrb with ⟨rfl, rfl⟩ | ⟨hne, hnot, hf₂⟩
      · simp only [Prod.mk.injEq] at h
        refine .inr (.inl ⟨⟨_, h.1.symm⟩, ?_⟩)
        rw [← h.2, ← henc]
        rfl
      · rcases rr with - | err
        · exact absurd rfl hne
        · simp only [Prod.mk.injEq] at h
          obtain ⟨rfl, rfl⟩ := h
          refine .inr (.inr ⟨⟨_, rfl⟩, hnot, by simp, rfl, f₂, ?_, ?_⟩)
          · simp [Journal.setData, henc]
          · rcases hf₂ with rfl | rfl
            · refine ⟨rfl, ?_, .inl hclean.2⟩
              simpa [write, hclean.1] using hp
            · exact ⟨rfl, .inl rfl, hp⟩
  · simp only [hk, Prod.mk.injEq] at h
    exact .inr (.inl ⟨⟨_, h.1.symm⟩, h.2.symm⟩)

/-- A latched journal acknowledges nothing and changes nothing. -/
theorem writeLocked_of_failed (h : j.failed = some err) :
    writeLocked F io uuid j e = (.error err, j) := by
  simp only [writeLocked, h]

/-- **A crash inside an append** finds the durable records followed by a piece
of the frame being written, or that frame complete. -/
theorem writeStates_torn (hj : j.Healthy) (hf : f ∈ writeStates F io uuid j e) {out : List α}
    (hout : f.Image out) : ∃ p, out = j.file.data.synced ++ p ∧ Piece F (fillID uuid e) p := by
  obtain ⟨-, henc, hclean⟩ := hj
  rcases he : encodeTo F io none j.file.data (fillID uuid e) with ⟨r, f₁⟩
  obtain ⟨p, rfl, hp, -⟩ := encodeTo_clean he
  have hpre : ∀ q, q <+: p → Piece F (fillID uuid e) q := by
    intro q hq
    rcases hp with rfl | ⟨s, hs, hps⟩
    · exact .inl (prefix_nil.mp hq)
    · exact .inr ⟨s, hs, hq.trans hps⟩
  -- the five states, oldest first
  simp only [writeStates, henc, he, mem_cons, not_mem_nil, or_false] at hf
  rcases hf with rfl | rfl | rfl | rfl | rfl
  · rw [hclean.image_iff, hclean.content_eq] at hout
    exact ⟨[], by simpa using hout, .inl rfl⟩
  · obtain ⟨q, hq, rfl⟩ := hout
    refine ⟨q, rfl, hpre q ?_⟩
    rcases hq with hq | hq
    · simpa [write, hclean.1] using hq
    · have : q = [] := prefix_nil.mp (hclean.2 ▸ hq)
      rw [this]; exact nil_prefix
  · rw [(clean_sync _).image_iff, content_sync, content_write, hclean.content_eq] at hout
    exact ⟨p, hout, hp⟩
  · rw [hclean.truncate_write_eq] at hout
    obtain ⟨q, hq, rfl⟩ := hout
    refine ⟨q, rfl, hpre q ?_⟩
    rcases hq with hq | hq
    · rw [prefix_nil.mp hq]; exact nil_prefix
    · exact hq
  · rw [hclean.truncate_write, hclean.image_iff, hclean.content_eq] at hout
    exact ⟨[], by simpa using hout, .inl rfl⟩

end EmailService
