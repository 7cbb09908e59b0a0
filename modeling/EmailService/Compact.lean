/-
EmailService/Compact.lean

Compaction of the journal (internal/storage/compact.go, `Compact`).

Compaction first journals a tombstone for every held entry past its retention,
then writes the index to a new journal file, installs a checkpoint that covers
all files listed before, switches to the new file and removes the covered ones.
It is a `Traced` computation, so that a crash between any two system calls can
be spoken about.  In memory all it does, whether it fails or not, is drop
overdue held entries (`compact_tables`).
-/
import EmailService.Traced
import EmailService.Recovery

namespace EmailService

open Traced

variable {α : Type}

/-- What the surroundings answer during one compaction; for a system call,
`none` is success. -/
structure CompactIO where
  /-- the clock as `time.Since` reads it for each entry -/
  clock : String → Time
  /-- the calls of the append of each tombstone, and the UUID of its record -/
  tombstone : String → WriteIO × String
  /-- the orders in which the two loops range over the index -/
  expireOrder : List String
  snapshotOrder : List String
  sync : Option String := none
  glob : Option String := none
  /-- what `journalName()` returns -/
  name : String
  create : Option String := none
  /-- a short write of an entry of the snapshot -/
  encode : String → Option (ℕ × String) := fun _ => none
  snapshotSync : Option String := none
  dirSync : Option String := none
  createTemp : Option String := none
  encodeTemp : Option String := none
  syncTemp : Option String := none
  rename : Option String := none
  /-- whether the deferred `os.Remove` of an uncommitted snapshot works -/
  removeSnapshot : Bool := true
  commitSync : Option String := none
  remove : String → Option String := fun _ => none
  tiers : Option String := none
  finalSync : Option String := none

/-! ### System calls on the journal directory -/

/-- `fsync` of the journal directory: entries and checkpoint become durable. -/
def Journal.syncDir (j : Journal α) : Journal α :=
  { j with
    older := DirFile.syncDir j.older
    file := { j.file with linked := true }
    newer := DirFile.syncDir j.newer
    checkpoint := { j.checkpoint with durable := j.checkpoint.covered } }

/-- The names `filepath.Glob` lists. -/
def Journal.names (j : Journal α) : List String :=
  (glob (DirFile.visible j.files)).map Prod.fst

/-- Create the snapshot file. -/
def Journal.create (j : Journal α) (name : String) : Journal α :=
  { j with newer := j.newer ++ [DirFile.create name] }

/-- A call on the snapshot, the youngest file of the directory. -/
def Journal.onSnapshot (f : DirFile α → DirFile α) (j : Journal α) : Journal α :=
  { j with newer := j.newer.modifyLast f }

/-- Rename the new checkpoint into place and switch to the snapshot. -/
def Journal.install (covered : List String) (j : Journal α) : Journal α :=
  match j.newer.getLast? with
  | none => j
  | some snapshot =>
    { j with
      encoderErr := none
      older := j.older ++ j.file :: j.newer.dropLast
      file := snapshot
      newer := []
      checkpoint := { j.checkpoint with covered := covered } }

/-- `os.Remove` of a covered file. -/
def Journal.removeOlder (name : String) (j : Journal α) : Journal α :=
  { j with older := j.older.map fun f => if f.name = name then f.remove else f }

def onJournal (f : Journal α → Journal α) : Traced (MessageStore α) Unit :=
  step fun s => { s with journal := f s.journal }

/-! ### Compaction -/

/-- `e.Status == "held" && time.Since(e.CreatedAt) > retention`. -/
def Overdue (cio : CompactIO) (retention : Duration) (id : String) (e : JournalEntry) : Prop :=
  e.status = "held" ∧ retention < timeSub (cio.clock id) e.createdAt

instance (cio : CompactIO) (retention : Duration) (id : String) (e : JournalEntry) :
    Decidable (Overdue cio retention id e) :=
  inferInstanceAs (Decidable (_ ∧ _))

/-- `j.writeLocked(v)`, passing through the states of the append. -/
def writeTombstone (F : JournalFormat α) (io : WriteIO) (uuid : String) (v : JournalEntry) :
    Traced (MessageStore α) Unit := fun s =>
  let during := (writeStates F io uuid s.journal v).map fun f =>
    { s with journal := s.journal.setData f }
  match writeLocked F io uuid s.journal v with
  | (.error err, j) =>
    (during ++ [{ s with journal := j }], .error err, { s with journal := j })
  | (.ok _, j) => (during ++ [{ s with journal := j }], .ok (), { s with journal := j })

/-- The loop that journals a tombstone for every overdue entry. -/
def expireHeld (F : JournalFormat α) (cio : CompactIO) (retention : Duration) :
    List String → Traced (MessageStore α) (List String)
  | [] => pure []
  | id :: ids => do
      let s ← read
      match s.index id with
      | none => expireHeld F cio retention ids
      | some e =>
        if Overdue cio retention id e then do
          let v := { cloneEntry e with status := "deleted" }
          writeTombstone F (cio.tombstone id).1 (cio.tombstone id).2 v
          let expired ← expireHeld F cio retention ids
          pure (id :: expired)
        else expireHeld F cio retention ids

variable (F : JournalFormat α) (cio : CompactIO)

/-- The retention step: nothing expires under a retention of zero or less. -/
def expireOverdue (retention : Duration) : Traced (MessageStore α) (List String) :=
  if 0 < retention then do
    let expired ← expireHeld F cio retention cio.expireOrder
    check cio.sync
    onJournal fun j => j.setData j.file.data.sync
    pure expired
  else pure []

/-- The loop that encodes the index into the snapshot. -/
def encodeIndex (F : JournalFormat α) (cio : CompactIO) :
    List String → Traced (MessageStore α) Unit
  | [] => pure ()
  | id :: ids => do
      let s ← read
      match s.index id with
      | none => encodeIndex F cio ids
      | some e =>
        match F.encode e with
        | .error err => fail err
        | .ok frame =>
          match cio.encode id with
          | none => do
              onJournal (Journal.onSnapshot fun f => { f with data := f.data.write frame })
              encodeIndex F cio ids
          | some (n, err) => do
              onJournal (Journal.onSnapshot fun f =>
                { f with data := f.data.write (frame.take n) })
              fail err

/-- From the first entry of the snapshot to the rename of the checkpoint. -/
def writeSnapshot (old : List String) :
    Traced (MessageStore α) Unit := do
  encodeIndex F cio cio.snapshotOrder
  check cio.snapshotSync
  onJournal (Journal.onSnapshot fun f => { f with data := f.data.sync })
  check cio.dirSync
  onJournal Journal.syncDir
  check cio.createTemp
  check cio.encodeTemp
  check cio.syncTemp
  check cio.rename
  onJournal (Journal.install old)

/-- The loop that removes the covered files. -/
def removeCovered (cio : CompactIO) : List String → Traced (MessageStore α) Unit
  | [] => pure ()
  | name :: names => do
      check (cio.remove name)
      onJournal (Journal.removeOlder name)
      removeCovered cio names

/-- `Compact`. -/
def compact (retention : Duration) :
    Traced (MessageStore α) Unit := do
  let s ← read
  check s.journal.failed
  check (if s.closed then some "store closed" else none)
  let expired ← expireOverdue F cio retention
  step fun s => { s with toTables := expired.foldl Tables.drop s.toTables }
  check cio.glob
  let s ← read
  let old := s.journal.names
  check cio.create
  -- O_EXCL
  check (if cio.name ∈ old then some "file exists" else none)
  onJournal fun j => j.create cio.name
  onError (writeSnapshot F cio old) fun s =>
    if cio.removeSnapshot then { s with journal := s.journal.onSnapshot DirFile.remove } else s
  check cio.commitSync
  onJournal Journal.syncDir
  removeCovered cio old
  check cio.tiers
  check cio.finalSync
  onJournal Journal.syncDir

/-! ### What compaction does to the tables -/

/-- `m` leaves the tables alone. -/
def Framed {β : Type} (m : Traced (MessageStore α) β) : Prop :=
  ∀ t, Spec (fun s => s.toTables = t) m (fun _ s => s.toTables = t) (fun s => s.toTables = t)
    fun _ => True

section Framed

variable {β γ : Type} {F : JournalFormat α}

theorem Framed.ret (b : β) : Framed (ret b : Traced (MessageStore α) β) :=
  fun _ => .ret fun _ h => h

theorem Framed.fail (err : String) : Framed (fail err : Traced (MessageStore α) β) :=
  fun _ => .fail fun _ h => h

theorem Framed.check (o : Option String) : Framed (check o : Traced (MessageStore α) Unit) :=
  fun _ => .check fun _ h => h

theorem Framed.onJournal (f : Journal α → Journal α) : Framed (onJournal f) :=
  fun _ => .step (fun _ h => h) fun _ _ => trivial

theorem Framed.bind {m : Traced (MessageStore α) β} {k : β → Traced (MessageStore α) γ}
    (hm : Framed m) (hk : ∀ b, Framed (k b)) : Framed (m >>= k) :=
  fun t => .bind (hm t) fun b => hk b t

/-- A continuation of a read may look at the state it is given. -/
theorem Framed.read_bind {k : MessageStore α → Traced (MessageStore α) γ}
    (hk : ∀ s, Framed (k s)) : Framed (read >>= k) :=
  fun t => .read_bind fun s hs =>
    (hk s t).weaken (fun _ h => h ▸ hs) (fun _ _ h => h) (fun _ h => h) fun _ h => h

variable (cio : CompactIO) (retention : Duration) (t : Tables)

theorem framed_encodeIndex (order : List String) : Framed (encodeIndex F cio order) := by
  induction order with
  | nil => exact .ret _
  | cons id order ih =>
    apply Framed.read_bind
    intro s
    rcases s.index id with - | e
    · exact ih
    · rcases hframe : F.encode e with err | frame
      · simp only [hframe]
        exact .fail err
      · simp only [hframe]
        rcases cio.encode id with - | ⟨n, err⟩
        · exact .bind (.onJournal _) fun _ => ih
        · exact .bind (.onJournal _) fun _ => .fail err

theorem framed_writeSnapshot (old : List String) : Framed (writeSnapshot F cio old) :=
  .bind (framed_encodeIndex cio _) fun _ => .bind (.check _) fun _ => .bind (.onJournal _) fun _ =>
    .bind (.check _) fun _ => .bind (.onJournal _) fun _ => .bind (.check _) fun _ =>
      .bind (.check _) fun _ => .bind (.check _) fun _ => .bind (.check _) fun _ => .onJournal _

theorem framed_removeCovered (cio : CompactIO) (names : List String) :
    Framed (removeCovered (α := α) cio names) := by
  induction names with
  | nil => exact .ret _
  | cons name names ih => exact .bind (.check _) fun _ => .bind (.onJournal _) fun _ => ih

theorem framed_writeTombstone (io : WriteIO) (uuid : String) (v : JournalEntry) :
    Framed (writeTombstone F io uuid v) := by
  intro t s hs
  simp only [writeTombstone]
  rcases writeLocked F io uuid s.journal v with ⟨err | e, j⟩ <;> exact ⟨fun _ _ => trivial, hs⟩

/-- The keys that compaction expires hold overdue entries. -/
def AllOverdueIn (t : Tables) (cio : CompactIO) (retention : Duration) (ids : List String) :
    Prop :=
  ∀ id ∈ ids, ∃ e, t.index id = some e ∧ Overdue cio retention id e

theorem expireHeld_tables (order : List String) (t : Tables) :
    Spec (fun s : MessageStore α => s.toTables = t) (expireHeld F cio retention order)
      (fun ids s => AllOverdueIn t cio retention ids ∧ s.toTables = t) (fun s => s.toTables = t)
      fun _ => True := by
  induction order with
  | nil =>
    apply Spec.ret
    intro s hs
    exact ⟨fun id hid => (List.not_mem_nil hid).elim, hs⟩
  | cons id order ih =>
    apply Spec.read_bind
    intro s hs
    have hrest := ih.weaken (fun s' (h : s' = s) => h ▸ hs) (fun _ _ h => h) (fun _ h => h)
      fun _ h => h
    rcases he : s.index id with - | e
    · exact hrest
    · by_cases ho : Overdue cio retention id e
      · simp only [if_pos ho]
        have he' : t.index id = some e := hs ▸ he
        refine Spec.bind ((framed_writeTombstone _ _ _ t).weaken (fun s' (h : s' = s) => h ▸ hs)
          (fun _ _ h => h) (fun _ h => h) fun _ h => h) fun _ => ?_
        refine Spec.bind ih fun ids => Spec.ret fun s' hs' => ⟨?_, hs'.2⟩
        intro id' hid'
        rcases List.mem_cons.mp hid' with rfl | hid'
        · exact ⟨e, he', ho⟩
        · exact hs'.1 id' hid'
      · simp only [if_neg ho]
        exact hrest

theorem expireOverdue_tables :
    Spec (fun s : MessageStore α => s.toTables = t) (expireOverdue F cio retention)
      (fun ids s => AllOverdueIn t cio retention ids ∧ s.toTables = t) (fun s => s.toTables = t)
      fun _ => True := by
  unfold expireOverdue
  split_ifs
  · refine .bind (expireHeld_tables cio retention _ t) fun ids => ?_
    refine .bind (.check fun _ h => h.2) fun _ => ?_
    exact .bind (Q := fun _ s => AllOverdueIn t cio retention ids ∧ s.toTables = t)
      (.step (fun _ h => h) fun _ _ => trivial) fun _ => .ret fun _ h => h
  · exact Spec.ret fun s hs => ⟨fun id hid => (List.not_mem_nil hid).elim, hs⟩

/-- **What compaction does to the tables**, whether it fails or not: it drops
overdue held entries from the index. -/
theorem compact_tables :
    Spec (fun s : MessageStore α => s.toTables = t) (compact F cio retention)
      (fun _ s => ∃ ids, AllOverdueIn t cio retention ids ∧ s.toTables = ids.foldl Tables.drop t)
      (fun s => ∃ ids, AllOverdueIn t cio retention ids ∧ s.toTables = ids.foldl Tables.drop t)
      fun _ => True := by
  have hnone : ∀ s : MessageStore α, s.toTables = t →
      ∃ ids, AllOverdueIn t cio retention ids ∧ s.toTables = ids.foldl Tables.drop t :=
    fun s hs => ⟨[], fun id hid => (List.not_mem_nil hid).elim, hs⟩
  refine Spec.read_bind fun s hs => ?_
  refine (?_ : Spec (fun s' : MessageStore α => s'.toTables = t) _ _ _ _).weaken
    (fun s' h => h ▸ hs) (fun _ _ h => h) (fun _ h => h) fun _ h => h
  refine Spec.bind (Spec.check hnone) fun _ => Spec.bind (Spec.check hnone) fun _ => ?_
  refine Spec.bind ((expireOverdue_tables cio retention t).weaken (fun _ h => h) (fun _ _ h => h)
    hnone fun _ h => h) fun ids => ?_
  refine Spec.bind (Q := fun _ s => AllOverdueIn t cio retention ids ∧
    s.toTables = ids.foldl Tables.drop t) (Spec.step (fun s h => ⟨h.1, ?_⟩) fun _ _ => trivial)
    fun _ => ?_
  · show List.foldl _ s.toTables ids = _
    rw [h.2]
  -- from here on the tables stay as they are
  refine Spec.of_pure fun hids => ((?_ : Framed _) _).weaken (fun _ h => h)
    (fun _ _ h => ⟨ids, hids, h⟩) (fun _ h => ⟨ids, hids, h⟩) fun _ h => h
  refine .bind (.check _) fun _ => .read_bind fun s => .bind (.check _) fun _ =>
    .bind (.check _) fun _ => .bind (.onJournal _) fun _ => .bind ?_ fun _ =>
      .bind (.check _) fun _ => .bind (.onJournal _) fun _ =>
        .bind (framed_removeCovered cio _) fun _ => .bind (.check _) fun _ =>
          .bind (.check _) fun _ => .onJournal _
  intro t
  apply Spec.onError (framed_writeSnapshot cio _ t)
  · intro s hs
    split_ifs <;> exact hs
  · exact fun _ _ => trivial

end Framed

end EmailService
