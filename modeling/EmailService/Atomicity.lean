/-
EmailService/Atomicity.lean

Failing calls: all or nothing.

A store is opened on any directory and then takes any calls, failing ones and
compactions included.  In every store so reached the journal is either latched
or has nothing pending (`Reachable.sound`).  From such a store a call that
returns an error while its rollback works leaves the tables, the journal
directory and what a crash could make of it as they were
(`call_error_unchanged`); a batch is one record, so it cannot be split.
-/
import EmailService.Runs

namespace EmailService

open Traced

variable {α : Type}

/-! ### Opening a store -/

/-- A file as a starting process finds it: what it reads is durable. -/
def foundFile (f : String × List α) : DirFile α := ⟨f.1, ⟨f.2, [], []⟩, true, false⟩

/-- `NewJournal`: the active file is created, or appended to if its name is
taken. -/
def newJournal (name : String) (d : Directory α) : Journal α where
  failed := none
  encoderErr := none
  older := (d.files.filter fun f => f.1 ≠ name).map foundFile
  file := foundFile (name, ((d.files.find? fun f => f.1 = name).map Prod.snd).getD [])
  newer := []
  checkpoint := ⟨d.covered, d.covered⟩

/-- `NewMessageStore`. -/
def newMessageStore (F : JournalFormat α) (name : String) (d : Directory α) :
    Except String (MessageStore α) :=
  match recover F (newJournal name d).directory with
  | .error err => .error ("failed to recover from journal: " ++ err)
  | .ok t =>
    .ok { toTables := t, journal := newJournal name d, limits := ⟨0, 0, 0⟩, closed := false,
          closeErr := none }

/-- The stores that opening and any sequence of calls lead to; a restart opens
the directory a crash has left. -/
inductive Reachable (F : JournalFormat α) (X : Externals) : MessageStore α → Prop
  | opened {name d s} : newMessageStore F name d = .ok s → Reachable F X s
  | act {s} (a : Action) : Reachable F X s → Reachable F X (a.run F X s).2

/-! ### Reachable journals have nothing pending -/

/-- Latched, or with nothing pending. -/
def Journal.Sound (j : Journal α) : Prop := j.failed ≠ none ∨ j.Healthy

variable {F : JournalFormat α} {X : Externals} {s s' : MessageStore α} {j : Journal α}
  {j' : Journal α} {P : DirFile α → Prop} {f : CrashFile α} {err : String}

/-- Soundness is about the latch, the encoder and the data of the active file. -/
theorem Journal.Sound.congr (h : j.Sound) (hfailed : j'.failed = j.failed)
    (hencoder : j'.encoderErr = j.encoderErr) (hdata : j'.file.data = j.file.data) : j'.Sound := by
  rcases h with h | h
  · exact .inl (hfailed ▸ h)
  · exact .inr ⟨hfailed ▸ h.failed, hencoder ▸ h.encoder, hdata ▸ h.clean⟩

theorem Journal.Sound.writeLocked (h : j.Sound) (io : WriteIO) (uuid : String)
    (e : JournalEntry) : (writeLocked F io uuid j e).2.Sound := by
  rcases hf : j.failed with - | err
  · have hj : j.Healthy := h.resolve_left fun hne => hne hf
    rcases hw : EmailService.writeLocked F io uuid j e with ⟨r, j'⟩
    rcases writeLocked_spec hj hw with ⟨-, s, -, rfl⟩ | ⟨-, rfl⟩ | ⟨-, -, hlatch⟩
    · exact .inr ⟨hj.failed, hj.encoder, rfl, rfl⟩
    · exact h
    · exact .inl hlatch.failed
  · rw [writeLocked_of_failed hf]
    exact h

theorem Journal.Sound.sync (h : j.Sound) : (j.setData j.file.data.sync).Sound :=
  h.imp id fun hj => ⟨hj.failed, hj.encoder, CrashFile.clean_sync _⟩

theorem exec_sound (h : s.journal.Sound) (env : Env) (plan : Plan) :
    (s.exec F env plan).2.journal.Sound := by
  cases plan with
  | reject err => exact h
  | answer r => exact h
  | write e context publish r =>
    have hw : (s.journal.write F env.io env.recordUUID e).2.Sound := h.writeLocked _ _ _
    simp only [MessageStore.exec]
    rcases hr : s.journal.write F env.io env.recordUUID e with ⟨err | e', j'⟩ <;>
      rw [hr] at hw <;> exact hw
  | batch es context publish r =>
    have hw : (s.journal.writeBatch F env.io env.recordUUID es).2.Sound := h.writeLocked _ _ _
    simp only [MessageStore.exec]
    rcases hr : s.journal.writeBatch F env.io env.recordUUID es with ⟨err | e', j'⟩ <;>
      rw [hr] at hw <;> exact hw
  | sync =>
    rcases hs : env.io.sync with - | err <;> simp only [MessageStore.exec, hs]
    · exact h.sync
    · exact h
  | close =>
    rcases hs : env.io.sync with - | err
    · rcases hc : env.fileClose with - | err <;> simp only [MessageStore.exec, hs, hc] <;>
        exact h.sync
    · simp only [MessageStore.exec, hs]
      exact h
  | limit l => exact h

/-! ### Compaction keeps journals sound -/

/-- The journal is sound, and beside it stands a snapshot with the property
`P`. -/
def SnapshotBeside (P : DirFile α → Prop) (s : MessageStore α) : Prop :=
  s.journal.Sound ∧ ∃ others snap, s.journal.newer = others ++ [snap] ∧ P snap

theorem SnapshotBeside.onSnapshot {Q : DirFile α → Prop} {f : DirFile α → DirFile α}
    (hf : ∀ snap, P snap → Q (f snap)) (h : SnapshotBeside P s) :
    SnapshotBeside Q { s with journal := s.journal.onSnapshot f } := by
  obtain ⟨hsound, others, snap, hnewer, hsnap⟩ := h
  refine ⟨hsound.congr rfl rfl rfl, others, f snap, ?_, hf snap hsnap⟩
  simp only [Journal.onSnapshot, hnewer]
  exact List.modifyLast_concat f snap others

theorem SnapshotBeside.syncDir (hP : ∀ snap, P snap → snap.unlinked = false)
    (hlink : ∀ snap, P snap → P { snap with linked := true }) (h : SnapshotBeside P s) :
    SnapshotBeside P { s with journal := s.journal.syncDir } := by
  obtain ⟨hsound, others, snap, hnewer, hsnap⟩ := h
  refine ⟨hsound.congr rfl rfl rfl, DirFile.syncDir others, { snap with linked := true }, ?_,
    hlink snap hsnap⟩
  simp [Journal.syncDir, hnewer, DirFile.syncDir, hP snap hsnap]

/-- Switching to a durable snapshot. -/
theorem SnapshotBeside.install {old : List String}
    (h : SnapshotBeside (fun snap => snap.data.Clean) s) : (s.journal.install old).Sound := by
  obtain ⟨hsound, others, snap, hnewer, hclean⟩ := h
  simp only [Journal.install, hnewer, List.getLast?_concat]
  exact hsound.imp id fun hj => ⟨hj.failed, rfl, hclean⟩

variable (F) in
theorem writeTombstone_sound (io : WriteIO) (uuid : String) (v : JournalEntry) :
    Spec (fun s : MessageStore α => s.journal.Sound) (writeTombstone F io uuid v)
      (fun _ s => s.journal.Sound) (fun s => s.journal.Sound) fun _ => True := by
  intro s hs
  have hw := hs.writeLocked (F := F) io uuid v
  simp only [writeTombstone]
  rcases hr : writeLocked F io uuid s.journal v with ⟨err | e, j⟩ <;> rw [hr] at hw <;>
    exact ⟨fun _ _ => trivial, hw⟩

variable (cio : CompactIO) (retention : Duration)

theorem expireHeld_sound (order : List String) :
    Spec (fun s : MessageStore α => s.journal.Sound) (expireHeld F cio retention order)
      (fun _ s => s.journal.Sound) (fun s => s.journal.Sound) fun _ => True := by
  induction order with
  | nil => exact .ret fun _ hs => hs
  | cons id order ih =>
    refine .read_bind fun s hs => ?_
    have hrest := ih.weaken (fun t (ht : t = s) => ht ▸ hs) (fun _ _ h => h) (fun _ h => h)
      fun _ h => h
    rcases he : s.index id with - | e
    · exact hrest
    · by_cases ho : Overdue cio retention id e
      · simp only [if_pos ho]
        refine .bind ((writeTombstone_sound F _ _ _).weaken
          (fun t (ht : t = s) => ht ▸ hs) (fun _ _ h => h) (fun _ h => h) fun _ h => h)
          fun _ => ?_
        exact .bind ih fun _ => .ret fun _ h => h
      · simp only [if_neg ho]
        exact hrest

theorem encodeIndex_sound (cio : CompactIO) (order : List String) :
    Spec (SnapshotBeside (α := α) fun snap => snap.unlinked = false) (encodeIndex F cio order)
      (fun _ => SnapshotBeside fun snap => snap.unlinked = false)
      (fun s => s.journal.Sound) fun _ => True := by
  induction order with
  | nil => exact .ret fun _ hs => hs
  | cons id order ih =>
    refine .read_bind fun s hs => ?_
    rcases he : s.index id with - | e
    · exact ih.weaken (fun t (ht : t = s) => ht ▸ hs) (fun _ _ h => h) (fun _ h => h)
        fun _ h => h
    · rcases hframe : F.encode e with err | frame
      · simp only [hframe]
        exact .fail fun t ht => ht ▸ hs.1
      · rcases hcut : cio.encode id with - | ⟨n, err⟩
        · simp only [hframe]
          refine .bind (Q := fun _ => SnapshotBeside fun snap => snap.unlinked = false)
            (.step (fun t ht => ?_) fun _ _ => trivial) fun _ => ih
          exact .onSnapshot (fun _ h => h) (ht ▸ hs)
        · simp only [hframe]
          refine .bind (Q := fun _ t => t.journal.Sound)
            (.step (fun t ht => ?_) fun _ _ => trivial) fun _ => .fail fun _ h => h
          subst ht
          exact hs.1.congr rfl rfl rfl

theorem writeSnapshot_sound (cio : CompactIO) (old : List String) :
    Spec (SnapshotBeside (α := α) fun snap => snap.unlinked = false)
      (writeSnapshot F cio old) (fun _ s => s.journal.Sound) (fun s => s.journal.Sound)
      fun _ => True := by
  -- once synced, the snapshot stays durable up to the switch
  let Durable : DirFile α → Prop := fun snap => snap.unlinked = false ∧ snap.data.Clean
  refine .bind (encodeIndex_sound cio _) fun _ => ?_
  refine .bind (.check fun _ h => h.1) fun _ => ?_
  refine .bind (Q := fun _ => SnapshotBeside Durable) (.step (fun t ht => ?_)
    fun _ _ => trivial) fun _ => ?_
  · exact ht.onSnapshot fun snap hsnap => ⟨hsnap, CrashFile.clean_sync _⟩
  refine .bind (.check fun _ h => h.1) fun _ => ?_
  refine .bind (Q := fun _ => SnapshotBeside Durable) (.step (fun t ht => ?_)
    fun _ _ => trivial) fun _ => ?_
  · exact ht.syncDir (fun _ h => h.1) fun _ h => h
  refine .bind (.check fun _ h => h.1) fun _ => .bind (.check fun _ h => h.1)
    fun _ => .bind (.check fun _ h => h.1) fun _ =>
      .bind (.check fun _ h => h.1) fun _ => .step (fun t ht => ?_) fun _ _ => trivial
  obtain ⟨hsound, others, snap, hnewer, hsnap⟩ := ht
  exact SnapshotBeside.install ⟨hsound, others, snap, hnewer, hsnap.2⟩

theorem removeCovered_sound (names : List String) :
    Spec (fun s : MessageStore α => s.journal.Sound) (removeCovered cio names)
      (fun _ s => s.journal.Sound) (fun s => s.journal.Sound) fun _ => True := by
  induction names with
  | nil => exact .ret fun _ hs => hs
  | cons name names ih =>
    have hremove : ∀ t : MessageStore α, t.journal.Sound → (t.journal.removeOlder name).Sound :=
      fun t ht => ht.congr rfl rfl rfl
    refine .bind (.check fun _ h => h) fun _ => ?_
    exact .bind (Q := fun _ s => s.journal.Sound) (.step hremove fun _ _ => trivial)
      fun _ => ih

theorem expireOverdue_sound :
    Spec (fun s : MessageStore α => s.journal.Sound) (expireOverdue F cio retention)
      (fun _ s => s.journal.Sound) (fun s => s.journal.Sound) fun _ => True := by
  unfold expireOverdue
  split_ifs
  · refine .bind (expireHeld_sound cio retention _) fun expired => ?_
    refine .bind (.check fun _ h => h) fun _ => ?_
    exact .bind (Q := fun _ s => s.journal.Sound)
      (.step (fun t ht => ht.sync) fun _ _ => trivial) fun _ => .ret fun _ h => h
  · exact .ret fun _ h => h

theorem compact_sound :
    Spec (fun s : MessageStore α => s.journal.Sound) (compact F cio retention)
      (fun _ s => s.journal.Sound) (fun s => s.journal.Sound) fun _ => True := by
  refine .read_bind fun s hs => ?_
  refine (?_ : Spec (fun t : MessageStore α => t.journal.Sound) _ _ _ _).weaken
    (fun t ht => ht ▸ hs) (fun _ _ h => h) (fun _ h => h) fun _ h => h
  refine .bind (.check fun _ h => h) fun _ => .bind (.check fun _ h => h)
    fun _ => .bind (expireOverdue_sound cio retention) fun ids => ?_
  refine .bind (Q := fun _ t => t.journal.Sound)
    (.step (fun t ht => ht) fun _ _ => trivial) fun _ => ?_
  refine .bind (.check fun _ h => h) fun _ => .read_bind fun s₁ hs₁ => ?_
  refine (?_ : Spec (fun t : MessageStore α => t.journal.Sound) _ _ _ _).weaken
    (fun t ht => ht ▸ hs₁) (fun _ _ h => h) (fun _ h => h) fun _ h => h
  refine .bind (.check fun _ h => h) fun _ => .bind (.check fun _ h => h)
    fun _ => ?_
  refine .bind (Q := fun _ => SnapshotBeside fun snap => snap.unlinked = false)
    (.step (fun t ht => ⟨ht.congr rfl rfl rfl, _, _, rfl, rfl⟩) fun _ _ => trivial)
    fun _ => ?_
  have hremove : ∀ t : MessageStore α, t.journal.Sound →
      (if cio.removeSnapshot then { t with journal := t.journal.onSnapshot .remove }
        else t).journal.Sound := by
    intro t ht
    split_ifs
    · exact ht.congr rfl rfl rfl
    · exact ht
  refine .bind (.onError (writeSnapshot_sound cio _) hremove fun _ _ => trivial)
    fun _ => ?_
  have hsync : ∀ t : MessageStore α, t.journal.Sound → t.journal.syncDir.Sound :=
    fun t ht => ht.congr rfl rfl rfl
  refine .bind (.check fun _ h => h) fun _ => ?_
  refine .bind (Q := fun _ t => t.journal.Sound) (.step hsync fun _ _ => trivial)
    fun _ => .bind (removeCovered_sound cio _) fun _ => ?_
  exact .bind (.check fun _ h => h) fun _ => .bind (.check fun _ h => h)
    fun _ => .step hsync fun _ _ => trivial

theorem Action.run_sound (a : Action) (h : s.journal.Sound) : (a.run F X s).2.journal.Sound := by
  cases a with
  | call env op => exact exec_sound h env _
  | compact cio retention =>
    have hend := (compact_sound (F := F) cio retention s h).2
    simp only [Action.run]
    rcases hc : EmailService.compact F cio retention s with ⟨l, err | u, s₁⟩ <;>
      rw [hc] at hend <;> exact hend

/-- **In every reachable store the journal is latched or has nothing pending.** -/
theorem Reachable.sound (h : Reachable F X s) : s.journal.Sound := by
  induction h with
  | @opened name d s hopen =>
    unfold newMessageStore at hopen
    split at hopen
    · cases hopen
    · cases hopen
      exact .inr ⟨rfl, rfl, rfl, rfl⟩
  | act a _ ih => exact a.run_sound ih

/-! ### Failing calls change nothing -/

/-- `s'` shows the same tables and the same directory as `s`, and a crash can
make no more of it. -/
structure Unchanged (s s' : MessageStore α) : Prop where
  tables : s'.toTables = s.toTables
  directory : s'.journal.directory = s.journal.directory
  crash : ∀ d, s'.journal.Crash d → s.journal.Crash d

theorem Unchanged.of_journal_eq (htables : s'.toTables = s.toTables)
    (hjournal : s'.journal = s.journal) : Unchanged s s' :=
  ⟨htables, by rw [hjournal], fun d hd => hjournal ▸ hd⟩

theorem Journal.directory_setData (h : f.content = j.file.data.content) :
    (j.setData f).directory = j.directory := by
  have hview : DirFile.visible [{ j.file with data := f }] = DirFile.visible [j.file] := by
    cases hu : j.file.unlinked <;> simp [DirFile.visible, DirFile.view, hu, h]
  have hsplit : ∀ g : DirFile α, DirFile.visible (j.older ++ g :: j.newer) =
      DirFile.visible j.older ++ (DirFile.visible [g] ++ DirFile.visible j.newer) := by
    intro g
    rw [DirFile.visible_append, ← DirFile.visible_append [g]]
    rfl
  have hfiles : DirFile.visible (j.setData f).files = DirFile.visible j.files := by
    change DirFile.visible (j.older ++ { j.file with data := f } :: j.newer) =
      DirFile.visible (j.older ++ j.file :: j.newer)
    rw [hsplit, hsplit, hview]
  unfold Journal.directory
  rw [hfiles]
  rfl

/-- If the active file can show less, so can the directory. -/
theorem Journal.crash_setData {d : Directory α} (h : ∀ out, f.Image out → j.file.data.Image out)
    (hd : (j.setData f).Crash d) : j.Crash d := by
  obtain ⟨hfiles, hcov⟩ := hd
  refine ⟨?_, hcov⟩
  obtain ⟨ds, ds', heq, hds, hds'⟩ := DirFile.Survivors.append_inv hfiles
  rw [heq]
  refine .append hds ?_
  cases hds' with
  | keep himg hrest => exact .keep (f := j.file) (h _ himg) hrest
  | lose hlost hrest => exact .lose (f := j.file) hlost hrest

theorem Journal.sync_image : ∀ out, f.sync.Image out → f.Image out := by
  intro out hout
  rw [(CrashFile.clean_sync f).image_iff, CrashFile.content_sync] at hout
  exact hout ▸ f.image_content

/-- A failed append whose rollback works leaves the journal as it was. -/
theorem writeLocked_error_eq (h : j.Sound) {io : WriteIO} (hio : io.RollsBack) {uuid : String}
    {e : JournalEntry} (hw : writeLocked F io uuid j e = (.error err, j')) : j' = j := by
  rcases hf : j.failed with - | err'
  · have hj : j.Healthy := h.resolve_left fun hne => hne hf
    rcases writeLocked_spec hj hw with ⟨hok, -⟩ | ⟨-, heq⟩ | ⟨-, hnot, -⟩
    · cases hok
    · exact heq
    · exact absurd hio hnot
  · rw [writeLocked_of_failed hf] at hw
    cases hw
    rfl

theorem exec_error_unchanged {env : Env} {plan : Plan} (h : s.journal.Sound)
    (hio : env.io.RollsBack) (hexec : s.exec F env plan = (.error err, s')) : Unchanged s s' := by
  cases plan with
  | reject err' => cases hexec; exact .of_journal_eq rfl rfl
  | answer r => cases hexec
  | write e context publish r =>
    rcases hw : s.journal.write F env.io env.recordUUID e with ⟨err' | e', j'⟩ <;>
      simp only [MessageStore.exec, hw] at hexec <;> cases hexec
    exact .of_journal_eq rfl (writeLocked_error_eq h hio hw)
  | batch es context publish r =>
    rcases hw : s.journal.writeBatch F env.io env.recordUUID es with ⟨err' | e', j'⟩ <;>
      simp only [MessageStore.exec, hw] at hexec <;> cases hexec
    exact .of_journal_eq rfl (writeLocked_error_eq h hio hw)
  | sync =>
    rcases hs : env.io.sync with - | err' <;> simp only [MessageStore.exec, hs] at hexec <;>
      cases hexec
    exact .of_journal_eq rfl rfl
  | close =>
    rcases hs : env.io.sync with - | err'
    · -- the file is synced, and closing it is what failed
      rcases hc : env.fileClose with - | err' <;>
        simp only [MessageStore.exec, hs, hc] at hexec <;> cases hexec
      exact ⟨rfl, Journal.directory_setData (CrashFile.content_sync _),
        fun d hd => Journal.crash_setData Journal.sync_image hd⟩
    · simp only [MessageStore.exec, hs] at hexec
      cases hexec
      exact .of_journal_eq rfl rfl
  | limit l => cases hexec

/-- **Store operations are all or nothing on error**: in every reachable store,
a call that fails while its rollback works leaves the index, the dead letter
queue and what recovery would rebuild, now or after a crash, as they were. -/
theorem call_error_unchanged {env : Env} {op : Op} {err : String} (h : Reachable F X s)
    (hio : env.io.RollsBack) (hcall : s.call F X env op = (.error err, s')) :
    s'.index = s.index ∧ s'.dlq = s.dlq ∧
      recover F s'.journal.directory = recover F s.journal.directory ∧
      ∀ d, s'.journal.Crash d → s.journal.Crash d := by
  obtain ⟨htables, hdir, hcrash⟩ := exec_error_unchanged h.sound hio hcall
  exact ⟨congrArg Tables.index htables, congrArg Tables.dlq htables, by rw [hdir], hcrash⟩

/-- A call whose record reaches the file and cannot be synced. -/
def unsyncedEnv : Env := { calmEnv [] with io := { sync := some "input/output error" } }

/-- The store opened on an empty directory. -/
def openedStore : MessageStore JournalEntry where
  toTables := Tables.empty
  journal := newJournal "journal-1.log" ⟨[], []⟩
  limits := ⟨0, 0, 0⟩
  closed := false
  closeErr := none

/-- Acceptance of a message together with its receipt, the two in one batch. -/
def acceptance : Op :=
  .storeWithReceipt firstMessage [some { firstMessage with messageID := "r1" }]

/-- The acceptance fails, and neither record is there afterwards. -/
theorem call_error_unchanged_receipt :
    ∃ s' err, openedStore.call recordFormat bareExternals unsyncedEnv acceptance =
        (.error err, s') ∧
      s'.index = openedStore.index ∧ s'.dlq = openedStore.dlq ∧
      recover recordFormat s'.journal.directory =
        recover recordFormat openedStore.journal.directory ∧
      ∀ d, s'.journal.Crash d → openedStore.journal.Crash d := by
  have hopened : newMessageStore recordFormat "journal-1.log" ⟨[], []⟩ = .ok openedStore := rfl
  have hcall : openedStore.call recordFormat bareExternals unsyncedEnv acceptance =
      (.error "failed to journal message: journal write rolled back: input/output error",
        openedStore) := rfl
  exact ⟨_, _, hcall, call_error_unchanged (.opened hopened) ⟨rfl, rfl, rfl⟩ hcall⟩

end EmailService
