/-
EmailService/CrashSafety.lean

Crash safety of compaction over whole runs.

A store is opened on any directory and used by calls and compactions, failing
ones included.  As long as each of them finds a journal that has not latched
and no uncommitted snapshot beside it (`Journal.Undisturbed`), the journal
rebuilds the index but for the keys that an interrupted compaction has buried
already (`Operated.mirrors`).  These were overdue then, and are untouched
since.  So a crash at any point of the next compaction loses overdue entries
only (`compaction_crash_safe`), and once the checkpoint is in place recovery
yields what the snapshot holds.

Both provisos are needed: `compaction_not_crash_safe` is a run in which an
uncommitted snapshot, removed but not durably so, brings a delivered message
back.
-/
import EmailService.DeadLetter

namespace EmailService

open KeyedLog Framing Traced List

variable {α : Type} {F : JournalFormat α} {X : Externals} {s s' : MessageStore α}

/-! ### Opening a directory -/

theorem requeue_requeue (e : JournalEntry) : requeue (requeue e) = requeue e := by
  unfold requeue
  split_ifs <;> simp_all

/-- An entry that recovery has put into the index comes from a record. -/
theorem recoverAll_index_inv {es : List JournalEntry} {id : String} {e : JournalEntry}
    (h : (recoverAll es).index id = some e) :
    id ≠ "" ∧ ∃ r ∈ es, ¬ Terminal r.status ∧ e = requeue r := by
  have hid : id ≠ "" := by
    rintro rfl
    rw [(recoverAll_empty_id es).1] at h
    cases h
  rw [recoverAll_index es hid, Option.bind_eq_some_iff] at h
  obtain ⟨r, hr, hc⟩ := h
  have hmem : r ∈ es := mem_reverse.mp (mem_of_find?_eq_some hr)
  by_cases hterm : Terminal r.status
  · rw [change_of_terminal hterm] at hc
    cases hc
  · rw [change_of_live hterm] at hc
    exact ⟨hid, r, hmem, hterm, (Option.some.inj hc).symm⟩

theorem requeued_recoverAll (es : List JournalEntry) :
    requeued (recoverAll es).index = (recoverAll es).index := by
  funext id
  rcases h : (recoverAll es).index id with - | e
  · simp [h]
  · obtain ⟨-, r, -, -, rfl⟩ := recoverAll_index_inv h
    simp [h, requeue_requeue]

/-- Recovery puts back only entries that recovery would put back. -/
theorem live_recoverAll {es : List JournalEntry} (h : ∀ e ∈ es, e.status ≠ "transaction") :
    Live (recoverAll es).index := by
  intro id e he
  obtain ⟨hid, r, hr, hterm, rfl⟩ := recoverAll_index_inv he
  have hkeep : Keeps (requeue r).status := by
    unfold requeue
    split_ifs
    · exact ⟨by simp [Terminal], by simp⟩
    · exact ⟨hterm, h r hr⟩
  exact ⟨recoverAll_keyed he, hid, hkeep.1, hkeep.2⟩

variable {d : Directory α}

theorem newJournal_of_fresh {name : String}
    (hfiles : ∀ f ∈ d.files, f.1 < name) :
    newJournal name d =
      { failed := none
        encoderErr := none
        older := d.files.map foundFile
        file := foundFile (name, [])
        newer := []
        checkpoint := ⟨d.covered, d.covered⟩ } := by
  have hfilter : d.files.filter (fun f => f.1 ≠ name) = d.files := by
    apply filter_eq_self.mpr
    intro f hf
    simpa using (hfiles f hf).ne
  have hfind : d.files.find? (fun f => f.1 = name) = none := by
    apply find?_eq_none.mpr
    intro f hf
    simpa using (hfiles f hf).ne
  unfold newJournal
  rw [hfilter, hfind]
  rfl

theorem visible_foundFile (fs : List (String × List α)) :
    DirFile.visible (fs.map foundFile) = fs := by
  induction fs with
  | nil => rfl
  | cons f fs ih =>
    rw [map_cons, DirFile.visible_cons_of_present rfl, ih]
    simp [DirFile.view, foundFile, CrashFile.content]

/-- **A store just opened** has a journal that rebuilds its index. -/
theorem newMessageStore_mirrors {name : String}
    (hopen : newMessageStore F name d = .ok s) (hfiles : ∀ f ∈ d.files, f.1 < name)
    (hcovered : ∀ n ∈ d.covered, n < name) : Mirrors F [] s := by
  obtain ⟨es, hes, htables⟩ := newMessageStore_tables hopen
  have hindex : s.index = (recoverAll es).index := congrArg Tables.index htables
  have hjournal : s.journal = newJournal name d := newMessageStore_journal hopen
  have hlive : Live s.index := hindex ▸ live_recoverAll (replayFiles_status hes)
  -- the new file is empty and the youngest, so the others alone give the log
  have hold : replayFiles F d.covered (glob d.files) = .ok es := by
    rw [newJournal_of_fresh hfiles] at hes
    have hvisible : DirFile.visible (d.files.map foundFile ++ [foundFile (name, [])]) =
        d.files ++ [(name, [])] := by
      rw [DirFile.visible_append, visible_foundFile]
      rfl
    have hreplay : replayFiles F d.covered (glob (d.files ++ [(name, [])])) = .ok es := by
      rw [← hvisible]
      exact hes
    have hlast : replayFiles F d.covered [(name, [])] = .ok [] :=
      replayFiles_singleton (fun hmem => lt_irrefl name (hcovered name hmem)) F.decode_nil
    rw [glob_concat (fun x hx => (hfiles x hx).le), replayFiles_append_eq, hlast] at hreplay
    rcases hr : replayFiles F d.covered (glob d.files) with err | es'
    · rw [hr] at hreplay
      cases hreplay
    · rw [hr] at hreplay
      have heq : es' ++ [] = es := Except.ok.inj hreplay
      rw [← heq, append_nil]
  refine ⟨?_, hlive⟩
  rw [hjournal, newJournal_of_fresh hfiles]
  refine ⟨⟨rfl, rfl, rfl, rfl⟩, rfl, rfl, rfl, ?_, ?_, [], [], .nil, rfl, ?_⟩
  · intro f hf
    obtain ⟨g, hg, rfl⟩ := mem_map.mp hf
    exact hfiles g hg
  · intro c hc n hn
    rcases Checkpoint.mem_shown.mp hc with rfl | rfl <;> exact hcovered n hn
  · intro c hc ds hds
    have hc' : c = d.covered := (Checkpoint.mem_shown.mp hc).elim (fun h => h) fun h => h
    have hsettled : ∀ f ∈ d.files.map foundFile, DirFile.Settled f := by
      intro f hf
      obtain ⟨g, -, rfl⟩ := mem_map.mp hf
      exact ⟨rfl, rfl, rfl, rfl⟩
    have hds' : ds = d.files := by
      rw [DirFile.survivors_of_settled hsettled hds, visible_foundFile]
    refine ⟨es, by rw [hc', hds', hold], ?_⟩
    show _ = requeued s.index
    rw [append_nil, hindex, requeued_recoverAll]

/-! ### Runs with interrupted compactions -/

/-- The journal has not latched, and no uncommitted snapshot is beside it. -/
def Journal.Undisturbed (j : Journal α) : Prop := j.failed = none ∧ j.newer = []

/-- `Operated F X past s`: opening a directory, admissible calls and the
compactions `past`, any of which may have failed, lead to `s`, and each of them
found the journal undisturbed. -/
inductive Operated (F : JournalFormat α) (X : Externals) :
    List ( CompactIO × Duration) → MessageStore α → Prop
  | opened {name d s} : newMessageStore F name d = .ok s → (∀ f ∈ d.files, f.1 < name) →
      (∀ n ∈ d.covered, n < name) → Operated F X [] s
  | call {past s} (env : Env) (op : Op) : Operated F X past s → s.journal.Undisturbed →
      op.Admissible X env s → Operated F X past (s.call F X env op).2
  | compact {past s} (cio : CompactIO) (retention : Duration) : Operated F X past s →
      s.journal.Undisturbed → (Action.compact cio retention).Legal s →
      Operated F X ((cio, retention) :: past) (compact F cio retention s).2.2

/-- What the index holds under the keys `ids` was overdue in one of the
compactions `past`. -/
def OverdueIn (past : List ( CompactIO × Duration)) (index : String → Option JournalEntry)
    (ids : List String) : Prop :=
  ∀ id ∈ ids, ∀ e, index id = some e → ∃ c ∈ past, Overdue c.1 c.2 id e

variable {past : List ( CompactIO × Duration)} {gone : List String}

/-- A failed call leaves a healthy journal alone, or latches it. -/
theorem exec_error_mirrors {env : Env} {plan : Plan} {err : String} (h : Mirrors F gone s)
    (hexec : s.exec F env plan = (.error err, s')) (hfailed : s'.journal.failed = none) :
    Mirrors F gone s' ∧ s'.index = s.index := by
  have hhealthy := h.rebuilds.healthy
  cases plan with
  | reject err' => cases hexec; exact ⟨h, rfl⟩
  | answer r => cases hexec
  | write e context publish r =>
    rcases hw : s.journal.write F env.io env.recordUUID e with ⟨err' | e', j⟩ <;>
      simp only [MessageStore.exec, hw] at hexec <;> cases hexec
    rcases writeLocked_spec hhealthy hw with ⟨hok, -⟩ | ⟨-, rfl⟩ | ⟨-, -, hlatch⟩
    · cases hok
    · exact ⟨h, rfl⟩
    · exact absurd hfailed hlatch.failed
  | batch es context publish r =>
    rcases hw : s.journal.writeBatch F env.io env.recordUUID es with ⟨err' | e', j⟩ <;>
      simp only [MessageStore.exec, hw] at hexec <;> cases hexec
    rcases writeLocked_spec hhealthy hw with ⟨hok, -⟩ | ⟨-, rfl⟩ | ⟨-, -, hlatch⟩
    · cases hok
    · exact ⟨h, rfl⟩
    · exact absurd hfailed hlatch.failed
  | sync =>
    rcases hs : env.io.sync with - | err' <;> simp only [MessageStore.exec, hs] at hexec <;>
      cases hexec
    exact ⟨h, rfl⟩
  | close =>
    rcases hs : env.io.sync with - | err'
    · rcases hc : env.fileClose with - | err' <;>
        simp only [MessageStore.exec, hs, hc] at hexec <;> cases hexec
      exact ⟨h.of_eq h.rebuilds.sync_eq rfl, rfl⟩
    · simp only [MessageStore.exec, hs] at hexec
      cases hexec
      exact ⟨h.of_eq rfl rfl, rfl⟩
  | limit l => cases hexec

theorem OverdueIn.mono {index index' : String → Option JournalEntry} {ids ids' : List String}
    (h : OverdueIn past index ids) (hids : ids' ⊆ ids)
    (hindex : ∀ id ∈ ids', index' id = index id) : OverdueIn past index' ids' := by
  intro id hid e he
  rw [hindex id hid] at he
  exact h id (hids hid) e he

variable {cio : CompactIO} {retention : Duration}

/-- The situation in which the next compaction starts. -/
theorem Mirrors.compacting (hm : Mirrors F gone s)
    (hlegal : (Action.compact cio retention).Legal s) : Compacting F cio gone s :=
  ⟨hm, hlegal.2.2, fun id hid => (hlegal.2.1.2 id).mpr hid⟩

/-- What a compaction leaves, whether it fails or not. -/
theorem compact_stopped (hm : Mirrors F gone s)
    (hlegal : (Action.compact cio retention).Legal s) :
    Stopped F cio retention gone s (compact F cio retention s).2.2 := by
  have hend := (compact_spec retention (hm.compacting hlegal) s rfl).2
  rcases hr : (compact F cio retention s).2.1 with err | u
  · rw [hr] at hend
    exact hend
  · rw [hr] at hend
    exact Installed.stopped hend

/-- **The invariant of a run**: the journal rebuilds the index, but for keys
that were overdue when an interrupted compaction buried them. -/
theorem Operated.mirrors (h : Operated F X past s) (hu : s.journal.Undisturbed) :
    ∃ gone, Mirrors F gone s ∧ OverdueIn past s.index gone := by
  induction h with
  | opened hopen hfiles hcovered =>
    exact ⟨[], newMessageStore_mirrors hopen hfiles hcovered, fun _ hid => nomatch hid⟩
  | @call past s env op _ hu₀ hadm ih =>
    obtain ⟨gone, hm, hgone⟩ := ih hu₀
    rcases hr : s.call F X env op with ⟨err | r, s₁⟩
    · rw [hr] at hu
      obtain ⟨hm', hindex⟩ := exec_error_mirrors hm hr hu.1
      exact ⟨gone, hm', hgone.mono (.refl _) fun id _ => congrFun hindex id⟩
    · obtain ⟨gone', hsub, hindex, hm'⟩ := exec_mirrors hm (Op.plan_faithful hm.live hadm) hr
      exact ⟨gone', hm', hgone.mono hsub hindex⟩
  | @compact past s cio retention _ hu₀ hlegal ih =>
    obtain ⟨gone, hm, hgone⟩ := ih hu₀
    obtain ⟨ids, -, hindex, gone', hgone', hm'⟩ :=
      (compact_stopped hm hlegal).resume hu.1 hu.2
    refine ⟨gone', hm', ?_⟩
    intro id hid e he
    -- what is still in the index was there before
    rw [hindex, dropAll_apply] at he
    split_ifs at he
    rcases hgone' id hid with hold | hnew
    · obtain ⟨c, hc, ho⟩ := hgone id hold e he
      exact ⟨c, mem_cons_of_mem _ hc, ho⟩
    · obtain ⟨e', he', ho⟩ := hnew id mem_cons_self
      have heq : e' = e := Option.some.inj (he'.symm.trans he)
      exact ⟨(cio, retention), mem_cons_self, heq ▸ ho⟩

/-! ### Crash safety -/

/-- **Compaction is crash safe**: at every point of a compaction, whatever a
crash leaves recovers to the index the compaction started from, requeued, but
for entries that were overdue in it or in an interrupted one before; and once
the snapshot is the active file, to the index the snapshot holds. -/
theorem compaction_crash_safe {cio : CompactIO} {retention : Duration}
    (h : Operated F X past s) (hu : s.journal.Undisturbed)
    (hlegal : (Action.compact cio retention).Legal s) {t : MessageStore α}
    (ht : t = s ∨ t ∈ (compact F cio retention s).1 ∨ t = (compact F cio retention s).2.2)
    {d : Directory α} (hd : t.journal.Crash d) :
    ∃ r, recover F d = .ok r ∧
      (∃ ids, OverdueIn ((cio, retention) :: past) s.index ids ∧
        r.index = dropAll (requeued s.index) ids) ∧
      (t.journal.file.name = cio.name → r.index = requeued t.index) := by
  obtain ⟨gone, hm, hgone⟩ := h.mirrors hu
  have hsafe : CrashSafe F cio retention gone s t := by
    rcases ht with rfl | ht | rfl
    · have hreb := hm.rebuilds
      rw [← append_nil gone] at hreb
      exact .of_rebuilds (.nil _) (.refl _) hreb
        fun hname => absurd hname hlegal.2.2.ne
    · exact (compact_spec retention (hm.compacting hlegal) s rfl).1 t ht
    · exact (compact_stopped hm hlegal).safe
  obtain ⟨r, hr, kept, hkept, ids, hids, hindex⟩ := hsafe.recovers d hd
  refine ⟨r, hr, ⟨kept ++ ids, ?_, hindex⟩, ?_⟩
  · intro id hid e he
    rcases mem_append.mp hid with hid | hid
    · obtain ⟨c, hc, ho⟩ := hgone id (hkept hid) e he
      exact ⟨c, mem_cons_of_mem _ hc, ho⟩
    · obtain ⟨e', he', ho⟩ := hids id hid
      have heq : e' = e := Option.some.inj (he'.symm.trans he)
      exact ⟨(cio, retention), mem_cons_self, heq ▸ ho⟩
  · intro hname
    obtain ⟨r', hr', hindex'⟩ := (hsafe.committed hname).recover_crash hd
    rw [hr] at hr'
    cases hr'
    exact hindex'

/-! ### Three runs -/

/-- A message an operator has to release. -/
def heldMessage : JournalEntry := { firstMessage with status := "held" }

/-- The store after accepting it. -/
def heldStore : MessageStore JournalEntry :=
  storeAfter [.call (calmEnv []) (.storeWithReceipt heldMessage [none])]

/-- A compaction two time units later, with room for retention. -/
def expiry : CompactIO := calmCompact ["m1"] "journal-2.log"

/-- The held message expires, and no file brings it back. -/
theorem compaction_crash_safe_expired :
    ((heldStore.index "m1").map JournalEntry.status = some "held") ∧
      ∃ r, recover recordFormat (compact recordFormat expiry 1 heldStore).2.2.journal.directory =
          .ok r ∧ r.index "m1" = none ∧
        (∃ ids, OverdueIn [(expiry, 1)] heldStore.index ids ∧
          r.index = dropAll (requeued heldStore.index) ids) := by
  have horder : Traverses ["m1"] heldStore.index := traverses_update_none rfl
  have hadm : (Op.storeWithReceipt heldMessage [none]).Admissible bareExternals (calmEnv [])
      openedStore :=
    ⟨⟨by decide, by decide⟩, fun receipt hr => by simp at hr⟩
  have hrun : Operated recordFormat bareExternals [] heldStore :=
    .call (calmEnv []) _ (.opened openedStore_eq (fun _ hf => nomatch hf) fun _ hn => nomatch hn)
      ⟨rfl, rfl⟩ hadm
  have hlegal : (Action.compact expiry 1).Legal heldStore := ⟨horder, horder, by decide⟩
  obtain ⟨r, hr, hids, hcommitted⟩ := compaction_crash_safe hrun ⟨rfl, rfl⟩ hlegal
    (.inr (.inr rfl)) (Journal.crash_directory _)
  refine ⟨rfl, r, hr, ?_, hids⟩
  rw [hcommitted rfl]
  rfl

/-- The store after accepting and queueing a message. -/
def queuedStoreOpened : MessageStore JournalEntry :=
  storeAfter [accept, .call (calmEnv ["m1"]) (.transition "m1" "pending" "queued")]

/-- A compaction that runs out of space for its checkpoint. -/
def outOfSpace : CompactIO :=
  { calmCompact ["m1"] "journal-2.log" with createTemp := some "no space left on device" }

/-- The store after such a compaction and the delivery of the message. -/
def deliveredStore : MessageStore JournalEntry :=
  storeAfter [accept, .compact outOfSpace 0,
    .call (calmEnv ["m1"]) (.updateStatus "m1" "delivered" "")]

/-- **The two ways in which recovery differs** from the index a compaction
starts from: a queued message is pending again; and a snapshot that an earlier
compaction has given up, and removed without syncing the directory, brings a
delivered message back. -/
theorem compaction_not_crash_safe :
    (∃ r, Reachable recordFormat bareExternals queuedStoreOpened ∧
      recover recordFormat queuedStoreOpened.journal.directory = .ok r ∧
      (queuedStoreOpened.index "m1").map JournalEntry.status = some "queued" ∧
      (r.index "m1").map JournalEntry.status = some "pending") ∧
    ∃ d r, Reachable recordFormat bareExternals deliveredStore ∧
      deliveredStore.journal.Crash d ∧ recover recordFormat d = .ok r ∧
      deliveredStore.index "m1" = none ∧
      (r.index "m1").map JournalEntry.status = some "pending" := by
  have hopened : Reachable recordFormat bareExternals openedStore := .opened openedStore_eq
  have hcrash : deliveredStore.journal.Crash
      ⟨deliveredStore.journal.files.map DirFile.view, []⟩ :=
    ⟨DirFile.survivors_map_view _, .inl rfl⟩
  exact ⟨⟨_, .act _ (.act _ hopened), rfl, rfl, rfl⟩,
    _, _, .act _ (.act _ (.act _ hopened)), hcrash, rfl, rfl, rfl⟩

end EmailService
