/-
EmailService/CompactSpec.lean

Compaction against crashes and failing system calls.

The specification of `compact` follows its three phases.  While tombstones are
written, the journal rebuilds the index without the entries expired so far.
While the snapshot is written, the old files still rebuild the index, and a
piece of the snapshot behind them restates part of it.  Once the checkpoint is
renamed, both the old files followed by the snapshot and the snapshot alone
rebuild the index, whichever checkpoint a crash shows.

`gone` are keys that an earlier, interrupted compaction has already buried in
the journal while they are still in the live index.
-/
import EmailService.Compact
import EmailService.Refinement

namespace EmailService

open KeyedLog Framing Traced List

variable {α : Type} {F : JournalFormat α} {e : JournalEntry}

theorem Piece.mono {p q : List α} (h : Piece F e p) (hq : q <+: p) : Piece F e q := by
  rcases h with rfl | ⟨s, hs, hps⟩
  · exact .inl (prefix_nil.mp hq)
  · exact .inr ⟨s, hs, hq.trans hps⟩

/-- What a crash finds in the file of a latched journal. -/
theorem Journal.Latched.image {j j' : Journal α} (h : j.Latched F j' e) :
    ∃ f, (∀ d, j'.Crash d → (j.setData f).Crash d) ∧
      ∀ out, f.Image out → ∃ p, out = j.file.data.synced ++ p ∧ Piece F e p := by
  obtain ⟨f, hj', hsynced, htail, hresidue⟩ := h.eq
  refine ⟨f, fun d hd => by rw [hj'] at hd; exact hd, ?_⟩
  rintro out ⟨p, hp, rfl⟩
  exact ⟨p, by rw [hsynced], hp.elim htail.mono hresidue.mono⟩

/-! ### The situation a compaction starts from -/

/-- A store about to be compacted: its journal rebuilds the index but for
`gone`, the snapshot gets a younger name, and the loops visit every key. -/
structure Compacting (F : JournalFormat α) (cio : CompactIO) (gone : List String)
    (s₀ : MessageStore α) : Prop where
  mirrors : Mirrors F gone s₀
  younger : s₀.journal.file.name < cio.name
  visits : ∀ id, s₀.index id ≠ none → id ∈ cio.snapshotOrder

/-- `ids` are held entries of the index past their retention. -/
def AllOverdue (cio : CompactIO) (retention : Duration) (index : String → Option JournalEntry)
    (ids : List String) : Prop :=
  ∀ id ∈ ids, ∃ e, index id = some e ∧ Overdue cio retention id e

/-- Whatever a crash leaves, recovery yields the index of `s₀` without some of
`gone` and some overdue entries.  Once the snapshot is the active file, it
yields the index that the snapshot holds. -/
structure CrashSafe (F : JournalFormat α) (cio : CompactIO) (retention : Duration)
    (gone : List String) (s₀ s : MessageStore α) : Prop where
  recovers : ∀ d, s.journal.Crash d → ∃ t, recover F d = .ok t ∧
    ∃ kept ⊆ gone, ∃ ids, AllOverdue cio retention s₀.index ids ∧
      t.index = dropAll (requeued s₀.index) (kept ++ ids)
  committed : s.journal.file.name = cio.name → Rebuilds F s.journal (requeued s.index)

/-- What a failing compaction leaves: a crash-safe store, and one that can go
on unless the journal has latched or an uncommitted snapshot is around. -/
structure Stopped (F : JournalFormat α) (cio : CompactIO) (retention : Duration)
    (gone : List String) (s₀ s : MessageStore α) : Prop where
  safe : CrashSafe F cio retention gone s₀ s
  resume : s.journal.failed = none → s.journal.newer = [] →
    ∃ ids, AllOverdue cio retention s₀.index ids ∧ s.index = dropAll s₀.index ids ∧
      ∃ gone', (∀ id ∈ gone', id ∈ gone ∨ AllOverdue cio retention s₀.index [id]) ∧
        Mirrors F gone' s

section Phases

variable {cio : CompactIO} {retention : Duration} {gone : List String}
  {s₀ s : MessageStore α} {ids : List String}

theorem CrashSafe.of_rebuilds (hids : AllOverdue cio retention s₀.index ids)
    {kept : List String} (hkept : kept ⊆ gone)
    (h : Rebuilds F s.journal (dropAll (requeued s₀.index) (kept ++ ids)))
    (hcommitted : s.journal.file.name = cio.name → Rebuilds F s.journal (requeued s.index)) :
    CrashSafe F cio retention gone s₀ s := by
  refine ⟨fun d hd => ?_, hcommitted⟩
  obtain ⟨t, ht, hindex⟩ := h.recover_crash hd
  exact ⟨t, ht, kept, hkept, ids, hids, hindex⟩

/-! ### Tombstones -/

/-- The tombstones of `ids` are in the journal; the tables are untouched. -/
structure Buried (F : JournalFormat α) (cio : CompactIO) (retention : Duration)
    (gone : List String) (s₀ : MessageStore α) (ids : List String) (s : MessageStore α) :
    Prop where
  overdue : AllOverdue cio retention s₀.index ids
  tables : s.toTables = s₀.toTables
  younger : s.journal.file.name < cio.name
  rebuilds : Rebuilds F s.journal (dropAll (requeued s₀.index) (gone ++ ids))

theorem Buried.crashSafe (h : Buried F cio retention gone s₀ ids s) :
    CrashSafe F cio retention gone s₀ s :=
  .of_rebuilds h.overdue (.refl _) h.rebuilds fun hname => absurd hname h.younger.ne

variable (index : String → Option JournalEntry)

theorem AllOverdue.nil :
    AllOverdue cio retention index [] := fun _ h => (not_mem_nil h).elim

variable {id : String} {e : JournalEntry} {frame : List α} {fs : List (String × List α)}
  {covered : List String}

theorem AllOverdue.singleton (h : AllOverdue cio retention s₀.index ids) (hid : id ∈ ids) :
    AllOverdue cio retention s₀.index [id] := by
  intro id' hid'
  rw [mem_singleton.mp hid']
  exact h id hid

theorem Buried.stopped (hlive : Live s₀.index) (h : Buried F cio retention gone s₀ ids s) :
    Stopped F cio retention gone s₀ s := by
  have hindex : s.index = s₀.index := congrArg Tables.index h.tables
  refine ⟨h.crashSafe, fun _ _ => ⟨[], .nil _, by rw [hindex]; rfl, gone ++ ids, ?_, ?_⟩⟩
  · intro id hid
    exact (mem_append.mp hid).imp_right h.overdue.singleton
  · rw [← hindex] at hlive
    exact ⟨hindex ▸ h.rebuilds, hlive⟩

theorem AllOverdue.concat (h : AllOverdue cio retention s₀.index ids) (he : s₀.index id = some e)
    (ho : Overdue cio retention id e) : AllOverdue cio retention s₀.index (ids ++ [id]) := by
  intro id' hid'
  rcases mem_append.mp hid' with hid' | hid'
  · exact h id' hid'
  · rw [mem_singleton.mp hid']
    exact ⟨e, he, ho⟩

/-- The tombstone of `id` drops one more key. -/
theorem replayFrom_tombstone {m : String → Option JournalEntry} {v : JournalEntry}
    (hid : v.messageID = id) (hv : v.status = "deleted") :
    replayFrom (dropAll m ids) ([v].map change) = dropAll m (ids ++ [id]) := by
  rw [dropAll_append, map_singleton, change_of_terminal (.inr hv), hid]
  rfl

theorem writeTombstone_spec (hlive : Live s₀.index) (he : s₀.index id = some e)
    (ho : Overdue cio retention id e) (io : WriteIO) (uuid : String) :
    Spec (Buried F cio retention gone s₀ ids)
      (writeTombstone F io uuid { cloneEntry e with status := "deleted" })
      (fun _ => Buried F cio retention gone s₀ (ids ++ [id]))
      (Stopped F cio retention gone s₀) (CrashSafe F cio retention gone s₀) := by
  intro s hs
  have hst := hlive id e he
  set v : JournalEntry := { cloneEntry e with status := "deleted" } with hv
  have hids := hs.overdue.concat he ho
  have hfill : fillID uuid v = { v with id := if v.id = "" then uuid else v.id } :=
    fillID_eq uuid v
  have hexp : expandRecord (fillID uuid v) = .ok [fillID uuid v] := by
    rw [hfill]
    exact expandRecord_single (by simp [hv])
  have hid : ∀ e' ∈ [fillID uuid v], e'.messageID ≠ "" := by
    intro e' he'
    rw [mem_singleton.mp he', hfill]
    exact hst.messageID_ne
  have hdrop : replayFrom (dropAll (requeued s₀.index) (gone ++ ids))
      ([fillID uuid v].map change) = dropAll (requeued s₀.index) (gone ++ (ids ++ [id])) := by
    rw [← append_assoc]
    exact replayFrom_tombstone (by rw [hfill]; exact hst.messageID) (by rw [hfill])
  -- a crash around the append finds the journal with or without the tombstone
  have htorn : ∀ f : CrashFile α,
      (∀ out, f.Image out → ∃ p, out = s.journal.file.data.synced ++ p ∧
        Piece F (fillID uuid v) p) →
      CrashSafe F cio retention gone s₀ { s with journal := s.journal.setData f } := by
    intro f hf
    refine ⟨fun d hd => ?_, fun hname => absurd hname hs.younger.ne⟩
    obtain ⟨t, ht, hindex⟩ := hs.rebuilds.recover_torn hexp hid hf hd
    rw [hdrop] at hindex
    rcases hindex with hindex | hindex
    · exact ⟨t, ht, gone, .refl _, ids, hs.overdue, hindex⟩
    · exact ⟨t, ht, gone, .refl _, ids ++ [id], hids, hindex⟩
  have hvisited : ∀ last, CrashSafe F cio retention gone s₀ last →
      ∀ t ∈ (writeStates F io uuid s.journal v).map
        (fun f => { s with journal := s.journal.setData f }) ++ [last],
      CrashSafe F cio retention gone s₀ t := by
    intro last hlast t ht
    rcases mem_append.mp ht with ht | ht
    · obtain ⟨f, hf, rfl⟩ := mem_map.mp ht
      exact htorn f fun out hout => writeStates_torn hs.rebuilds.healthy hf hout
    · rw [mem_singleton.mp ht]
      exact hlast
  rcases hw : writeLocked F io uuid s.journal v with ⟨r, j⟩
  rcases writeLocked_spec hs.rebuilds.healthy hw with
    ⟨rfl, frame, hframe, hj⟩ | ⟨⟨err, rfl⟩, hj⟩ | ⟨⟨err, rfl⟩, -, hlatch⟩
  · have hb : Buried F cio retention gone s₀ (ids ++ [id]) { s with journal := j } := by
      have happ := hs.rebuilds.append hframe hexp hid
      rw [hdrop, ← hj] at happ
      exact ⟨hids, hs.tables, by rw [hj]; exact hs.younger, happ⟩
    simp only [writeTombstone, hw]
    exact ⟨hvisited _ hb.crashSafe, hb⟩
  · have hb : Buried F cio retention gone s₀ ids { s with journal := j } := by
      rw [hj]
      exact hs
    simp only [writeTombstone, hw]
    exact ⟨hvisited _ hb.crashSafe, hb.stopped hlive⟩
  · have hsafe : CrashSafe F cio retention gone s₀ { s with journal := j } := by
      obtain ⟨f, hcrash, hf⟩ := hlatch.image
      have hname : j.file.name < cio.name := by
        obtain ⟨f', hj', -⟩ := hlatch.eq
        rw [hj']
        exact hs.younger
      exact ⟨fun d hd => (htorn f hf).recovers d (hcrash d hd), fun h => absurd h hname.ne⟩
    simp only [writeTombstone, hw]
    exact ⟨hvisited _ hsafe, hsafe, fun hfailed => absurd hfailed hlatch.failed⟩

/-- The loop over the overdue entries. -/
theorem expireHeld_spec (hlive : Live s₀.index) (order : List String) :
    Spec (Buried F cio retention gone s₀ ids) (expireHeld F cio retention order)
      (fun expired => Buried F cio retention gone s₀ (ids ++ expired))
      (Stopped F cio retention gone s₀) (CrashSafe F cio retention gone s₀) := by
  induction order generalizing ids with
  | nil => exact .ret fun s hs => by rw [append_nil]; exact hs
  | cons id order ih =>
    refine .read_bind fun s hs => ?_
    have hindex : s.index = s₀.index := congrArg Tables.index hs.tables
    have hstart : ∀ t, t = s → Buried F cio retention gone s₀ ids t := fun t ht => ht ▸ hs
    rw [hindex]
    rcases he : s₀.index id with - | e
    · exact ih.weaken hstart (fun _ _ h => h) (fun _ h => h) fun _ h => h
    · by_cases ho : Overdue cio retention id e
      · simp only [if_pos ho]
        refine .bind ((writeTombstone_spec hlive he ho _ _).weaken hstart
          (fun _ _ h => h) (fun _ h => h) fun _ h => h) fun _ => ?_
        refine .bind ih fun expired => .ret fun t ht => ?_
        rw [append_assoc] at ht
        exact ht
      · simp only [if_neg ho]
        exact ih.weaken hstart (fun _ _ h => h) (fun _ h => h) fun _ h => h

/-! ### The snapshot -/

/-- Every image of the file reads as entries of the index. -/
def Readable (F : JournalFormat α) (index : String → Option JournalEntry) (f : CrashFile α) :
    Prop :=
  ∀ out, f.Image out → ∃ es, F.decode out = .ok es ∧ ∀ e ∈ es, ∃ id, index id = some e

/-- A snapshot written in part is readable. -/
theorem readable_of_prefix {index : String → Option JournalEntry} (hlive : Live index)
    {written : List JournalEntry} {frames tail : List α} (hframes : Frames F written frames)
    (hwritten : ∀ e ∈ written, ∃ id, index id = some e) (htail : tail <+: frames) :
    Readable F index ⟨[], tail, []⟩ := by
  rintro out ⟨p, hp, hout⟩
  obtain rfl : out = p := hout
  have hpre : out <+: frames := by
    rcases hp with hp | hp
    · exact hp.trans htail
    · rw [prefix_nil.mp hp]; exact nil_prefix
  have hsingle : ∀ e ∈ written, e.status ≠ "transaction" := fun e he => by
    obtain ⟨id, hid⟩ := hwritten e he
    exact (hlive id e hid).single
  obtain ⟨rs, hrs, es, hes, hdec⟩ := decode_frames_prefix hframes
    (fun r hr => ⟨[r], expandRecord_single (hsingle r hr)⟩) hpre
  rw [expandAll_stored fun e he => hsingle e (hrs.subset he)] at hes
  cases hes
  exact ⟨rs, hdec, fun e he => hwritten e (hrs.subset he)⟩

/-- A snapshot is being made behind the journal `base`. -/
structure Drafting (F : JournalFormat α) (cio : CompactIO) (retention : Duration)
    (gone : List String) (s₀ : MessageStore α) (ids : List String) (base : Journal α)
    (snap : DirFile α) (s : MessageStore α) : Prop where
  overdue : AllOverdue cio retention s₀.index ids
  index : s.index = dropAll s₀.index ids
  rebuilds : Rebuilds F base (dropAll (requeued s₀.index) (gone ++ ids))
  journal : s.journal = { base with newer := [snap] }
  younger : base.file.name < snap.name
  name : snap.name = cio.name
  readable : Readable F s.index snap.data

/-- Without the expired entries, what is missing on disk is only what was
missing before. -/
theorem dropAll_requeued (ids gone : List String) :
    dropAll (requeued (dropAll index ids)) gone =
      dropAll (requeued index) (gone ++ ids) := by
  rw [requeued, mapValues_dropAll]
  funext k
  simp only [dropAll_apply, mem_append]
  split_ifs with h₁ h₂ h₃ h₃ <;> simp_all

variable {base : Journal α} {snap : DirFile α}

/-- A piece of the snapshot replayed behind the old files restates part of the
index. -/
theorem Drafting.crashSafe (hlive : Live s₀.index)
    (h : Drafting F cio retention gone s₀ ids base snap s) :
    CrashSafe F cio retention gone s₀ s := by
  have hname : s.journal.file.name ≠ cio.name := by
    rw [h.journal, ← h.name]
    exact h.younger.ne
  refine ⟨?_, fun h => absurd h hname⟩
  rintro ⟨files, covered⟩ ⟨hfiles, hcov⟩
  rw [h.journal] at hfiles hcov
  have hsplit : DirFile.Survivors (base.files ++ [snap]) files := by
    simpa [Journal.files, h.rebuilds.newer] using hfiles
  obtain ⟨ds, ds', rfl, hds, hds'⟩ := DirFile.Survivors.append_inv hsplit
  have hbase : base.Crash ⟨ds, covered⟩ := ⟨hds, hcov⟩
  rcases hds'.singleton_cases with rfl | ⟨out, hout, rfl⟩
  · rw [append_nil]
    obtain ⟨t, ht, hindex⟩ := h.rebuilds.recover_crash hbase
    exact ⟨t, ht, gone, .refl _, ids, h.overdue, hindex⟩
  · obtain ⟨es', hdec, hes'⟩ := h.readable out hout
    obtain ⟨es, hes, hindex⟩ := h.rebuilds.replay_crash hbase
    have hlive' : Live s.index := h.index ▸ hlive.dropAll ids
    have hlt : ∀ x ∈ ds, x.1 < snap.name := by
      intro x hx
      obtain ⟨f, hf, hn⟩ := hds.name_mem hx
      exact hn ▸ lt_of_le_of_lt (h.rebuilds.files_le f hf) h.younger
    have hc : ∀ n ∈ covered, n < snap.name := fun n hn =>
      (h.rebuilds.covered_lt covered (Checkpoint.mem_shown.mpr hcov) n hn).trans h.younger
    refine ⟨_, recover_of_replay (replay_youngest hlt hc hes hdec), ?_⟩
    have hids : ∀ e ∈ es', e.messageID ≠ "" := fun e he => by
      obtain ⟨id, hid⟩ := hes' e he
      exact (hlive' id e hid).messageID_ne
    rw [recoverAll_append_index hids, hindex, ← dropAll_requeued, replayFrom_dropAll, ← h.index,
      replayFrom_of_agrees (hlive'.agrees hes'), h.index, dropAll_requeued]
    exact ⟨_, filter_subset_self _, ids, h.overdue, rfl⟩

/-- An uncommitted snapshot is around. -/
def Drafts (F : JournalFormat α) (cio : CompactIO) (retention : Duration)
    (gone : List String) (s₀ : MessageStore α) (s : MessageStore α) : Prop :=
  ∃ ids base snap, Drafting F cio retention gone s₀ ids base snap s

theorem Drafts.crashSafe (hlive : Live s₀.index) (h : Drafts F cio retention gone s₀ s) :
    CrashSafe F cio retention gone s₀ s := by
  obtain ⟨ids, base, snap, h⟩ := h
  exact h.crashSafe hlive

/-- The entries `written` have reached the snapshot. -/
structure Writing (F : JournalFormat α) (cio : CompactIO) (retention : Duration)
    (gone : List String) (s₀ : MessageStore α) (ids : List String) (base : Journal α)
    (written : List JournalEntry) (snap : DirFile α) (s : MessageStore α) : Prop
    extends Drafting F cio retention gone s₀ ids base snap s where
  present : snap.unlinked = false
  tail : ∃ frames, snap.data = ⟨[], frames, []⟩ ∧ Frames F written frames
  entries : ∀ e ∈ written, ∃ id, s.index id = some e

theorem onSnapshot_newer (f : DirFile α → DirFile α) (base : Journal α) (snap : DirFile α) :
    Journal.onSnapshot f { base with newer := [snap] } = { base with newer := [f snap] } := rfl

/-- A call on the snapshot that leaves it readable. -/
theorem Drafting.onSnapshot {f : DirFile α → DirFile α}
    (h : Drafting F cio retention gone s₀ ids base snap s) (hname : (f snap).name = snap.name)
    (hread : Readable F s.index (f snap).data) :
    Drafting F cio retention gone s₀ ids base (f snap)
      { s with journal := s.journal.onSnapshot f } :=
  { overdue := h.overdue
    index := h.index
    rebuilds := h.rebuilds
    journal := by rw [h.journal]; exact onSnapshot_newer f base snap
    younger := hname ▸ h.younger
    name := hname.trans h.name
    readable := hread }

variable {written : List JournalEntry}

/-- One more entry, in whole or cut short. -/
theorem Writing.write_readable (hlive : Live s₀.index)
    (h : Writing F cio retention gone s₀ ids base written snap s) (he : s.index id = some e)
    {p : List α} (hframe : F.encode e = .ok frame) (hp : p <+: frame) :
    Readable F s.index (snap.data.write p) := by
  obtain ⟨frames, hdata, hframes⟩ := h.tail
  rw [hdata]
  refine readable_of_prefix (h.index ▸ hlive.dropAll ids) (hframes.concat hframe) ?_
    ((prefix_append_right_inj frames).mpr hp)
  intro e' he'
  rcases mem_append.mp he' with he' | he'
  · exact h.entries e' he'
  · rw [mem_singleton.mp he']
    exact ⟨id, he⟩

theorem Writing.write (hlive : Live s₀.index)
    (h : Writing F cio retention gone s₀ ids base written snap s) (he : s.index id = some e)
    (hframe : F.encode e = .ok frame) :
    Writing F cio retention gone s₀ ids base (written ++ [e])
      { snap with data := snap.data.write frame }
      { s with journal := s.journal.onSnapshot fun f =>
        { f with data := f.data.write frame } } := by
  have hread := h.write_readable hlive he hframe prefix_rfl
  obtain ⟨frames, hdata, hframes⟩ := h.tail
  have hdraft := h.toDrafting.onSnapshot
    (f := fun f => { f with data := f.data.write frame }) rfl hread
  refine ⟨hdraft, h.present, ⟨frames ++ frame, ?_, ?_⟩, ?_⟩
  · rw [hdata]; rfl
  · exact hframes.concat hframe
  · intro e' he'
    rcases mem_append.mp he' with he' | he'
    · exact h.entries e' he'
    · rw [mem_singleton.mp he']
      exact ⟨id, he⟩

/-- The loop over the index. -/
theorem encodeIndex_spec (hlive : Live s₀.index) (order : List String) :
    Spec (fun s => ∃ snap, Writing F cio retention gone s₀ ids base written snap s)
      (encodeIndex F cio order)
      (fun _ s => ∃ snap, Writing F cio retention gone s₀ ids base
        (written ++ order.filterMap (dropAll s₀.index ids)) snap s)
      (Drafts F cio retention gone s₀) (CrashSafe F cio retention gone s₀) := by
  induction order generalizing written with
  | nil => exact .ret fun s hs => by simpa using hs
  | cons id order ih =>
    refine .read_bind fun s hs => ?_
    obtain ⟨snap, hs⟩ := hs
    rcases he : s.index id with - | e
    · have hskip : (id :: order).filterMap (dropAll s₀.index ids) =
          order.filterMap (dropAll s₀.index ids) := by
        rw [filterMap_cons, ← hs.index, he]
      rw [hskip]
      exact ih.weaken (fun t ht => ⟨snap, ht ▸ hs⟩) (fun _ _ h => h) (fun _ h => h)
        fun _ h => h
    · have hnext : (id :: order).filterMap (dropAll s₀.index ids) =
          e :: order.filterMap (dropAll s₀.index ids) := by
        rw [filterMap_cons, ← hs.index, he]
      rw [hnext]
      rcases hframe : F.encode e with err | frame
      · simp only [hframe]
        exact .fail fun t ht => ⟨ids, base, snap, ht ▸ hs.toDrafting⟩
      · rcases hcut : cio.encode id with - | ⟨n, err⟩
        · simp only [hframe]
          have hnew := hs.write hlive he hframe
          refine .bind (Q := fun _ t => ∃ snap, Writing F cio retention gone s₀ ids base
            (written ++ [e]) snap t) (.step ?_ ?_) fun _ => ?_
          · rintro t rfl
            exact ⟨_, hnew⟩
          · rintro t rfl
            exact hnew.toDrafting.crashSafe hlive
          · have hassoc : written ++ e :: order.filterMap (dropAll s₀.index ids) =
                written ++ [e] ++ order.filterMap (dropAll s₀.index ids) := by simp
            rw [hassoc]
            exact ih
        · -- a short write: the snapshot ends in the middle of an entry
          simp only [hframe]
          have hread := hs.write_readable hlive he hframe ( take_prefix n frame)
          have hcutted := hs.toDrafting.onSnapshot
            (f := fun f => { f with data := f.data.write (frame.take n) }) rfl hread
          refine .bind (Q := fun _ => Drafts F cio retention gone s₀)
            (.step ?_ ?_) fun _ => .fail fun _ h => h
          · rintro t rfl
            exact ⟨_, _, _, hcutted⟩
          · rintro t rfl
            exact hcutted.crashSafe hlive

/-! ### Directory calls -/

variable {j : Journal α} {m : String → Option JournalEntry}

/-- Syncing the directory keeps what it rebuilds. -/
theorem Rebuilds.syncDir (h : Rebuilds F j m) : Rebuilds F j.syncDir m := by
  have hshown : ∀ c ∈ j.syncDir.checkpoint.shown, c ∈ j.checkpoint.shown := by
    intro c hc
    exact Checkpoint.mem_shown.mpr (.inl ((Checkpoint.mem_shown.mp hc).elim id id))
  obtain ⟨rs, es, hframes, hes, hlog⟩ := h.log
  exact
    { healthy := ⟨h.healthy.failed, h.healthy.encoder, h.healthy.clean⟩
      linked := rfl
      present := h.present
      newer := by simp [Journal.syncDir, h.newer, DirFile.syncDir]
      older_lt := fun f hf => by
        obtain ⟨g, hg, -, rfl⟩ := DirFile.mem_syncDir hf
        exact h.older_lt g hg
      covered_lt := fun c hc => h.covered_lt c (hshown c hc)
      log := ⟨rs, es, hframes, hes, fun c hc ds hds => hlog c (hshown c hc) ds hds.of_syncDir⟩ }

theorem mem_glob {x : String × List α} :
    x ∈ glob fs ↔ x ∈ fs := mem_insertionSort _

/-- Covered files are skipped. -/
theorem replayFiles_covered (h : ∀ x ∈ fs, x.1 ∈ covered) : replayFiles F covered fs = .ok [] := by
  induction fs with
  | nil => rfl
  | cons f fs ih =>
    obtain ⟨name, content⟩ := f
    rw [replayFiles, if_pos (h (name, content) mem_cons_self)]
    exact ih fun x hx => h x (mem_cons_of_mem _ hx)

theorem replay_survivors_covered {fs : List (DirFile α)} (h : ∀ f ∈ fs, f.name ∈ covered)
    {ds : List (String × List α)} (hds : DirFile.Survivors fs ds) :
    replayFiles F covered (glob ds) = .ok [] := by
  refine replayFiles_covered fun x hx => ?_
  obtain ⟨f, hf, hn⟩ := hds.name_mem (mem_glob.mp hx)
  exact hn ▸ h f hf

/-- Every older file is covered, whichever checkpoint a crash shows. -/
def Journal.Superseded (j : Journal α) : Prop :=
  ∀ f ∈ j.older, ∀ c ∈ j.checkpoint.shown, f.name ∈ c

/-- Superseded files may be removed. -/
theorem Rebuilds.removeOlder (h : Rebuilds F j m) (hsup : j.Superseded) (name : String) :
    Rebuilds F (j.removeOlder name) m ∧ (j.removeOlder name).Superseded := by
  have hnames : ∀ f ∈ (j.removeOlder name).older, ∃ g ∈ j.older, f.name = g.name := by
    intro f hf
    obtain ⟨g, hg, rfl⟩ := mem_map.mp hf
    refine ⟨g, hg, ?_⟩
    split_ifs <;> rfl
  have hsup' : (j.removeOlder name).Superseded := by
    intro f hf c hc
    obtain ⟨g, hg, hn⟩ := hnames f hf
    exact hn ▸ hsup g hg c hc
  obtain ⟨rs, es, hframes, hes, hlog⟩ := h.log
  refine ⟨⟨⟨h.healthy.failed, h.healthy.encoder, h.healthy.clean⟩, h.linked, h.present, h.newer,
    ?_, h.covered_lt, rs, es, hframes, hes, ?_⟩, hsup'⟩
  · intro f hf
    obtain ⟨g, hg, hn⟩ := hnames f hf
    exact hn ▸ h.older_lt g hg
  · intro c hc ds hds
    obtain ⟨es₀, hes₀, hm⟩ := hlog c hc _ (DirFile.survivors_visible j.older)
    rw [replay_survivors_covered (fun f hf => hsup f hf c hc)
      (DirFile.survivors_visible j.older)] at hes₀
    cases hes₀
    exact ⟨[], replay_survivors_covered (fun f hf => hsup' f hf c hc) hds, hm⟩

theorem Journal.mem_names {f : DirFile α} (hf : f ∈ j.files) (hu : f.unlinked = false) :
    f.name ∈ j.names := by
  refine mem_map.mpr ⟨f.view, mem_glob.mpr ?_, rfl⟩
  exact mem_map.mpr ⟨f, mem_filter.mpr ⟨hf, by simp [hu]⟩, rfl⟩

theorem Rebuilds.names_le (h : Rebuilds F j m) : ∀ n ∈ j.names, n ≤ j.file.name := by
  intro n hn
  obtain ⟨x, hx, rfl⟩ := mem_map.mp hn
  obtain ⟨f, hf, hname⟩ := (DirFile.survivors_visible j.files).name_mem (mem_glob.mp hx)
  exact hname ▸ h.files_le f hf

/-! ### Committing the snapshot -/

/-- The whole index has reached the snapshot, durably. -/
structure Sealed (F : JournalFormat α) (cio : CompactIO) (retention : Duration)
    (gone : List String) (s₀ : MessageStore α) (ids : List String) (base : Journal α)
    (snap : DirFile α) (s : MessageStore α) : Prop
    extends Drafting F cio retention gone s₀ ids base snap s where
  present : snap.unlinked = false
  clean : snap.data.Clean
  snapshot : ∃ es, Frames F es snap.data.synced ∧ (∀ e ∈ es, ∃ id, s.index id = some e) ∧
    ∀ id e, s.index id = some e → e ∈ es

theorem Writing.seal (h : Writing F cio retention gone s₀ ids base written snap s)
    (hlive : Live s₀.index) (hall : ∀ id e, s.index id = some e → e ∈ written) :
    Sealed F cio retention gone s₀ ids base { snap with data := snap.data.sync }
      { s with journal := s.journal.onSnapshot fun f => { f with data := f.data.sync } } := by
  obtain ⟨frames, hdata, hframes⟩ := h.tail
  have hsynced : snap.data.sync.synced = frames := by rw [hdata]; rfl
  have hsingle : ∀ e ∈ written, e.status ≠ "transaction" := fun e he => by
    obtain ⟨id, hid⟩ := h.entries e he
    exact ((h.index ▸ hlive.dropAll ids : Live s.index) id e hid).single
  have hread : Readable F s.index snap.data.sync := by
    intro out hout
    rw [(CrashFile.clean_sync _).image_iff, (CrashFile.clean_sync _).content_eq, hsynced] at hout
    exact ⟨written, hout ▸ decode_frames hframes (expandAll_stored hsingle), h.entries⟩
  have hdraft := h.toDrafting.onSnapshot
    (f := fun f => { f with data := f.data.sync }) rfl hread
  exact ⟨hdraft, h.present, CrashFile.clean_sync _, written, hsynced ▸ hframes, h.entries, hall⟩

/-- Syncing the directory under a sealed snapshot leaves only listed files. -/
theorem Sealed.syncDir (h : Sealed F cio retention gone s₀ ids base snap s) :
    Sealed F cio retention gone s₀ ids base.syncDir { snap with linked := true }
        { s with journal := s.journal.syncDir } ∧
      ∀ f ∈ base.syncDir.files, f.name ∈ base.names := by
  refine ⟨⟨⟨h.overdue, h.index, h.rebuilds.syncDir, ?_, h.younger, h.name, h.readable⟩, h.present,
    h.clean, h.snapshot⟩, ?_⟩
  · rw [h.journal]
    simp [Journal.syncDir, DirFile.syncDir, h.present]
  · intro f hf
    rw [Journal.files, h.rebuilds.syncDir.newer] at hf
    rcases mem_append.mp hf with hf | hf
    · obtain ⟨g, hg, hu, rfl⟩ := DirFile.mem_syncDir hf
      have hmem : g.name ∈ base.names := Journal.mem_names (mem_append_left _ hg) hu
      exact hmem
    · have hmem : base.file.name ∈ base.names :=
        Journal.mem_names (by simp [Journal.files]) h.rebuilds.present
      rw [mem_singleton.mp hf]
      exact hmem

/-- **The commit**: whichever checkpoint a crash shows, the directory with the
installed snapshot rebuilds the whole index. -/
theorem Sealed.install (h : Sealed F cio retention gone s₀ ids base snap s)
    (hlive : Live s₀.index) (hlinked : snap.linked = true) {old : List String}
    (hold : ∀ n ∈ old, n < snap.name) (hlisted : ∀ f ∈ base.files, f.name ∈ old) :
    Rebuilds F (s.journal.install old) (requeued s.index) := by
  have hbase := h.rebuilds
  have hlive' : Live s.index := h.index ▸ hlive.dropAll ids
  obtain ⟨es, hframes, hentries, hall⟩ := h.snapshot
  have hids : ∀ e ∈ es, e.messageID ≠ "" := fun e he => by
    obtain ⟨id, hid⟩ := hentries e he
    exact (hlive' id e hid).messageID_ne
  have hsingle : ∀ e ∈ es, e.status ≠ "transaction" := fun e he => by
    obtain ⟨id, hid⟩ := hentries e he
    exact (hlive' id e hid).single
  -- the snapshot names every key, so it rebuilds the index over anything smaller
  have hcomplete : ∀ n : String → Option JournalEntry,
      (∀ k, requeued s.index k = none → n k = none) →
      replayFrom n (es.map change) = requeued s.index := by
    intro n hn
    refine replayFrom_of_complete (hlive'.agrees hentries) (fun id hid => ?_) hn
    rcases he : s.index id with - | e
    · simp [he] at hid
    · exact ⟨change e, mem_map_of_mem (hall id e he), by rw [(hlive' id e he).change_eq]⟩
  have hfiles : base.files = base.older ++ [base.file] := by
    rw [Journal.files, hbase.newer]
  rw [h.journal]
  refine ⟨⟨hbase.healthy.failed, rfl, h.clean⟩, hlinked, h.present, rfl, ?_, ?_, es, es,
    hframes, expandAll_stored hsingle, ?_⟩
  · intro f hf
    have hf' : f ∈ base.files := by rw [hfiles]; exact hf
    exact lt_of_le_of_lt (hbase.files_le f hf') h.younger
  · intro c hc n hn
    rcases Checkpoint.mem_shown.mp hc with rfl | rfl
    · exact hold n hn
    · exact (hbase.covered_lt _ (Checkpoint.mem_shown.mpr (.inr rfl)) n hn).trans h.younger
  · intro c hc ds hds
    have hds' : DirFile.Survivors base.files ds := by rw [hfiles]; exact hds
    rcases Checkpoint.mem_shown.mp hc with rfl | rfl
    · refine ⟨[], replay_survivors_covered hlisted hds', ?_⟩
      rw [recoverAll_append_index hids]
      exact hcomplete _ fun _ _ => rfl
    · have hcrash : base.Crash ⟨ds, base.checkpoint.durable⟩ := ⟨hds', .inr rfl⟩
      obtain ⟨es₀, hes₀, hindex⟩ := hbase.replay_crash hcrash
      refine ⟨es₀, hes₀, ?_⟩
      rw [recoverAll_append_index hids, hindex, ← dropAll_requeued, ← h.index]
      refine hcomplete _ fun k hk => ?_
      rw [dropAll_apply, hk, ite_self]

/-! ### The whole compaction -/

/-- The outcome of a committed compaction: the journal rebuilds the index,
from which only overdue entries are gone. -/
structure Installed (F : JournalFormat α) (cio : CompactIO) (retention : Duration)
    (s₀ s : MessageStore α) : Prop where
  mirrors : Mirrors F [] s
  expired : ∃ ids, AllOverdue cio retention s₀.index ids ∧ s.index = dropAll s₀.index ids

section

variable (h : Installed F cio retention s₀ s)

include h

theorem Installed.crashSafe :
    CrashSafe F cio retention gone s₀ s := by
  obtain ⟨ids, hids, hindex⟩ := h.expired
  have hreb := h.mirrors.rebuilds
  rw [hindex, dropAll_requeued] at hreb
  exact .of_rebuilds hids (nil_subset _) hreb fun _ => h.mirrors.rebuilds

theorem Installed.stopped :
    Stopped F cio retention gone s₀ s := by
  obtain ⟨ids, hids, hindex⟩ := h.expired
  exact ⟨h.crashSafe, fun _ _ => ⟨ids, hids, hindex, [],
    fun _ hid => (not_mem_nil hid).elim, h.mirrors⟩⟩

/-- A change of the journal that keeps what it rebuilds. -/
theorem Installed.onJournal {f : Journal α → Journal α}
    (hf : Rebuilds F (f s.journal) (requeued s.index)) :
    Installed F cio retention s₀ { s with journal := f s.journal } :=
  ⟨⟨hf, h.mirrors.live⟩, h.expired⟩

end

theorem Drafts.stopped (hlive : Live s₀.index) (h : Drafts F cio retention gone s₀ s) :
    Stopped F cio retention gone s₀ s := by
  refine ⟨h.crashSafe hlive, fun _ hnewer => ?_⟩
  obtain ⟨ids, base, snap, h⟩ := h
  rw [h.journal] at hnewer
  cases hnewer

/-- Installed, and the checkpoint covers every older file. -/
def Committed (F : JournalFormat α) (cio : CompactIO) (retention : Duration)
    (s₀ s : MessageStore α) : Prop :=
  Installed F cio retention s₀ s ∧ ∀ f ∈ s.journal.older, f.name ∈ s.journal.checkpoint.covered

/-- The sealed snapshot is durably in the directory, beside files that are all
listed in `base.names`. -/
def Linked (F : JournalFormat α) (cio : CompactIO) (retention : Duration)
    (gone : List String) (s₀ : MessageStore α) (ids : List String) (base : Journal α)
    (s : MessageStore α) : Prop :=
  ∃ snap, Sealed F cio retention gone s₀ ids base.syncDir snap s ∧ snap.linked = true ∧
    (∀ f ∈ base.syncDir.files, f.name ∈ base.names) ∧ ∀ n ∈ base.names, n < snap.name

theorem Linked.install (h : Linked F cio retention gone s₀ ids base s)
    (hlive : Live s₀.index) :
    Committed F cio retention s₀ { s with journal := s.journal.install base.names } := by
  obtain ⟨snap, hs, hlinked, hlisted, hold⟩ := h
  have hreb := hs.install hlive hlinked hold hlisted
  refine ⟨⟨⟨hreb, hs.index ▸ hlive.dropAll ids⟩, ids, hs.overdue, hs.index⟩, ?_⟩
  intro f hf
  have hf' : f ∈ base.syncDir.files := by
    rw [Journal.files, hs.rebuilds.newer]
    simpa [hs.journal, Journal.install] using hf
  simpa [hs.journal, Journal.install] using hlisted f hf'

theorem writeSnapshot_spec (hlive : Live s₀.index)
    (hvisits : ∀ id, s₀.index id ≠ none → id ∈ cio.snapshotOrder) :
    Spec (fun s => ∃ snap, Writing F cio retention gone s₀ ids base [] snap s)
      (writeSnapshot F cio base.names) (fun _ => Committed F cio retention s₀)
      (Drafts F cio retention gone s₀) (CrashSafe F cio retention gone s₀) := by
  -- every entry of the index is visited by the loop
  have hseal : ∀ s, (∃ snap, Writing F cio retention gone s₀ ids base
      ([] ++ cio.snapshotOrder.filterMap (dropAll s₀.index ids)) snap s) →
      ∃ snap, Sealed F cio retention gone s₀ ids base snap
        { s with journal := s.journal.onSnapshot fun f => { f with data := f.data.sync } } := by
    rintro s ⟨snap, hs⟩
    refine ⟨_, hs.seal hlive fun id e he => ?_⟩
    rw [hs.index] at he
    refine mem_filterMap.mpr ⟨id, hvisits id fun hnone => ?_, he⟩
    simp [dropAll_apply, hnone] at he
  have hlink : ∀ s, (∃ snap, Sealed F cio retention gone s₀ ids base snap s) →
      Linked F cio retention gone s₀ ids base { s with journal := s.journal.syncDir } := by
    rintro s ⟨snap, hs⟩
    exact ⟨_, hs.syncDir.1, rfl, hs.syncDir.2, fun n hn =>
      lt_of_le_of_lt (hs.rebuilds.names_le n hn) hs.younger⟩
  have hdrafts : ∀ s, Linked F cio retention gone s₀ ids base s →
      Drafts F cio retention gone s₀ s := by
    rintro s ⟨snap, hs, -⟩
    exact ⟨ids, _, snap, hs.toDrafting⟩
  refine .bind (encodeIndex_spec hlive _) fun _ => ?_
  refine .bind (.check fun s hs => ?_) fun _ => ?_
  · obtain ⟨snap, hs⟩ := hs
    exact ⟨ids, base, snap, hs.toDrafting⟩
  refine .bind (Q := fun _ s => ∃ snap, Sealed F cio retention gone s₀ ids base snap s)
    (.step hseal fun s hs => ?_) fun _ => ?_
  · obtain ⟨snap, hs⟩ := hseal s hs
    exact hs.toDrafting.crashSafe hlive
  refine .bind (.check fun s hs => ?_) fun _ => ?_
  · obtain ⟨snap, hs⟩ := hs
    exact ⟨ids, base, snap, hs.toDrafting⟩
  refine .bind (Q := fun _ => Linked F cio retention gone s₀ ids base)
    (.step hlink fun s hs => (hdrafts _ (hlink s hs)).crashSafe hlive) fun _ => ?_
  -- the temporary checkpoint file is not a journal file
  refine .bind (.check hdrafts) fun _ => .bind (.check hdrafts) fun _ =>
    .bind (.check hdrafts) fun _ => .bind (.check hdrafts) fun _ => ?_
  exact .step (fun s hs => hs.install hlive) fun s hs => (hs.install hlive).1.crashSafe

/-- The loop that removes the covered files. -/
theorem removeCovered_spec (names : List String) :
    Spec (fun s => Installed F cio retention s₀ s ∧ s.journal.Superseded)
      (removeCovered cio names)
      (fun _ s => Installed F cio retention s₀ s ∧ s.journal.Superseded)
      (Stopped F cio retention gone s₀) (CrashSafe F cio retention gone s₀) := by
  have hstep : ∀ name s, Installed F cio retention s₀ s ∧ s.journal.Superseded →
      Installed F cio retention s₀ { s with journal := s.journal.removeOlder name } ∧
        (s.journal.removeOlder name).Superseded := by
    rintro name s ⟨hs, hsup⟩
    obtain ⟨hreb, hsup'⟩ := hs.mirrors.rebuilds.removeOlder hsup name
    exact ⟨hs.onJournal hreb, hsup'⟩
  induction names with
  | nil => exact .ret fun s hs => hs
  | cons name names ih =>
    refine .bind (.check fun s hs => hs.1.stopped) fun _ => ?_
    refine .bind
      (Q := fun _ s => Installed F cio retention s₀ s ∧ s.journal.Superseded)
      (.step (hstep name) fun s hs => (hstep name s hs).1.crashSafe) fun _ => ih

/-- The overdue entries have left the index; the snapshot is not begun. -/
structure Ready (F : JournalFormat α) (cio : CompactIO) (retention : Duration)
    (gone : List String) (s₀ : MessageStore α) (ids : List String) (s : MessageStore α) :
    Prop where
  overdue : AllOverdue cio retention s₀.index ids
  index : s.index = dropAll s₀.index ids
  rebuilds : Rebuilds F s.journal (dropAll (requeued s₀.index) (gone ++ ids))
  younger : s.journal.file.name < cio.name

theorem Ready.stopped (hlive : Live s₀.index) (h : Ready F cio retention gone s₀ ids s) :
    Stopped F cio retention gone s₀ s := by
  refine ⟨.of_rebuilds h.overdue (.refl _) h.rebuilds fun hname =>
    absurd hname h.younger.ne, fun _ _ =>
    ⟨ids, h.overdue, h.index, gone, fun _ hid => .inl hid, ?_, h.index ▸ hlive.dropAll ids⟩⟩
  rw [h.index, dropAll_requeued]
  exact h.rebuilds

theorem foldl_tables_drop (t : Tables) : (ids.foldl Tables.drop t).index = dropAll t.index ids := by
  induction ids generalizing t with
  | nil => rfl
  | cons id ids ih => exact ih (t.drop id)

theorem Buried.ready (h : Buried F cio retention gone s₀ ids s) :
    Ready F cio retention gone s₀ ids
      { s with toTables := ids.foldl .drop s.toTables } :=
  ⟨h.overdue, by rw [h.tables]; exact foldl_tables_drop _, h.rebuilds, h.younger⟩

/-- The new snapshot file is empty. -/
theorem Ready.create (hlive : Live s₀.index) (h : Ready F cio retention gone s₀ ids s) :
    Writing F cio retention gone s₀ ids s.journal [] (DirFile.create cio.name)
      { s with journal := s.journal.create cio.name } := by
  have hread : Readable F s.index .empty :=
    readable_of_prefix (h.index ▸ hlive.dropAll ids) .nil
      (fun _ he => (not_mem_nil he).elim) prefix_rfl
  refine ⟨⟨h.overdue, h.index, h.rebuilds, ?_, h.younger, rfl, hread⟩, rfl, ⟨[], rfl, .nil⟩,
    fun _ he => (not_mem_nil he).elim⟩
  simp [Journal.create, h.rebuilds.newer]

/-- The retention step leaves the tombstones of the expired IDs in the
journal. -/
theorem expireOverdue_spec (hlive : Live s₀.index) :
    Spec (Buried F cio retention gone s₀ []) (expireOverdue F cio retention)
      (fun expired => Buried F cio retention gone s₀ expired)
      (Stopped F cio retention gone s₀) (CrashSafe F cio retention gone s₀) := by
  unfold expireOverdue
  split_ifs
  · refine .bind (expireHeld_spec hlive _) fun expired => ?_
    refine .bind (.check fun s hs => hs.stopped hlive) fun _ => ?_
    -- every tombstone is synced already, so this sync changes nothing
    have hsync : ∀ s, Buried F cio retention gone s₀ ([] ++ expired) s →
        Buried F cio retention gone s₀ expired
          { s with journal := s.journal.setData s.journal.file.data.sync } := by
      intro s hs
      rw [hs.rebuilds.sync_eq]
      exact hs
    exact .bind (Q := fun _ => Buried F cio retention gone s₀ expired)
      (.step hsync fun s hs => (hsync s hs).crashSafe) fun _ => .ret fun _ hs => hs
  · exact .ret fun _ hs => hs

variable (retention) in
/-- **Compaction**: every state it passes through is crash safe, it ends with a
journal that rebuilds the index without some overdue entries, and where it
fails it leaves a crash-safe store. -/
theorem compact_spec (h : Compacting F cio gone s₀) :
    Spec (· = s₀) (compact F cio retention) (fun _ => Installed F cio retention s₀)
      (Stopped F cio retention gone s₀) (CrashSafe F cio retention gone s₀) := by
  have hlive := h.mirrors.live
  have hstart : Buried F cio retention gone s₀ [] s₀ :=
    ⟨.nil _, rfl, h.younger, by rw [append_nil]; exact h.mirrors.rebuilds⟩
  refine .read_bind fun s hs => ?_
  subst hs
  refine (?_ : Spec (Buried F cio retention gone s []) _ _ _ _).weaken
    (fun t ht => ht ▸ hstart) (fun _ _ h => h) (fun _ h => h) fun _ h => h
  have hstop : ∀ t, Buried F cio retention gone s [] t → Stopped F cio retention gone s t :=
    fun t ht => ht.stopped hlive
  refine .bind (.check hstop) fun _ => .bind (.check hstop) fun _ => ?_
  refine .bind (expireOverdue_spec hlive) fun ids => ?_
  refine .bind (Q := fun _ => Ready F cio retention gone s ids)
    (.step (fun t ht => ht.ready) fun t ht => (ht.ready.stopped hlive).safe) fun _ => ?_
  have hready : ∀ t, Ready F cio retention gone s ids t → Stopped F cio retention gone s t :=
    fun t ht => ht.stopped hlive
  refine .bind (.check hready) fun _ => .read_bind fun s₁ hs₁ => ?_
  have hready₁ : ∀ t, t = s₁ → Stopped F cio retention gone s t := fun t ht =>
    ht ▸ hs₁.stopped hlive
  refine .bind (.check hready₁) fun _ => .bind (.check hready₁) fun _ => ?_
  have hcreate : ∀ t, t = s₁ → ∃ snap, Writing F cio retention gone s ids s₁.journal [] snap
      { t with journal := t.journal.create cio.name } := by
    rintro t rfl
    exact ⟨_, hs₁.create hlive⟩
  refine .bind
    (Q := fun _ t => ∃ snap, Writing F cio retention gone s ids s₁.journal [] snap t)
    (.step hcreate fun t ht => ?_) fun _ => ?_
  · obtain ⟨snap, hw⟩ := hcreate t ht
    exact hw.toDrafting.crashSafe hlive
  -- the deferred removal leaves an uncommitted snapshot that is still readable
  have hremove : ∀ t, Drafts F cio retention gone s t → Drafts F cio retention gone s
      (if cio.removeSnapshot then { t with journal := t.journal.onSnapshot .remove }
        else t) := by
    rintro t ⟨ids, base, snap, ht⟩
    split_ifs
    · exact ⟨ids, base, _, ht.onSnapshot (f := .remove) rfl ht.readable⟩
    · exact ⟨ids, base, snap, ht⟩
  refine .bind (.onError (writeSnapshot_spec hlive h.visits)
    (fun t ht => (hremove t ht).stopped hlive) fun t ht => (hremove t ht).crashSafe hlive)
    fun _ => ?_
  refine .bind (.check fun t ht => ht.1.stopped) fun _ => ?_
  have hsync : ∀ t, Committed F cio retention s t →
      Installed F cio retention s { t with journal := t.journal.syncDir } ∧
        t.journal.syncDir.Superseded := by
    rintro t ⟨ht, hcov⟩
    refine ⟨ht.onJournal ht.mirrors.rebuilds.syncDir, fun f hf c hc => ?_⟩
    obtain ⟨g, hg, -, rfl⟩ := DirFile.mem_syncDir hf
    have hc' : c = t.journal.checkpoint.covered := (Checkpoint.mem_shown.mp hc).elim id id
    exact hc' ▸ hcov g hg
  refine .bind (Q := fun _ t => Installed F cio retention s t ∧ t.journal.Superseded)
    (.step hsync fun t ht => (hsync t ht).1.crashSafe) fun _ => ?_
  refine .bind (removeCovered_spec _) fun _ => ?_
  refine .bind (.check fun t ht => ht.1.stopped) fun _ =>
    .bind (.check fun t ht => ht.1.stopped) fun _ => ?_
  have hlast : ∀ t, Installed F cio retention s t ∧ t.journal.Superseded →
      Installed F cio retention s { t with journal := t.journal.syncDir } :=
    fun t ht => ht.1.onJournal ht.1.mirrors.rebuilds.syncDir
  exact .step hlast fun t ht => (hlast t ht).crashSafe

end Phases

end EmailService
