/-
EmailService/Recovery.lean

Recovery of the message store from its journal (internal/storage/store.go,
`recover`), and the invariant that ties a running store to the files it would
be recovered from.

`recover` applies the replayed entries in order, the last one of a message
winning.  On the index this is a keyed log (`recoverAll_append_index`): an entry
is a put of its requeued value, or a drop if its status is terminal.  An append to
the journal is therefore one more group of changes at the end of the log, and
the operations that publish exactly these changes keep the index recoverable
(`Rebuilds.append`).
-/
import EmailService.KeyedLog
import EmailService.Store

namespace EmailService

open KeyedLog Framing List

variable {α : Type}

/-! ### Recovery -/

def Tables.empty : Tables := ⟨fun _ => none, fun _ => none⟩

/-- The body of the loop of `recover`. -/
def recoverEntry (t : Tables) (e : JournalEntry) : Tables :=
  if e.messageID = "" then t
  else if e.status = "delivered" ∨ e.status = "deleted" then
    (t.drop e.messageID).dropDLQ e.messageID
  else if e.status = "failed" then (t.put e.messageID e).putDLQ e.messageID e
  else if e.status = "processing" ∨ e.status = "queued" then
    -- a worker may have crashed after claiming the message
    t.put e.messageID { e with status := "pending" }
  else t.put e.messageID e

/-- The loop of `recover`. -/
def recoverAll (entries : List JournalEntry) : Tables :=
  entries.foldl recoverEntry Tables.empty

/-- `recover`, on the journal directory `d`. -/
def recover (F : JournalFormat α) (d : Directory α) : Except String Tables :=
  (d.replay F).map recoverAll

/-! ### Recovery of the index as a keyed log -/

/-- An entry as recovery puts it back. -/
def requeue (e : JournalEntry) : JournalEntry :=
  if e.status = "processing" ∨ e.status = "queued" then { e with status := "pending" } else e

/-- A status that recovery takes as a tombstone. -/
def Terminal (status : String) : Prop := status = "delivered" ∨ status = "deleted"

instance (status : String) : Decidable (Terminal status) :=
  inferInstanceAs (Decidable (_ ∨ _))

/-- What a replayed entry does to the index. -/
def change (e : JournalEntry) : String × Option JournalEntry :=
  (e.messageID, if Terminal e.status then none else some (requeue e))

variable {e r : JournalEntry} {es es' : List JournalEntry} {id : String}
  {index : String → Option JournalEntry} {ds : List (String × List α)} {d : Directory α}
  {f : CrashFile α}

theorem change_of_terminal (h : Terminal e.status) : change e = (e.messageID, none) := by
  rw [change, if_pos h]

theorem change_of_live (h : ¬ Terminal e.status) : change e = (e.messageID, some (requeue e)) := by
  rw [change, if_neg h]

theorem recoverEntry_index {t : Tables} (h : e.messageID ≠ "") :
    (recoverEntry t e).index = applyChange t.index (change e) := by
  unfold recoverEntry
  rw [if_neg h]
  by_cases hterm : e.status = "delivered" ∨ e.status = "deleted"
  · rw [change_of_terminal hterm, if_pos hterm]
    rfl
  · rw [change_of_live hterm, if_neg hterm]
    by_cases hfail : e.status = "failed"
    · have hreq : requeue e = e := if_neg (by simp [hfail])
      rw [if_pos hfail, hreq]
      rfl
    · rw [if_neg hfail]
      by_cases hown : e.status = "processing" ∨ e.status = "queued"
      · have hreq : requeue e = { e with status := "pending" } := if_pos hown
        rw [if_pos hown, hreq]
        rfl
      · have hreq : requeue e = e := if_neg hown
        rw [if_neg hown, hreq]
        rfl

theorem foldl_recoverEntry_index (h : ∀ e ∈ es, e.messageID ≠ "") (t : Tables) :
    (es.foldl recoverEntry t).index = replayFrom t.index (es.map change) := by
  induction es generalizing t with
  | nil => rfl
  | cons e es ih =>
    rw [foldl_cons, ih fun e' he' => h e' (mem_cons_of_mem _ he'),
      recoverEntry_index (h e mem_cons_self)]
    rfl

/-- **Appending entries to the log** replays their changes over the index
recovered so far. -/
theorem recoverAll_append_index (h : ∀ e ∈ es', e.messageID ≠ "") :
    (recoverAll (es ++ es')).index = replayFrom (recoverAll es).index (es'.map change) := by
  unfold recoverAll
  rw [foldl_append]
  exact foldl_recoverEntry_index h _

/-! ### Stored entries -/

/-- What holds of an entry the index keeps under `id`. -/
structure Stored (id : String) (e : JournalEntry) : Prop where
  messageID : e.messageID = id
  id_ne : id ≠ ""
  live : ¬ Terminal e.status
  single : e.status ≠ "transaction"

/-- Every entry of the index is one that recovery puts back under its key. -/
def Live (index : String → Option JournalEntry) : Prop :=
  ∀ id e, index id = some e → Stored id e

/-- The index as recovery is meant to rebuild it. -/
abbrev requeued (index : String → Option JournalEntry) : String → Option JournalEntry :=
  mapValues requeue index

theorem Stored.messageID_ne (h : Stored id e) :
    e.messageID ≠ "" := h.messageID ▸ h.id_ne

theorem Stored.change_eq (h : Stored id e) : change e = (id, some (requeue e)) := by
  rw [change_of_live h.live, h.messageID]

/-- Entries of the index, written out again, restate it. -/
theorem Live.agrees (h : Live index) (hes : ∀ e ∈ es, ∃ id, index id = some e) :
    Agrees (requeued index) (es.map change) := by
  intro c hc
  obtain ⟨e, he, rfl⟩ := mem_map.mp hc
  obtain ⟨id, hid⟩ := hes e he
  have hval : requeued index id = some (requeue e) := by simp [hid]
  rw [(h id e hid).change_eq]
  exact hval.symm

theorem Live.dropAll (h : Live index) (ids : List String) : Live (dropAll index ids) := by
  intro id e he
  rw [dropAll_apply] at he
  split at he
  · cases he
  · exact h id e he

/-- Stored entries are records of one entry each. -/
theorem expandAll_stored (h : ∀ e ∈ es, e.status ≠ "transaction") :
    expandAll expandRecord es = .ok es := by
  induction es with
  | nil => rfl
  | cons e es ih =>
    simp only [expandAll, expandRecord_single (h e mem_cons_self),
      ih fun e' he' => h e' (mem_cons_of_mem _ he')]
    rfl

/-! ### Journals a store can be recovered from -/

/-- The checkpoints a crash may show. -/
def Checkpoint.shown (c : Checkpoint) : List (List String) := [c.covered, c.durable]

theorem Checkpoint.mem_shown {c : Checkpoint} {names : List String} :
    names ∈ c.shown ↔ names = c.covered ∨ names = c.durable := by
  simp [Checkpoint.shown]

/-- `Rebuilds F j m`: whatever a crash leaves of the older files, and whichever
of the two checkpoints it shows, replaying the directory of `j` recovers the
index `m`; and the active file is the youngest. -/
structure Rebuilds (F : JournalFormat α) (j : Journal α) (m : String → Option JournalEntry) :
    Prop where
  healthy : j.Healthy
  linked : j.file.linked = true
  present : j.file.unlinked = false
  newer : j.newer = []
  older_lt : ∀ f ∈ j.older, f.name < j.file.name
  covered_lt : ∀ c ∈ j.checkpoint.shown, ∀ name ∈ c, name < j.file.name
  log : ∃ rs es, Frames F rs j.file.data.synced ∧ expandAll expandRecord rs = .ok es ∧
    ∀ c ∈ j.checkpoint.shown, ∀ ds, DirFile.Survivors j.older ds →
      ∃ es₀, replayFiles F c (glob ds) = .ok es₀ ∧ (recoverAll (es₀ ++ es)).index = m

variable {F : JournalFormat α} {j : Journal α} {m : String → Option JournalEntry}

/-- A file younger than the others, and not covered, is replayed last. -/
theorem replay_youngest {c : List String} {name : String} {out : List α} {es₀ : List JournalEntry}
    (hlt : ∀ x ∈ ds, x.1 < name) (hc : ∀ n ∈ c, n < name)
    (hds : replayFiles F c (glob ds) = .ok es₀) (hout : F.decode out = .ok es) :
    replayFiles F c (glob (ds ++ [(name, out)])) = .ok (es₀ ++ es) := by
  rw [glob_concat (y := (name, out)) fun x hx => le_of_lt (hlt x hx)]
  exact replayFiles_append hds
    (replayFiles_singleton (fun hmem => lt_irrefl name (hc name hmem)) hout)

theorem recover_of_replay (h : replayFiles F d.covered (glob d.files) = .ok es) :
    recover F d = .ok (recoverAll es) := by
  rw [recover, Directory.replay, h]
  rfl

theorem Rebuilds.survivors_lt (h : Rebuilds F j m) (hds : DirFile.Survivors j.older ds) :
    ∀ x ∈ ds, x.1 < j.file.name := by
  intro x hx
  obtain ⟨f, hf, hn⟩ := hds.name_mem hx
  exact hn ▸ h.older_lt f hf

/-- What a crash leaves when it finds the active file with the data `f`. -/
theorem Rebuilds.crash_inv (h : Rebuilds F j m) (hd : (j.setData f).Crash d) :
    d.covered ∈ j.checkpoint.shown ∧ ∃ ds out, DirFile.Survivors j.older ds ∧ f.Image out ∧
      d.files = ds ++ [(j.file.name, out)] := by
  obtain ⟨hfiles, hcov⟩ := hd
  have hnewer : (j.setData f).newer = [] := h.newer
  rw [Journal.files, hnewer] at hfiles
  obtain ⟨ds, ds', heq, hds, hds'⟩ := DirFile.Survivors.append_inv hfiles
  have hlinked : (j.setData f).file.linked = true := h.linked
  have hpresent : (j.setData f).file.unlinked = false := h.present
  obtain ⟨out, hout, rfl⟩ := hds'.singleton_inv hlinked hpresent
  exact ⟨Checkpoint.mem_shown.mpr hcov, ds, out, hds, hout, heq⟩

theorem Journal.setData_self (j : Journal α) : j.setData j.file.data = j := rfl

section

variable (h : Rebuilds F j m)

include h

/-- What a crash leaves replays to a log of the index. -/
theorem Rebuilds.replay_crash (hd : j.Crash d) :
    ∃ es, replayFiles F d.covered (glob d.files) = .ok es ∧ (recoverAll es).index = m := by
  rw [← j.setData_self] at hd
  obtain ⟨hc, ds, out, hds, hout, hfiles⟩ := h.crash_inv hd
  obtain ⟨rs, es, hframes, hes, hlog⟩ := h.log
  obtain ⟨es₀, hes₀, hm⟩ := hlog d.covered hc ds hds
  have hdec : F.decode out = .ok es := by
    rw [h.healthy.clean.image_iff.mp hout, h.healthy.clean.content_eq]
    exact decode_frames hframes hes
  rw [hfiles]
  exact ⟨_, replay_youngest (h.survivors_lt hds) (h.covered_lt _ hc) hes₀ hdec, hm⟩

/-- **Every crash recovers the index.** -/
theorem Rebuilds.recover_crash (hd : j.Crash d) :
    ∃ t, recover F d = .ok t ∧ t.index = m := by
  obtain ⟨es, hes, hm⟩ := h.replay_crash hd
  exact ⟨_, recover_of_replay hes, hm⟩

/-- No file of the directory is younger than the active one. -/
theorem Rebuilds.files_le : ∀ f ∈ j.files, f.name ≤ j.file.name := by
  intro f hf
  rw [Journal.files, h.newer] at hf
  rcases mem_append.mp hf with hf | hf
  · exact le_of_lt (h.older_lt f hf)
  · rw [mem_singleton.mp hf]

/-- **A crash around an append** recovers the index without the record, or with
the changes of the whole record. -/
theorem Rebuilds.recover_torn (hr : expandRecord r = .ok es')
    (hid : ∀ e ∈ es', e.messageID ≠ "")
    (hf : ∀ out, f.Image out → ∃ p, out = j.file.data.synced ++ p ∧ Piece F r p)
    (hd : (j.setData f).Crash d) :
    ∃ t, recover F d = .ok t ∧
      (t.index = m ∨ t.index = replayFrom m (es'.map change)) := by
  obtain ⟨hc, ds, out, hds, hout, hfiles⟩ := h.crash_inv hd
  obtain ⟨rs, es, hframes, hes, hlog⟩ := h.log
  obtain ⟨es₀, hes₀, hm⟩ := hlog d.covered hc ds hds
  obtain ⟨p, rfl, hp⟩ := hf out hout
  have hdec : F.decode (j.file.data.synced ++ p) = .ok es ∨
      F.decode (j.file.data.synced ++ p) = .ok (es ++ es') := by
    rcases hp with rfl | ⟨s, hs, hps⟩
    · rw [append_nil]
      exact .inl (decode_frames hframes hes)
    · exact decode_frames_partial hframes hes hs hr hps
  have hrep : ∀ es'', F.decode (j.file.data.synced ++ p) = .ok es'' →
      recover F d = .ok (recoverAll (es₀ ++ es'')) := by
    intro es'' hdec
    have hreplay := replay_youngest (h.survivors_lt hds) (h.covered_lt _ hc) hes₀ hdec
    rw [← hfiles] at hreplay
    exact recover_of_replay hreplay
  rcases hdec with hdec | hdec
  · exact ⟨_, hrep _ hdec, .inl hm⟩
  · refine ⟨_, hrep _ hdec, .inr ?_⟩
    rw [← append_assoc, recoverAll_append_index hid, hm]

end

theorem Journal.crash_directory (j : Journal α) : j.Crash j.directory :=
  ⟨DirFile.survivors_visible j.files, .inl rfl⟩

/-- **An acknowledged append** adds the changes of its record to the recovered
index. -/
theorem Rebuilds.append (h : Rebuilds F j m) {s : List α} (hs : F.encode r = .ok s)
    (hr : expandRecord r = .ok es') (hid : ∀ e ∈ es', e.messageID ≠ "") :
    Rebuilds F (j.setData ⟨j.file.data.synced ++ s, [], []⟩)
      (replayFrom m (es'.map change)) where
  healthy := ⟨h.healthy.failed, h.healthy.encoder, rfl, rfl⟩
  linked := h.linked
  present := h.present
  newer := h.newer
  older_lt := h.older_lt
  covered_lt := h.covered_lt
  log := by
    obtain ⟨rs, es, hframes, hes, hlog⟩ := h.log
    refine ⟨rs ++ [r], es ++ es', hframes.concat hs, expandAll_concat hes hr, ?_⟩
    intro c hc ds hds
    obtain ⟨es₀, hes₀, hm⟩ := hlog c hc ds hds
    refine ⟨es₀, hes₀, ?_⟩
    rw [← append_assoc, recoverAll_append_index hid, hm]

end EmailService
