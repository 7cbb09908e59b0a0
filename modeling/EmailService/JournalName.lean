/-
EmailService/JournalName.lean

The names of journal files (internal/storage/compact.go, `journalName`) and the
order in which replay reads them.

A file is named after the local wall clock at its creation, without the zone:
`journal-20060102-150405z000000000.log`.  Replay reads the files in the order
of their names.  The name is a layout of fields of fixed width, so two names
are ordered as the wall clock reads (`journalName_lt_iff`), and replay follows
the order of creation just if the readings increase from one creation to the
next (`replay_in_creation_order_iff`).  Where the clock is set back at the end
of summer time they do not (`fall_back_replays_out_of_order`).
-/
import EmailService.CivilTime
import EmailService.DeadLetter

namespace EmailService

open CivilTime List

variable {α : Type}

/-! ### Names -/

/-- A host time zone: the offset from UTC in seconds, by the Unix time in
seconds.  Zone files hold offsets of 32 bits. -/
structure Zone where
  offset : ℤ → ℤ
  neg_le_offset : ∀ t, -2 ^ 31 ≤ offset t
  offset_lt : ∀ t, offset t < 2 ^ 31

variable (z : Zone)

/-- The local wall clock at `t`, in nanoseconds. -/
def Zone.wall (t : Time) : ℤ := t + z.offset (t / 1000000000) * 1000000000

/-- The same, counted from the beginning of year 1. -/
def Zone.reading (t : Time) : ℕ := (z.wall t - zeroTime).toNat

/-- `now.Format("20060102-150405")`, then `z` and `now.Nanosecond()` in nine
digits, then `.log`. -/
def nameLayout : List (ℕ × List Char) :=
  [(4, []), (2, []), (2, ['-']), (2, []), (2, []), (2, ['z']), (9, ['.', 'l', 'o', 'g'])]

/-- `journalName`. -/
def journalName (now : Time) : String :=
  "journal-" ++ String.ofList (render nameLayout (fields (z.reading now)))

/-- The instants the clock can show, up to the year 2262. -/
structure Representable (t : ℤ) : Prop where
  nonneg : 0 ≤ t
  lt : t < 2 ^ 63

theorem Zone.reading_lt_maxReading {t : Time} (h : Representable t) : z.reading t < maxReading := by
  have hlo := z.neg_le_offset (t / 1000000000)
  have hhi := z.offset_lt (t / 1000000000)
  have ht := h.lt
  unfold Zone.reading Zone.wall zeroTime maxReading
  omega

variable {t t' : Time}

theorem Zone.reading_lt_reading (h : Representable t) (hw : z.wall t < z.wall t') :
    z.reading t < z.reading t' := by
  have hlo := z.neg_le_offset (t / 1000000000)
  have ht := h.nonneg
  unfold Zone.reading zeroTime
  unfold Zone.wall at hw ⊢
  omega

theorem journalName_lt_of_wall_lt (h : Representable t) (h' : Representable t')
    (hw : z.wall t < z.wall t') : journalName z t < journalName z t' := by
  have hfields := fields_lt_fields (z.reading_lt_reading h hw)
  have hfits : ∀ {u}, Representable u → Fits nameLayout (fields (z.reading u)) :=
    fun hu => fits_fields (z.reading_lt_maxReading hu) _ _ _ _ _ _ _
  have hrender := render_lt_render (hfits h) (hfits h') hfields
  unfold journalName
  simp only [String.lt_iff_toList_lt, String.toList_append, String.toList_ofList]
  exact append_lt_append_left hrender _

/-- **Names are ordered as the wall clock reads.** -/
theorem journalName_lt_iff (h : Representable t) (h' : Representable t') :
    journalName z t < journalName z t' ↔ z.wall t < z.wall t' := by
  refine ⟨fun hlt => ?_, journalName_lt_of_wall_lt z h h'⟩
  rcases lt_trichotomy (z.wall t) (z.wall t') with hw | hw | hw
  · exact hw
  · -- one reading, one name
    have heq : journalName z t = journalName z t' := by
      unfold journalName Zone.reading
      rw [hw]
    exact absurd (heq ▸ hlt) (lt_irrefl _)
  · exact absurd hlt (journalName_lt_of_wall_lt z h' h hw).asymm

/-! ### Creations -/

/-- A journal file: when it is created, and what is written to it while it is
the active one. -/
structure Creation (α : Type) where
  instant : Time
  representable : Representable instant
  content : List α

/-- The file as it should come to be in the directory. -/
def Creation.file (c : Creation α) : String × List α :=
  (journalName z c.instant, c.content)

/-- Opening a file with `O_CREATE|O_APPEND` and writing to it: if the name is
taken, the content goes to the end of the file that has it. -/
def createFile (files : List (String × List α)) (f : String × List α) : List (String × List α) :=
  if f.1 ∈ files.map Prod.fst then
    files.map fun g => if g.1 = f.1 then (g.1, g.2 ++ f.2) else g
  else files ++ [f]

variable (cs : List (Creation α))

/-- The directory after some creations. -/
def createdFiles : List (String × List α) :=
  (cs.map (Creation.file z)).foldl createFile []

/-- What replaying in order of creation means: no two files share a name, the
order replay uses is the order of creation, and of the records in the files
that no checkpoint covers, recovery keeps for each message the last one
written. -/
structure ReplaysInCreationOrder (z : Zone) (cs : List (Creation α)) : Prop where
  distinct : (cs.map fun c => journalName z c.instant).Nodup
  order : glob (createdFiles z cs) = cs.map (Creation.file z)
  last : ∀ (F : JournalFormat α) (log : Creation α → List JournalEntry) (covered : List String),
    (∀ c ∈ cs, F.decode c.content = .ok (log c)) →
      ∃ t, recover F ⟨createdFiles z cs, covered⟩ = .ok t ∧ ∀ id, id ≠ "" →
        t.index id = (lastRecord ((cs.filter fun c => journalName z c.instant ∉ covered).flatMap log)
          id).bind fun e => (change e).2

theorem foldl_createFile {files fs : List (String × List α)}
    (h : ((files ++ fs).map Prod.fst).Nodup) : fs.foldl createFile files = files ++ fs := by
  induction fs generalizing files with
  | nil => rw [append_nil]; rfl
  | cons f fs ih =>
    have hsplit : files ++ f :: fs = (files ++ [f]) ++ fs := by simp
    have hfresh : f.1 ∉ files.map Prod.fst := by
      intro hmem
      rw [map_append, nodup_append] at h
      exact h.2.2 _ hmem _ (by simp) rfl
    rw [foldl_cons, createFile, if_neg hfresh, hsplit]
    apply ih
    rwa [← hsplit]

/-- Replaying files one after the other. -/
theorem replayFiles_creations {F : JournalFormat α} {log : Creation α → List JournalEntry}
    {z : Zone} {cs : List (Creation α)} (covered : List String)
    (h : ∀ c ∈ cs, F.decode c.content = .ok (log c)) :
    replayFiles F covered (cs.map (Creation.file z)) =
      .ok ((cs.filter fun c => journalName z c.instant ∉ covered).flatMap log) := by
  induction cs with
  | nil => rfl
  | cons c cs ih =>
    have hrest := ih fun c' hc' => h c' (mem_cons_of_mem _ hc')
    simp only [map_cons, Creation.file, replayFiles]
    by_cases hc : journalName z c.instant ∈ covered
    · rw [if_pos hc, filter_cons_of_neg (by simpa using hc)]
      exact hrest
    · rw [if_neg hc, h c mem_cons_self, filter_cons_of_pos (by simpa using hc),
        flatMap_cons]
      change (do let entries ← replayFiles F covered (cs.map (Creation.file z))
                 pure (log c ++ entries)) = _
      rw [hrest]
      rfl

/-! ### The order of replay -/

/-- The wall clock has moved forward from each creation to all later ones. -/
def WallIncreases : Prop :=
  cs.Pairwise fun a b => z.wall a.instant < z.wall b.instant

theorem wallIncreases_iff :
    WallIncreases z cs ↔
      cs.Pairwise fun a b => journalName z a.instant < journalName z b.instant := by
  have h : ∀ a b : Creation α, z.wall a.instant < z.wall b.instant ↔
      journalName z a.instant < journalName z b.instant :=
    fun a b => (journalName_lt_iff z a.representable b.representable).symm
  exact Pairwise.iff (fun {a b} => h a b)

/-- **Replay follows the order of creation just if the wall clock increases**
from one creation to the next. -/
theorem replay_in_creation_order_iff : ReplaysInCreationOrder z cs ↔ WallIncreases z cs := by
  rw [wallIncreases_iff]
  constructor
  · intro h
    -- the listing is sorted, and no two names are equal
    have hsorted : (cs.map (Creation.file z)).Pairwise fun f g => f.1 ≤ g.1 := by
      rw [← h.order]
      have htotal : Std.Total fun f g : String × List α => f.1 ≤ g.1 :=
        ⟨fun f g => le_total f.1 g.1⟩
      have htrans : IsTrans (String × List α) fun f g => f.1 ≤ g.1 :=
        ⟨fun _ _ _ hfg hgh => hfg.trans hgh⟩
      exact pairwise_insertionSort _ _
    have hne : cs.Pairwise fun a b => journalName z a.instant ≠ journalName z b.instant :=
      pairwise_map.mp h.distinct
    have hle := pairwise_map.mp hsorted
    exact hle.imp₂ (fun _ _ hab hab' => lt_of_le_of_ne hab hab') hne
  · intro h
    have hdistinct : (cs.map fun c => journalName z c.instant).Nodup :=
      pairwise_map.mpr (h.imp fun hab => hab.ne)
    have hcreated : createdFiles z cs = cs.map (Creation.file z) := by
      apply foldl_createFile
      rw [nil_append, map_map]
      exact hdistinct
    have hglob : glob (cs.map (Creation.file z)) = cs.map (Creation.file z) := by
      apply Pairwise.insertionSort_eq
      exact pairwise_map.mpr (h.imp fun hab => hab.le)
    refine ⟨hdistinct, by rw [hcreated, hglob], ?_⟩
    intro F log covered hlog
    have hreplay : replayFiles F covered (glob (createdFiles z cs)) =
        .ok ((cs.filter fun c => journalName z c.instant ∉ covered).flatMap log) := by
      rw [hcreated, hglob]
      exact replayFiles_creations covered hlog
    exact ⟨_, recover_of_replay hreplay, fun id hid => recoverAll_index _ hid⟩

/-! ### The end of summer time -/

/-- A zone that is an hour ahead until October 25, 2026, 01:00 UTC. -/
def summerTime : Zone where
  offset t := if t < 1792890000 then 3600 else 0
  neg_le_offset t := by split_ifs <;> decide
  offset_lt t := by split_ifs <;> decide

/-- Half an hour before the clock is set back a message is accepted. -/
def beforeFallBack : Creation JournalEntry where
  instant := 1792888200 * 1000000000
  representable := ⟨by decide, by decide⟩
  content := [{ firstMessage with status := "pending" }]

/-- Forty minutes later, after a restart, it is delivered. -/
def afterFallBack : Creation JournalEntry where
  instant := 1792890600 * 1000000000
  representable := ⟨by decide, by decide⟩
  content := [{ firstMessage with status := "delivered" }]

/-- **Out of order at the end of summer time**: the later file has the earlier
name, and recovery keeps the older record. -/
theorem fall_back_replays_out_of_order :
    beforeFallBack.instant < afterFallBack.instant ∧
      journalName summerTime beforeFallBack.instant = "journal-20261025-013000z000000000.log" ∧
      journalName summerTime afterFallBack.instant = "journal-20261025-011000z000000000.log" ∧
      ∃ t, recover recordFormat ⟨createdFiles summerTime [beforeFallBack, afterFallBack], []⟩ =
          .ok t ∧ (t.index "m1").map JournalEntry.status = some "pending" := by
  refine ⟨by decide, by decide, by decide, _, rfl, rfl⟩

end EmailService
