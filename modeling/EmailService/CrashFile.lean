/-
EmailService/CrashFile.lean

Append-only files under crashes, over an arbitrary alphabet of symbols.

A file keeps apart what `fsync` has made durable from what a crash may still
lose:

* `synced`  — survives every crash;
* `tail`    — written after it and visible to readers, but of it a crash keeps
  only some prefix;
* `residue` — written and then truncated away again, while the truncation
  itself has not been synced: a crash may bring a prefix of it back.

`Image f out` says that `out` may be found in place of `f` after a crash.

A directory entry has the same two lives: it may be created or removed without
that being durable yet, so a crash may lose a new entry and bring a removed one
back (`Survivors`).  `syncDir` settles both.
-/
import Mathlib

/-- A file as the operating system sees it: durable part, unsynced tail, and
what an unsynced truncation has cut off. -/
structure CrashFile (α : Type*) where
  synced : List α
  tail : List α
  residue : List α

namespace CrashFile

open List

variable {α : Type*}

/-- The empty file. -/
def empty : CrashFile α := ⟨[], [], []⟩

variable (f : CrashFile α)

/-- What a reader sees. -/
def content : List α := f.synced ++ f.tail

/-- `write`: symbols appended at the end. -/
def write (s : List α) : CrashFile α :=
  { f with tail := f.tail ++ s }

/-- `fsync`. -/
def sync : CrashFile α := ⟨f.content, [], []⟩

/-- `ftruncate`: the cut-off symbols stay recoverable until the next sync. -/
def truncate (n : ℕ) : CrashFile α :=
  { synced := f.synced.take n
    tail := (f.content.take n).drop f.synced.length
    residue := f.tail }

/-- What a crash may leave of the file. -/
def Image (out : List α) : Prop :=
  ∃ p, (p <+: f.tail ∨ p <+: f.residue) ∧ out = f.synced ++ p

/-- Every symbol is durable: a crash changes nothing. -/
def Clean : Prop := f.tail = [] ∧ f.residue = []

theorem clean_empty : (empty : CrashFile α).Clean := ⟨rfl, rfl⟩

@[simp] theorem content_write (s : List α) : (f.write s).content = f.content ++ s := by
  simp [content, write]

@[simp] theorem content_sync : f.sync.content = f.content := by
  simp [content, sync]

theorem clean_sync : f.sync.Clean := ⟨rfl, rfl⟩

variable {f : CrashFile α}

theorem Clean.content_eq (h : f.Clean) : f.content = f.synced := by
  simp [content, h.1]

theorem Clean.sync_eq (h : f.Clean) : f.sync = f := by
  obtain ⟨s, t, r⟩ := f
  obtain ⟨rfl, rfl⟩ : t = [] ∧ r = [] := h
  simp [sync, content]

/-- A clean file has one crash image: itself. -/
theorem Clean.image_iff (h : f.Clean) {out : List α} : f.Image out ↔ out = f.content := by
  constructor
  · rintro ⟨p, hp, rfl⟩
    have hnil : p = [] := by
      rcases hp with hp | hp
      · exact prefix_nil.mp (h.1 ▸ hp)
      · exact prefix_nil.mp (h.2 ▸ hp)
    rw [hnil, h.content_eq, append_nil]
  · rintro rfl
    exact ⟨[], .inl ( nil_prefix), by rw [h.content_eq, append_nil]⟩

/-- What is visible is one of the crash images. -/
theorem image_content (f : CrashFile α) : f.Image f.content :=
  ⟨f.tail, .inl prefix_rfl, rfl⟩

/-- **Rollback.**  Truncating back to the length a clean file had before a
write, and syncing, restores the file exactly. -/
theorem Clean.truncate_write (h : f.Clean) (s : List α) :
    ((f.write s).truncate f.content.length).sync = f := by
  obtain ⟨sy, t, r⟩ := f
  obtain ⟨rfl, rfl⟩ : t = [] ∧ r = [] := h
  simp [sync, truncate, write, content]

/-- Truncated but not synced: the visible content is the old one, and a crash
may keep a prefix of what was written. -/
theorem Clean.truncate_write_eq (h : f.Clean) (s : List α) :
    (f.write s).truncate f.content.length = ⟨f.synced, [], s⟩ := by
  obtain ⟨sy, t, r⟩ := f
  obtain ⟨rfl, rfl⟩ : t = [] ∧ r = [] := h
  simp [truncate, write, content]

end CrashFile

/-! ### Directories -/

/-- A named file of a directory.  `linked` says its creation is durable,
`unlinked` that it was removed without that being durable yet. -/
structure DirFile (α : Type*) where
  name : String
  data : CrashFile α
  linked : Bool
  unlinked : Bool

namespace DirFile

open List

variable {α : Type*}

/-- `open(O_CREAT)`: an empty file whose directory entry is not yet durable. -/
def create (name : String) : DirFile α := ⟨name, CrashFile.empty, false, false⟩

/-- `unlink`. -/
def remove (f : DirFile α) : DirFile α := { f with unlinked := true }

/-- The name and the content a reader of the directory finds. -/
def view (f : DirFile α) : String × List α := (f.name, f.data.content)

variable (fs : List (DirFile α))

/-- The files a reader of the directory finds. -/
def visible : List (String × List α) :=
  (fs.filter fun f => !f.unlinked).map view

/-- `fsync` of the directory: removals and creations become durable. -/
def syncDir : List (DirFile α) :=
  (fs.filter fun f => !f.unlinked).map fun f => { f with linked := true }

/-- `Survivors fs ds`: a crash may leave the files `ds` of the directory `fs`.
Only an entry whose creation or removal is not durable may be missing. -/
inductive Survivors : List (DirFile α) → List (String × List α) → Prop
  | nil : Survivors [] []
  | keep {f fs ds out} : f.data.Image out → Survivors fs ds →
      Survivors (f :: fs) ((f.name, out) :: ds)
  | lose {f fs ds} : f.linked = false ∨ f.unlinked = true → Survivors fs ds →
      Survivors (f :: fs) ds

/-- A settled entry: durably present with durable content. -/
structure Settled (f : DirFile α) : Prop where
  linked : f.linked = true
  unlinked : f.unlinked = false
  clean : f.data.Clean

theorem visible_append (gs : List (DirFile α)) : visible (fs ++ gs) = visible fs ++ visible gs := by
  simp [visible]

variable {f : DirFile α} {fs gs : List (DirFile α)} {ds : List (String × List α)}

theorem visible_cons_of_present (h : f.unlinked = false) (fs : List (DirFile α)) :
    visible (f :: fs) = f.view :: visible fs := by
  simp [visible, h]

/-- A directory of settled entries survives a crash as it stands. -/
theorem survivors_of_settled (h : ∀ f ∈ fs, Settled f) (hs : Survivors fs ds) :
    ds = visible fs := by
  induction hs with
  | nil => rfl
  | @keep f fs ds out himg _ ih =>
    have hf := h f mem_cons_self
    have hout : out = f.data.content := hf.clean.image_iff.mp himg
    rw [visible_cons_of_present hf.unlinked,
      ih fun g hg => h g (mem_cons_of_mem _ hg), hout]
    rfl
  | @lose f fs ds hlost _ ih =>
    have hf := h f mem_cons_self
    rcases hlost with hl | hl
    · rw [hf.linked] at hl; cases hl
    · rw [hf.unlinked] at hl; cases hl

/-- What a reader finds is one of the things a crash may leave. -/
theorem survivors_visible (fs : List (DirFile α)) : Survivors fs (visible fs) := by
  induction fs with
  | nil => exact .nil
  | cons f fs ih =>
    cases hf : f.unlinked with
    | false =>
      rw [visible_cons_of_present hf]
      exact .keep f.data.image_content ih
    | true =>
      have hvis : visible (f :: fs) = visible fs := by simp [visible, hf]
      rw [hvis]
      exact .lose (.inr hf) ih

/-- A crash may undo every removal. -/
theorem survivors_map_view (fs : List (DirFile α)) : Survivors fs (fs.map view) := by
  induction fs with
  | nil => exact .nil
  | cons f fs ih => exact .keep f.data.image_content ih

theorem Survivors.name_mem (h : Survivors fs ds) {d : String × List α} (hd : d ∈ ds) :
    ∃ f ∈ fs, f.name = d.1 := by
  induction h with
  | nil => cases hd
  | keep _ _ ih =>
    rcases mem_cons.mp hd with rfl | hd
    · exact ⟨_, mem_cons_self, rfl⟩
    · obtain ⟨f, hf, hn⟩ := ih hd
      exact ⟨f, mem_cons_of_mem _ hf, hn⟩
  | lose _ _ ih =>
    obtain ⟨f, hf, hn⟩ := ih hd
    exact ⟨f, mem_cons_of_mem _ hf, hn⟩

/-- A durably linked entry survives, with one of its images. -/
theorem Survivors.singleton_inv (hl : f.linked = true) (hu : f.unlinked = false)
    (h : Survivors [f] ds) : ∃ out, f.data.Image out ∧ ds = [(f.name, out)] := by
  cases h with
  | keep himg hrest => cases hrest; exact ⟨_, himg, rfl⟩
  | lose hlost _ => rcases hlost with h | h <;> simp [hl, hu] at h

/-- An entry that is not yet durable survives with one of its images or not at
all. -/
theorem Survivors.singleton_cases (h : Survivors [f] ds) :
    ds = [] ∨ ∃ out, f.data.Image out ∧ ds = [(f.name, out)] := by
  cases h with
  | keep himg hrest => cases hrest; exact .inr ⟨_, himg, rfl⟩
  | lose _ hrest => cases hrest; exact .inl rfl

/-- Syncing the directory leaves fewer possibilities to a crash. -/
theorem Survivors.of_syncDir (h : Survivors (syncDir fs) ds) : Survivors fs ds := by
  induction fs generalizing ds with
  | nil => exact h
  | cons f fs ih =>
    cases hf : f.unlinked with
    | true =>
      have hsync : syncDir (f :: fs) = syncDir fs := by simp [syncDir, hf]
      rw [hsync] at h
      exact .lose (.inr hf) (ih h)
    | false =>
      have hsync : syncDir (f :: fs) = { f with linked := true } :: syncDir fs := by
        simp [syncDir, hf]
      rw [hsync] at h
      cases h with
      | keep himg hrest => exact .keep himg (ih hrest)
      | lose hlost hrest => rcases hlost with h | h <;> simp [hf] at h

theorem mem_syncDir (h : f ∈ syncDir fs) :
    ∃ g ∈ fs, g.unlinked = false ∧ f = { g with linked := true } := by
  obtain ⟨g, hg, rfl⟩ := mem_map.mp h
  obtain ⟨hg, hu⟩ := mem_filter.mp hg
  exact ⟨g, hg, by simpa using hu, rfl⟩

theorem Survivors.append {ds' : List (String × List α)} (h : Survivors fs ds)
    (h' : Survivors gs ds') : Survivors (fs ++ gs) (ds ++ ds') := by
  induction h with
  | nil => exact h'
  | keep himg _ ih => exact .keep himg ih
  | lose hlost _ ih => exact .lose hlost ih

theorem Survivors.append_inv (h : Survivors (fs ++ gs) ds) :
    ∃ ds₁ ds₂, ds = ds₁ ++ ds₂ ∧ Survivors fs ds₁ ∧ Survivors gs ds₂ := by
  induction fs generalizing ds with
  | nil => exact ⟨[], ds, rfl, .nil, h⟩
  | cons f fs ih =>
    cases h with
    | keep himg hrest =>
      obtain ⟨ds₁, ds₂, rfl, h₁, h₂⟩ := ih hrest
      exact ⟨_ :: ds₁, ds₂, rfl, .keep himg h₁, h₂⟩
    | lose hlost hrest =>
      obtain ⟨ds₁, ds₂, rfl, h₁, h₂⟩ := ih hrest
      exact ⟨ds₁, ds₂, rfl, .lose hlost h₁, h₂⟩

end DirFile
