/-
EmailService/BackupRestore.lean

What `Create` archives, `Restore` installs again (internal/backup/backup.go), up
to the names that only one of them takes.

The proof has two halves that meet at `Recorded`.  An archive that was restored
has passed every check of the extraction, so that its names and its size are
within what the extraction takes; and an archive that is within it passes every
check.  `Restore` refuses names with a backslash.  A name that is not UTF-8 is
repaired in the JSON of the manifest, and is then missing from it.
-/
import EmailService.Backup

namespace EmailService.Backup

open GoPath Json Utf8 List Function
open Std (ExtTreeMap)

/-! ### Archiving -/

/-- An entry of the data directory that is not a directory. -/
structure Item where
  place : List Name
  regular : Bool := true
  data : List UInt8

/-- The place of an item is below the directory, and made of names. -/
structure Item.Named (f : Item) : Prop where
  ne_nil : f.place ≠ []
  proper : ∀ part ∈ f.place, Proper part

instance (f : Item) : Decidable f.Named :=
  decidable_of_iff (f.place ≠ [] ∧ ∀ part ∈ f.place, Proper part)
    ⟨fun h => ⟨h.1, h.2⟩, fun h => ⟨h.1, h.2⟩⟩

/-- A data directory, in the order in which it is walked.  No entry is below
another one. -/
structure DataDirectory where
  items : List Item
  named : ∀ f ∈ items, f.Named
  distinct : items.Pairwise fun f g => ¬ f.place <+: g.place ∧ ¬ g.place <+: f.place

def ownerLock : Name := bytes ".owner.lock"

/-- The relative path of an item, with slashes. -/
def Item.rel (f : Item) : List UInt8 := [47].intercalate f.place

inductive CreateFailure
  | refused (text : String)
  /-- `unsupported nonregular file: ` with a name -/
  | irregular (name : List UInt8)
  deriving DecidableEq

/-- What the walk adds to the archive and to the manifest. -/
def addItems : List Item → List Entry → StringMap → Except CreateFailure (List Entry × StringMap)
  | [], entries, files => .ok (entries, files)
  | f :: rest, entries, files =>
    if f.place.getLast? = some ownerLock then addItems rest entries files
    else if f.rel = manifestName then .error (.refused "reserved backup filename")
    else if !f.regular then .error (.irregular f.rel)
    else
      addItems rest (entries ++ [entryOf f.rel f.data])
        (files.insert f.rel (checksum f.data))

/-- The manifest as a JSON value. -/
def Manifest.value (m : Manifest) : Value :=
  .obj [(bytes "version", .num (decimalInt m.version)),
    (bytes "created", .str (Rfc3339.format 0 m.created)),
    (bytes "files", .obj (m.files.toList.map fun f => (f.1, .str f.2)))]

/-- `Create` at a time, with nothing failing around it. -/
def create (now : ℤ) (d : DataDirectory) : Except CreateFailure Archive :=
  if [bytes "mail-storage", ownerLock] ∉ d.items.map Item.place then
    .error (.refused "open spool ownership lock")
  else
    match addItems d.items [] ∅ with
    | .error err => .error err
    | .ok (entries, files) =>
      -- a time of another year has no JSON
      if ¬ Rfc3339.FourDigits 0 now then
        .error (.refused "Time.MarshalJSON: year outside of range [0,9999]")
      else
        let raw := (Manifest.value { version := 1, created := now, files := files }).print
        .ok { entries := entries ++ [entryOf manifestName raw] }

/-- `Restore` by way of the directory `stage`, with nothing failing around it and
databases that pass their checks: the files below the target. -/
def restore (stage : List Name) (archive : Archive) (maxBytes : ℤ) :
    Except Failure (List (List Name × List UInt8)) :=
  match extract stage {} (.ok archive) maxBytes with
  | (_, some err) => .error err
  | (p, none) => .ok (p.files.map fun f => (f.place.drop stage.length, f.data))

/-! ### What is archived -/

/-- The items without the locks. -/
def DataDirectory.archived (d : DataDirectory) : List Item :=
  d.items.filter (·.place.getLast? ≠ some ownerLock)

/-- The entry of an item. -/
def Item.entry (f : Item) : Entry := entryOf f.rel f.data

/-- The checksums of the archived items. -/
def filesOf (items : List Item) : StringMap :=
  items.foldl (fun files f => files.insert f.rel (checksum f.data)) ∅

/-- The manifest of a data directory. -/
def DataDirectory.manifest (d : DataDirectory) (now : ℤ) : Manifest :=
  { version := 1, created := now, files := filesOf d.archived }

section Create

variable {d : DataDirectory} {now : ℤ} {archive : Archive}

theorem addItems_ok {items : List Item} {entries entries' : List Entry} {files files' : StringMap}
    (h : addItems items entries files = .ok (entries', files')) :
    let kept := items.filter (·.place.getLast? ≠ some ownerLock)
    entries' = entries ++ kept.map Item.entry ∧
      files' = kept.foldl (fun files f => files.insert f.rel (checksum f.data)) files ∧
      ∀ f ∈ kept, f.rel ≠ manifestName := by
  induction items generalizing entries files with
  | nil =>
    cases h
    exact ⟨(append_nil _).symm, rfl, nofun⟩
  | cons f rest ih =>
    rw [addItems] at h
    dsimp only
    split at h
    · next hlock =>
      rw [filter_cons_of_neg (by simpa using hlock)]
      exact ih h
    next hlock =>
    split at h
    · cases h
    next hname =>
    split at h
    · cases h
    rw [filter_cons_of_pos (by simpa using hlock)]
    obtain ⟨hentries, hfiles, hnames⟩ := ih h
    refine ⟨?_, hfiles, forall_mem_cons.mpr ⟨hname, hnames⟩⟩
    rw [hentries, append_assoc]
    rfl

theorem create_ok (h : create now d = .ok archive) :
    archive = { entries := d.archived.map Item.entry ++
      [entryOf manifestName (d.manifest now).value.print] } ∧
    (∀ f ∈ d.archived, f.rel ≠ manifestName) ∧ Rfc3339.FourDigits 0 now := by
  unfold create at h
  split at h
  · cases h
  split at h
  · cases h
  next entries files hadd =>
  split at h
  · cases h
  next hyear =>
  cases h
  obtain ⟨rfl, rfl, hnames⟩ := addItems_ok hadd
  exact ⟨rfl, hnames, not_not.mp hyear⟩

end Create

/-! ### The manifest and its JSON -/

section Json

/-- A map with the pairs put in one after the other. -/
def putAll (pairs : List (List UInt8 × List UInt8)) (files : StringMap) : StringMap :=
  pairs.foldl (fun files f => files.insert f.1 f.2) files

variable {pairs : List (List UInt8 × List UInt8)} {files : StringMap}

theorem getElem?_putAll (h : (pairs.map Prod.fst).Nodup) (k v : List UInt8) :
    (putAll pairs files)[k]? = some v ↔
      (k, v) ∈ pairs ∨ k ∉ pairs.map Prod.fst ∧ files[k]? = some v := by
  induction pairs generalizing files with
  | nil => simp [putAll]
  | cons pair pairs ih =>
    obtain ⟨hnew, hnodup⟩ := nodup_cons.mp h
    have hput : putAll (pair :: pairs) files = putAll pairs (files.insert pair.1 pair.2) := rfl
    rw [hput, ih hnodup, ExtTreeMap.getElem?_insert, mem_cons, map_cons, mem_cons]
    by_cases hk : k = pair.1
    · subst hk
      have hnot : (pair.1, v) ∉ pairs := fun hmem => hnew (mem_map.mpr ⟨_, hmem, rfl⟩)
      simp [hnot, hnew, Prod.ext_iff, eq_comm]
    · have hne : compare pair.1 k ≠ .eq := fun heq =>
        hk (Std.LawfulEqCmp.compare_eq_iff_eq.mp heq).symm
      have hpair : (k, v) ≠ pair := fun heq => hk (congrArg Prod.fst heq)
      simp [hne, hk, hpair]

theorem mem_putAll {k v : List UInt8} (h : (putAll pairs files)[k]? = some v) :
    k ∈ pairs.map Prod.fst ∨ files[k]? = some v := by
  induction pairs generalizing files with
  | nil => exact .inr h
  | cons pair pairs ih =>
    rcases ih h with hmem | hget
    · exact .inl (mem_cons_of_mem _ hmem)
    · rw [ExtTreeMap.getElem?_insert] at hget
      split at hget
      · next heq =>
        exact .inl (Std.LawfulEqCmp.compare_eq_iff_eq.mp heq ▸ mem_cons_self)
      · exact .inr hget

theorem nodup_keys (files : StringMap) : (files.toList.map Prod.fst).Nodup := by
  rw [Nodup, pairwise_map]
  refine ExtTreeMap.distinct_keys_toList.imp ?_
  intro x y hne heq
  exact hne (Std.LawfulEqCmp.compare_eq_iff_eq.mpr heq)

theorem putAll_toList (files : StringMap) : putAll files.toList ∅ = files := by
  refine ExtTreeMap.ext_getElem? fun k => Option.ext fun v => ?_
  rw [getElem?_putAll (nodup_keys files), ExtTreeMap.mem_toList_iff_getElem?_eq_some]
  simp

/-- Printed pairs, as they are read back. -/
def repairPair (f : List UInt8 × List UInt8) : List UInt8 × List UInt8 := (repair f.1, repair f.2)

theorem storeFiles_repaired (pairs : List (List UInt8 × List UInt8)) (files : StringMap) :
    storeFiles (repairedMembers (pairs.map fun f => (f.1, .str f.2))) files =
      some (putAll (pairs.map repairPair) files) := by
  induction pairs generalizing files with
  | nil => rfl
  | cons pair pairs ih =>
    rw [map_cons, repairedMembers, Value.repaired, storeFiles, ih]
    rfl

theorem soundMembers_strings (pairs : List (List UInt8 × List UInt8)) :
    SoundMembers (pairs.map fun f => (f.1, .str f.2)) := by
  induction pairs with
  | nil => trivial
  | cons pair pairs ih => exact ⟨sound_str _, ih⟩

theorem sound_value (m : Manifest) : m.value.Sound := by
  refine ⟨sound_decimalInt _, sound_str _, ?_, trivial⟩
  rw [Value.Sound]
  exact soundMembers_strings _

/-- **A manifest is read back with its names and checksums repaired.** -/
theorem decodeManifest_print {m : Manifest} (hversion : m.version = 1)
    (hyear : Rfc3339.FourDigits 0 m.created) :
    decodeManifest m.value.print =
      some { m with files := putAll (m.files.toList.map repairPair) ∅ } := by
  have hstops : Stops [] := by
    rintro _ ⟨⟩
  have hvalue := value_print (sound_value m) hstops (n := budget m.value.print)
    (by rw [budget]; omega)
  rw [append_nil] at hvalue
  have htime := repair_format hyear
  have hversion' : fieldOf manifestFields (bytes "version") = some ⟨_, _⟩ := rfl
  have hcreated : fieldOf manifestFields (bytes "created") = some ⟨_, _⟩ := rfl
  have hfiles : fieldOf manifestFields (bytes "files") = some ⟨_, _⟩ := rfl
  have hint : -2 ^ 63 ≤ m.version ∧ m.version < 2 ^ 63 := by rw [hversion]; decide
  have hstore := storeInt_decimalInt hint fun z (m : Manifest) => { m with version := z }
  have hstore' := storeTime_format hyear fun t (m : Manifest) => { m with created := t }
  rw [decodeManifest, hvalue]
  simp only [Manifest.value, Value.repaired, repairedMembers, repair_bytes, htime, storeStruct,
    storeMembers, hversion', hcreated, hfiles, hstore, hstore', Option.bind_some,
    Option.map_some, storeFiles_repaired]

end Json

/-! ### Names -/

section Names

variable {stage : List Name} {f g : Item}

theorem Item.Named.ofText_rel (h : f.Named) : ofText f.rel = ⟨false, f.place⟩ :=
  ofText_intercalate h.proper h.ne_nil

theorem Item.Named.rel_injective (hf : f.Named) (hg : g.Named) (h : f.rel = g.rel) :
    f.place = g.place :=
  congrArg Path.parts (hf.ofText_rel.symm.trans (h ▸ hg.ofText_rel))

/-- An item comes to its place below the stage. -/
theorem Item.Named.placeOf_rel (h : f.Named) (hstage : ∀ part ∈ stage, Proper part) :
    placeOf stage f.rel = stage ++ f.place := by
  rw [placeOf, h.ofText_rel, clean_of_proper]
  exact forall_mem_append.mpr ⟨hstage, h.proper⟩

/-- No item has the name of something that is not in a directory. -/
theorem Item.Named.rel_ne (h : f.Named) {name : Name} (hname : (ofText name).parts = [name])
    (hnot : ¬ Proper name) : f.rel ≠ name := by
  intro heq
  have hplace : f.place = [name] := by
    rw [← hname, ← heq, h.ofText_rel]
  exact hnot (h.proper name (hplace ▸ mem_cons_self))

theorem Item.Named.text_rel (h : f.Named) : (ofText f.rel).clean.text = f.rel := by
  rw [h.ofText_rel, clean_of_proper h.proper, Path.text, if_neg nofun, if_neg h.ne_nil]
  rfl

end Names

/-! ### Extraction of an archive -/

section Extraction

variable {stage : List Name} {maxBytes : ℤ} {round : ℕ} {e : Entry} {p : Progress}
  {done : List Entry} {f : Item}

theorem extractEntry_file (faults : Faults) (he : Accepted stage maxBytes e p)
    (hfile : AcceptedFile e p) : extractEntry stage faults maxBytes round e p =
      createFile stage faults round e (placeOf stage e.header.name) (p.count e) := by
  unfold extractEntry
  have hsize := he.size
  have hlimit := he.limit
  have hcount := hfile.count
  dsimp only
  rw [if_neg (by simp [he.typeflag, he.name, he.rooted, he.clean, he.backslash]),
    if_neg (by simp [he.inside, he.ne_dot]), if_neg (by omega), if_neg hfile.name,
    if_neg (by omega), if_neg (by simp [hfile.unseen])]
  rfl

theorem extractEntry_manifest (faults : Faults) (he : Accepted stage maxBytes e p) {m : Manifest}
    (hm : AcceptedManifest e p m) : extractEntry stage faults maxBytes round e p =
      ({ p.count e with manifest := some m }, none) := by
  unfold extractEntry
  have hsize := he.size
  have hlimit := he.limit
  have hlarge := hm.size
  dsimp only
  rw [if_neg (by simp [he.typeflag, he.name, he.rooted, he.clean, he.backslash]),
    if_neg (by simp [he.inside, he.ne_dot]), if_neg (by omega), if_pos hm.name,
    if_neg (by simp [hm.first]), if_neg (by omega), hm.decoded]
  rfl

/-- A file is created where nothing is, and no file above it. -/
theorem createFile_ok {place : List Name} (hfault : e.fault = none)
    (habove : ∀ g ∈ p.files, ¬ g.place <+: place)
    (hfree : ¬ taken stage p place) (hne : place ≠ []) :
    ∃ q, createFile stage {} round e place p = (q, none) := by
  have hmkdir : mkdirAll stage none place.dropLast p =
      ({ p with dirs := place.dropLast.inits.filter (¬ taken stage p ·) ++ p.dirs }, none) := by
    unfold mkdirAll
    rw [if_neg]
    rw [any_eq_true]
    rintro ⟨d, hd, hmem⟩
    rw [decide_eq_true_eq, mem_map] at hmem
    obtain ⟨g, hg, rfl⟩ := hmem
    exact habove g hg (((mem_inits _ _).mp hd).trans ( dropLast_prefix _))
  unfold createFile
  rw [hmkdir]
  dsimp only
  rw [if_neg, copied]
  · dsimp only
    rw [hfault]
    exact ⟨_, rfl⟩
  · rintro (hroot | hdir | hfile)
    · exact hfree (.inl hroot)
    · rcases mem_append.mp hdir with hnew | hold
      · -- a new directory is shorter
        have hle := ((mem_inits _ _).mp (mem_filter.mp hnew).1).length_le
        have hpos := length_pos_iff.mpr hne
        rw [length_dropLast] at hle
        omega
      · exact hfree (.inr (.inl hold))
    · exact hfree (.inr (.inr hfile))

/-- What the extraction takes of an item. -/
structure Item.Extractable (f : Item) : Prop extends f.Named where
  ne_manifest : f.rel ≠ manifestName
  backslash : 92 ∉ f.rel

/-- The entry of an item is accepted if it fits. -/
theorem Item.Named.accepted (h : f.Named) (hslash : 92 ∉ f.rel)
    (hstage : ∀ part ∈ stage, Proper part) (hlimit : p.total + f.data.length ≤ maxBytes) :
    Accepted stage maxBytes f.entry p where
  typeflag := rfl
  name := h.rel_ne (by decide) (by decide)
  rooted := by
    show (ofText f.rel).rooted = false
    rw [h.ofText_rel]
  clean := h.text_rel
  backslash := hslash
  inside := by
    show inside stage (placeOf stage f.rel) = true
    rw [h.placeOf_rel hstage, inside, (leavesUp_relative _).mpr (prefix_append _ _)]
    · rfl
    · exact forall_mem_append.mpr ⟨hstage, h.proper⟩
  ne_dot := h.rel_ne (by decide) (by decide)
  size := Int.natCast_nonneg _
  limit := by
    show (f.data.length : ℤ) ≤ maxBytes - p.total
    omega

/-- The bytes of the items. -/
def totalSize (items : List Item) : ℤ := (items.map fun f => (f.data.length : ℤ)).sum

/-- Items that can be extracted side by side. -/
structure Extractables (stage : List Name) (maxBytes : ℤ) (items : List Item) : Prop where
  proper : ∀ part ∈ stage, Proper part
  each : ∀ f ∈ items, f.Extractable
  distinct : items.Pairwise fun f g => ¬ f.place <+: g.place ∧ ¬ g.place <+: f.place
  count : items.length ≤ 1000000
  size : totalSize items ≤ maxBytes

variable {before rest : List Item}

theorem filter_entries (h : ∀ f ∈ before, f.Extractable) :
    (before.map Item.entry).filter (!·.isManifest) = before.map Item.entry := by
  refine filter_eq_self.mpr fun e he => ?_
  obtain ⟨f, hf, rfl⟩ := mem_map.mp he
  rw [Bool.not_eq_true', Entry.isManifest, decide_eq_false_iff_not]
  exact (h f hf).ne_manifest

theorem filter_manifest (h : ∀ f ∈ before, f.Extractable) :
    (before.map Item.entry).filter (·.isManifest) = [] := by
  refine filter_eq_nil_iff.mpr fun e he => ?_
  obtain ⟨f, hf, rfl⟩ := mem_map.mp he
  rw [Entry.isManifest, decide_eq_true_eq]
  exact (h f hf).ne_manifest

section

variable (h : Recorded stage (before.map Item.entry) p)

include h

theorem Recorded.mem_files (hitems : ∀ f ∈ before, f.Extractable)
    (hstage : ∀ part ∈ stage, Proper part) {file : File} :
    file ∈ p.files ↔ ∃ g ∈ before, file = ⟨g.rel, stage ++ g.place, g.data⟩ := by
  rw [h.files, mem_reverse, filter_entries hitems, map_map, mem_map]
  refine exists_congr fun g => and_congr_right fun hg => ?_
  rw [comp_apply, fileOf]
  show _ = _ ↔ _
  have hplace : placeOf stage g.entry.header.name = stage ++ g.place :=
    (hitems g hg).placeOf_rel hstage
  rw [hplace]
  exact eq_comm

/-- **One more item is extracted.** -/
theorem Recorded.extract_item (hall : Extractables stage maxBytes (before ++ f :: rest))
    (round : ℕ) :
    ∃ q, Backup.extractEntry stage {} maxBytes round f.entry p = (q, none) := by
  have hitems : ∀ g ∈ before, g.Extractable := fun g hg =>
    hall.each g (mem_append_left _ hg)
  have hf := hall.each f (by simp)
  have hapart : ∀ g ∈ before, ¬ g.place <+: f.place ∧ ¬ f.place <+: g.place := fun g hg =>
    (pairwise_append.mp hall.distinct).2.2 g hg f mem_cons_self
  have hmem : ∀ {file : File}, file ∈ p.files ↔
      ∃ g ∈ before, file = ⟨g.rel, stage ++ g.place, g.data⟩ := h.mem_files hitems hall.proper
  have hlimit : p.total + f.data.length ≤ maxBytes := by
    have hsize := hall.size
    have hrest : 0 ≤ totalSize rest := sum_nonneg (by simp)
    have htotal : p.total = totalSize before := by
      rw [h.total, map_map]
      rfl
    have hsplit : totalSize (before ++ f :: rest) =
        totalSize before + (f.data.length + totalSize rest) := by
      simp [totalSize]
    omega
  have hfile : AcceptedFile f.entry p := by
    refine ⟨hf.ne_manifest, ?_, h.unseen.mpr fun hname => ?_⟩
    · have hcount := hall.count
      have hlength : p.files.length = before.length := by
        rw [h.files, length_reverse, length_map, filter_entries hitems, length_map]
      rw [length_append, length_cons] at hcount
      rw [h.size, hlength]
      omega
    · obtain ⟨file, hfile, hrel⟩ := mem_map.mp hname
      obtain ⟨g, hg, rfl⟩ := hmem.mp hfile
      have hplace := (hitems g hg).rel_injective hf.toNamed hrel
      exact (hapart g hg).1 (hplace ▸ prefix_rfl)
  rw [extractEntry_file {} (hf.accepted hf.backslash hall.proper hlimit) hfile]
  have hplace : placeOf stage f.entry.header.name = stage ++ f.place := hf.placeOf_rel hall.proper
  rw [hplace]
  refine createFile_ok rfl (fun file hfile => ?_) ?_ (by simp [hf.ne_nil])
  · obtain ⟨g, hg, rfl⟩ := hmem.mp hfile
    exact fun hprefix => (hapart g hg).1 ((prefix_append_right_inj _).mp hprefix)
  · rintro (hroot | hdir | hfile)
    · have hle := hroot.length_le
      have hpos := length_pos_iff.mpr hf.ne_nil
      rw [length_append] at hle
      omega
    · obtain ⟨file, hfile, hprefix⟩ := h.dirs _ hdir
      obtain ⟨g, hg, rfl⟩ := hmem.mp hfile
      have hprefix' := hprefix.trans ( dropLast_prefix _)
      exact (hapart g hg).2 ((prefix_append_right_inj _).mp hprefix')
    · obtain ⟨file, hfile, hsame⟩ := mem_map.mp hfile
      obtain ⟨g, hg, rfl⟩ := hmem.mp hfile
      exact (hapart g hg).1 (append_cancel_left hsame ▸ prefix_rfl)

/-- **All items are extracted, one after the other.** -/
theorem Recorded.extract_items (hall : Extractables stage maxBytes (before ++ rest))
    (tail : List Entry) (round : ℕ) :
    ∃ q, Backup.extractEntries stage {} maxBytes round (rest.map Item.entry ++ tail) p =
        Backup.extractEntries stage {} maxBytes (round + rest.length) tail q ∧
      Recorded stage ((before ++ rest).map Item.entry) q := by
  induction rest generalizing before p round with
  | nil => exact ⟨p, rfl, by rwa [append_nil]⟩
  | cons f rest ih =>
    obtain ⟨q, hstep⟩ := h.extract_item hall round
    have hrec := h.extractEntry hstep
    rw [← map_singleton, ← map_append] at hrec
    rw [append_cons] at hall
    obtain ⟨q', hrun, hrec'⟩ := ih hrec hall (round + 1)
    refine ⟨q', ?_, by rwa [append_cons]⟩
    rw [map_cons, cons_append, Backup.extractEntries]
    dsimp only
    rw [hstep]
    dsimp only
    rw [hrun, length_cons, Nat.add_assoc, Nat.add_comm 1]

end

end Extraction

/-! ### The round trip -/

section RoundTrip

variable {stage : List Name} {maxBytes now : ℤ} {d : DataDirectory} {archive : Archive}
  {p : Progress}

/-- The archive is restored, with the files it was made of. -/
def Restores (stage : List Name) (archive : Archive) (maxBytes : ℤ) (d : DataDirectory) : Prop :=
  ∃ installed, restore stage archive maxBytes = .ok installed ∧
    installed.Perm (d.archived.map fun f => (f.place, f.data))

/-- The condition: names that both sides take, and not too many of them. -/
structure Portable (d : DataDirectory) (now : ℤ) : Prop where
  backslash : ∀ f ∈ d.archived, 92 ∉ f.rel
  utf8 : ∀ f ∈ d.archived, Valid f.rel
  count : d.archived.length ≤ 1000000
  manifest : (d.manifest now).value.print.length ≤ 64 * 2 ^ 20

theorem named_archived {f : Item} (h : f ∈ d.archived) : f.Named :=
  d.named f (mem_filter.mp h).1

theorem distinct_archived :
    d.archived.Pairwise fun f g => ¬ f.place <+: g.place ∧ ¬ g.place <+: f.place :=
  d.distinct.filter _

theorem nodup_names (d : DataDirectory) : (d.archived.map Item.rel).Nodup := by
  rw [Nodup, pairwise_map]
  refine .imp_of_mem ?_ distinct_archived
  intro f g hf hg hapart heq
  have hplace := (named_archived hf).rel_injective (named_archived hg) heq
  exact hapart.1 (hplace ▸ prefix_rfl)

/-- What the manifest says of a name. -/
theorem getElem?_filesOf (d : DataDirectory) (name digest : List UInt8) :
    (filesOf d.archived)[name]? = some digest ↔
      ∃ f ∈ d.archived, f.rel = name ∧ checksum f.data = digest := by
  have hput : filesOf d.archived =
      putAll (d.archived.map fun f => (f.rel, checksum f.data)) ∅ := by
    rw [filesOf, putAll, foldl_map]
  rw [hput, getElem?_putAll]
  · simp
  · rw [map_map]
    exact nodup_names d

theorem valid_checksum (data : List UInt8) : Valid (checksum data) :=
  valid_of_ascii fun b hb => ((printed_hexEncode _).2 b hb).2

/-- The manifest is read back with its names repaired. -/
theorem decode_manifest (d : DataDirectory) (hyear : Rfc3339.FourDigits 0 now) :
    decodeManifest (d.manifest now).value.print = some { d.manifest now with
      files := putAll ((filesOf d.archived).toList.map repairPair) ∅ } := by
  have hversion : (d.manifest now).version = 1 := by rw [DataDirectory.manifest]
  have hcreated : (d.manifest now).created = now := by rw [DataDirectory.manifest]
  exact decodeManifest_print hversion (hcreated ▸ hyear)

/-- Names in UTF-8 are read back from the manifest. -/
theorem decode_of_utf8 (hyear : Rfc3339.FourDigits 0 now) (h : ∀ f ∈ d.archived, Valid f.rel) :
    decodeManifest (d.manifest now).value.print = some (d.manifest now) := by
  have hsame : (filesOf d.archived).toList.map repairPair = (filesOf d.archived).toList := by
    refine (map_congr_left fun pair hpair => ?_).trans (map_id _)
    obtain ⟨name, digest⟩ := pair
    rw [ExtTreeMap.mem_toList_iff_getElem?_eq_some, getElem?_filesOf] at hpair
    obtain ⟨f, hf, rfl, rfl⟩ := hpair
    rw [repairPair, repair_of_valid (h f hf), repair_of_valid (valid_checksum f.data), id]
  rw [decode_manifest d hyear, hsame, putAll_toList, DataDirectory.manifest]

/-- A name that is read back from the manifest is in UTF-8. -/
theorem valid_of_decode (hyear : Rfc3339.FourDigits 0 now) {m : Manifest}
    (h : decodeManifest (d.manifest now).value.print = some m) {name digest : List UInt8}
    (hname : m.files[name]? = some digest) : Valid name := by
  rw [decode_manifest d hyear, Option.some.injEq] at h
  subst h
  rcases mem_putAll hname with hmem | hnone
  · rw [map_map, mem_map] at hmem
    obtain ⟨pair, -, rfl⟩ := hmem
    exact valid_repair _
  · simp at hnone

/-- The manifest as the last item of the archive. -/
def manifestItem (raw : List UInt8) : Item := { place := [manifestName], data := raw }

theorem named_manifestItem (raw : List UInt8) : (manifestItem raw).Named where
  ne_nil := cons_ne_nil _ _
  proper := forall_mem_singleton.mpr (by decide +kernel)

section

variable (hcreate : create now d = .ok archive)

include hcreate

/-- A restored archive was within what the extraction takes. -/
theorem portable_of_restore {installed : List (List Name × List UInt8)}
    (h : restore stage archive maxBytes = .ok installed) : Portable d now := by
  obtain ⟨rfl, hnames, hyear⟩ := create_ok hcreate
  unfold restore at h
  split at h
  · cases h
  next p hextract =>
  unfold extract at hextract
  split at hextract
  · cases hextract
  dsimp only at hextract
  split at hextract
  · cases hextract
  next q hrun =>
  rw [Prod.mk.injEq] at hextract
  obtain ⟨rfl, hfinish⟩ := hextract
  have hrec := recorded_nil.extractEntries hrun
  rw [nil_append] at hrec
  obtain ⟨-, -, -, m, hm, -, hfiles⟩ := (finish_eq_none _ _ hrec).mp hfinish
  have hextractable : ∀ f ∈ d.archived, f.Extractable := fun f hf =>
    ⟨named_archived hf, hnames f hf,
      (hrec.passed f.entry (mem_append_left _ (mem_map_of_mem hf))).1⟩
  have hlast : (entryOf manifestName (d.manifest now).value.print).isManifest = true :=
    decide_eq_true rfl
  have hfilter := filter_entries hextractable
  refine ⟨fun f hf => (hextractable f hf).backslash, fun f hf => ?_, ?_, ?_⟩
  · -- the name was recorded, so the manifest has it
    have hdecoded : decodeManifest (d.manifest now).value.print = some m := by
      have hmanifest := hrec.manifest
      rw [filter_append, filter_manifest hextractable, filter_cons_of_pos hlast, hm]
        at hmanifest
      exact (cons.inj hmanifest).1
    have hhash : m.files[f.rel]? = some (checksum f.data) := by
      rw [hfiles, hrec.hashes]
      refine ⟨fileOf stage f.entry, ?_, rfl, rfl⟩
      rw [hrec.files, mem_reverse]
      refine mem_map_of_mem (mem_filter.mpr ⟨?_, ?_⟩)
      · exact mem_append_left _ (mem_map_of_mem hf)
      · rw [Bool.not_eq_true', Entry.isManifest, decide_eq_false_iff_not]
        exact hnames f hf
    exact valid_of_decode hyear hdecoded hhash
  · have hcount := hrec.count
    rw [hrec.size, hrec.files, length_reverse, length_map, filter_append, hfilter,
      length_append, length_map] at hcount
    omega
  · have hpassed := (hrec.passed _ (mem_append_right _ mem_cons_self)).2.1 hlast
    exact Int.ofNat_le.mp hpassed

/-- An archive of portable names is extracted. -/
theorem extract_of_portable (h : Portable d now)
    (hstage : ∀ part ∈ stage, Proper part)
    (hlimit : (archive.entries.map (·.header.size)).sum ≤ maxBytes) :
    ∃ p, extract stage {} (.ok archive) maxBytes = (p, none) ∧
      Recorded stage archive.entries p := by
  obtain ⟨rfl, hnames, hyear⟩ := create_ok hcreate
  have hextractable : ∀ f ∈ d.archived, f.Extractable := fun f hf =>
    ⟨named_archived hf, hnames f hf, h.backslash f hf⟩
  have hsplit : totalSize d.archived + ((d.manifest now).value.print.length : ℤ) ≤ maxBytes := by
    rw [map_append, map_map, sum_append, map_singleton, sum_singleton]
      at hlimit
    exact hlimit
  have hpos : 0 < (d.manifest now).value.print.length := by
    rw [Manifest.value, Value.print]
    exact Nat.succ_pos _
  have hsum : 0 ≤ totalSize d.archived := sum_nonneg (by simp)
  have hall : Extractables stage maxBytes ([] ++ d.archived) :=
    ⟨hstage, hextractable, distinct_archived, h.count, by
      rw [nil_append]
      omega⟩
  have hnil : Recorded stage (([] : List Item).map Item.entry) {} := recorded_nil
  obtain ⟨q, hrun, hrec⟩ := hnil.extract_items hall
    [entryOf manifestName (d.manifest now).value.print] 0
  rw [nil_append] at hrec
  have hrel : (manifestItem (d.manifest now).value.print).rel = manifestName :=
    intercalate_singleton ..
  have hlast : (manifestItem (d.manifest now).value.print).entry =
      entryOf manifestName (d.manifest now).value.print := by
    rw [Item.entry, hrel, manifestItem]
  have haccepted :
      Accepted stage maxBytes (entryOf manifestName (d.manifest now).value.print) q := by
    rw [← hlast]
    refine (named_manifestItem _).accepted (hrel ▸ by decide +kernel) hstage ?_
    have htotal : q.total = totalSize d.archived := by
      rw [hrec.total, map_map]
      rfl
    rw [htotal]
    exact hsplit
  have hmanifest : AcceptedManifest (entryOf manifestName (d.manifest now).value.print) q
      (d.manifest now) := by
    refine ⟨rfl, ?_, Int.ofNat_le.mpr h.manifest, decode_of_utf8 hyear h.utf8⟩
    have hnone := hrec.manifest
    rw [filter_manifest hextractable, map_nil] at hnone
    exact Option.toList_eq_nil_iff.mp (map_eq_nil_iff.mp hnone.symm)
  have hrec' := hrec.takeManifest haccepted hmanifest
  -- the manifest has what was recorded
  have hfiles : (d.manifest now).files = q.hashes := by
    refine ExtTreeMap.ext_getElem? fun name => Option.ext fun digest => ?_
    show (filesOf d.archived)[name]? = some digest ↔ q.hashes[name]? = some digest
    rw [getElem?_filesOf, hrec.hashes]
    constructor
    · rintro ⟨f, hf, hname, hdigest⟩
      exact ⟨_, (hrec.mem_files hextractable hstage).mpr ⟨f, hf, rfl⟩, hname, hdigest⟩
    · rintro ⟨file, hfile, hname, hdigest⟩
      obtain ⟨f, hf, rfl⟩ := (hrec.mem_files hextractable hstage).mp hfile
      exact ⟨f, hf, hname, hdigest⟩
  have hfinish := (finish_eq_none { entries := d.archived.map Item.entry ++
    [entryOf manifestName (d.manifest now).value.print] } none hrec').mpr
    ⟨rfl, rfl, rfl, _, rfl, rfl, hfiles⟩
  refine ⟨_, ?_, hrec'⟩
  rw [extract, if_neg (by omega)]
  dsimp only
  rw [hrun, extractEntries]
  dsimp only
  rw [extractEntry_manifest {} haccepted hmanifest]
  dsimp only
  rw [extractEntries]
  exact Prod.ext rfl hfinish

/-- **A backup is restored exactly if its names are portable** and the manifest is
not too large. -/
theorem restores_iff (hstage : ∀ part ∈ stage, Proper part)
    (hlimit : (archive.entries.map (·.header.size)).sum ≤ maxBytes) :
    Restores stage archive maxBytes d ↔ Portable d now := by
  constructor
  · rintro ⟨installed, hinstalled, -⟩
    exact portable_of_restore hcreate hinstalled
  · intro h
    obtain ⟨p, hextract, hrec⟩ := extract_of_portable hcreate h hstage hlimit
    obtain ⟨rfl, hnames, -⟩ := create_ok hcreate
    have hextractable : ∀ f ∈ d.archived, f.Extractable := fun f hf =>
      ⟨named_archived hf, hnames f hf, h.backslash f hf⟩
    have hlast : (entryOf manifestName (d.manifest now).value.print).isManifest = true :=
      decide_eq_true rfl
    refine ⟨p.files.map fun f => (f.place.drop stage.length, f.data), ?_, ?_⟩
    · rw [restore, hextract]
    · have hsame : d.archived.map ((fun f => (f.place.drop stage.length, f.data)) ∘
          fileOf stage ∘ Item.entry) = d.archived.map fun f => (f.place, f.data) := by
        refine map_congr_left fun f hf => ?_
        have hplace : placeOf stage f.entry.header.name = stage ++ f.place :=
          (named_archived hf).placeOf_rel hstage
        rw [comp_apply, comp_apply, fileOf, hplace, drop_left]
        rfl
      rw [hrec.files, filter_append, filter_entries hextractable,
        filter_cons_of_neg (by simp [hlast]), filter_nil, append_nil,
        map_reverse, map_map, map_map, comp_assoc, hsame]
      exact reverse_perm _

end

/-- The lock that every data directory has. -/
def lockItem : Item := { place := [bytes "mail-storage", ownerLock], data := [] }

/-- A data directory of a file and the lock. -/
def plain : DataDirectory where
  items := [{ place := [bytes "a", bytes "b"], data := [1] }, lockItem]
  named := by decide +kernel
  distinct := by decide +kernel

/-- What `Create` makes of it. -/
def plainArchive : Archive where
  entries := plain.archived.map Item.entry ++
    [entryOf manifestName (plain.manifest 0).value.print]

set_option maxRecDepth 20000 in
theorem restores_iff_plain :
    create 0 plain = .ok plainArchive ∧
    (plainArchive.entries.map (·.header.size)).sum ≤ 1000 ∧
    (Restores [bytes "stage"] plainArchive 1000 plain ↔ Portable plain 0) :=
  have hcreate : create 0 plain = .ok plainArchive := by rfl
  have hlimit : (plainArchive.entries.map (·.header.size)).sum ≤ 1000 := by decide +kernel
  ⟨hcreate, hlimit, restores_iff hcreate (by decide +kernel) hlimit⟩

/-- A name with a backslash. -/
def backslashed : DataDirectory where
  items := [{ place := [bytes "a\\b"], data := [1] }, lockItem]
  named := by decide +kernel
  distinct := by decide +kernel

/-- A name that is not UTF-8. -/
def latin : DataDirectory where
  items := [{ place := [[97, 255]], data := [1] }, lockItem]
  named := by decide +kernel
  distinct := by decide +kernel

/-- What comes of a backup. -/
def outcome (d : DataDirectory) (maxBytes : ℤ) : Except CreateFailure (Option Failure) :=
  (create 0 d).map fun archive =>
    match restore [bytes "stage"] archive maxBytes with
    | .error err => some err
    | .ok _ => none

set_option maxRecDepth 20000 in
/-- Both are archived, and neither is restored. -/
theorem unportable_backups :
    outcome backslashed 1000 = .ok (some (.refused "unsafe archive entry")) ∧
    outcome latin 1000 = .ok (some (.mismatch [97, 255])) := by
  decide +kernel

end RoundTrip

end EmailService.Backup
