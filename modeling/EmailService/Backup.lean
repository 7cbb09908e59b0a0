/-
EmailService/Backup.lean

Archives of the data directory, and their extraction (internal/backup/backup.go).

An archive is taken as its decoded entries: what the tar reader gives, the data
that can be read of each entry, and what the gzip reader finds behind the end.
The manifest is decoded here.  What may fail on the outside (the context, the
file system) fails at any point, and what was created by then is part of the
result.

The staging directory is the place `target`.  `Safe` is what holds of everything
that was created, whatever the result is, and `Recorded` what holds as long as
nothing has failed; `extract_sound` puts the two together.
-/
import EmailService.GoPath
import EmailService.JsonStruct
import EmailService.Sha256

namespace EmailService.Backup

open GoPath Json List Sha256
open Std (ExtTreeMap)

/-! ### Archives -/

/-- A `map[string]string`; names are bytes. -/
abbrev StringMap := ExtTreeMap (List UInt8) (List UInt8) compare

structure Manifest where
  version : ℤ := 0
  /-- in nanoseconds -/
  created : ℤ := 0
  files : StringMap := ∅

def manifestName : List UInt8 := bytes ".mailhub-backup.json"

/-- The type of a regular file. -/
def typeReg : UInt8 := 48

structure Header where
  typeflag : UInt8 := typeReg
  name : List UInt8
  size : ℤ

/-- An entry with the data that can be read of it, and the error that comes then.
There is no more of it than its header says. -/
structure Entry where
  header : Header
  data : List UInt8
  fault : Option String := none
  bounded : data.length ≤ header.size.toNat

/-- An entry for a regular file. -/
def entryOf (name data : List UInt8) : Entry where
  header := { name := name, size := data.length }
  data := data
  bounded := le_of_eq (Int.toNat_natCast _).symm

/-- A decoded archive: the error of `Next` after the entries, and what a read of
one byte behind them gives. -/
structure Archive where
  entries : List Entry
  ended : Option String := none
  extra : Except String (Option UInt8) := .ok none

/-! ### The manifest -/

/-- The members of an object into a map; `null` is an empty text. -/
def storeFiles : List (List UInt8 × Value) → StringMap → Option StringMap
  | [], files => some files
  | (key, .str digest) :: ms, files => storeFiles ms (files.insert key digest)
  | (key, .null) :: ms, files => storeFiles ms (files.insert key [])
  | _ :: _, _ => none

def manifestFields : List (Json.Field Manifest) :=
  [⟨bytes "version", storeInt fun z m => { m with version := z }⟩,
   ⟨bytes "created", storeTime fun t m => { m with created := t }⟩,
   ⟨bytes "files", fun v m =>
      match v with
      | .obj ms => (storeFiles ms m.files).map fun files => { m with files := files }
      | .null => some { m with files := ∅ }
      | _ => none⟩]

/-- `Decode` of `json.NewDecoder`: the first value, whatever follows it. -/
def decodeManifest (data : List UInt8) : Option Manifest :=
  match value (budget data) data with
  | .error _ => none
  | .ok (v, _) => storeStruct manifestFields v {}

/-! ### Extraction -/

inductive Failure
  | refused (text : String)
  /-- `checksum mismatch: ` with a name -/
  | mismatch (name : List UInt8)
  | json
  | outer (err : String)
  deriving DecidableEq

/-- A file that was created for an entry. -/
structure File where
  name : List UInt8
  place : List Name
  data : List UInt8

/-- What fails in which round; with a number, after so many bytes or directories. -/
structure Faults where
  ctx : ℕ → Option String := fun _ => none
  mkdir : ℕ → Option (ℕ × String) := fun _ => none
  openFile : ℕ → Option String := fun _ => none
  write : ℕ → Option (ℕ × String) := fun _ => none
  sync : ℕ → Option String := fun _ => none

/-- The variables of `extract`, and what it has created. -/
structure Progress where
  files : List File := []
  dirs : List (List Name) := []
  hashes : StringMap := ∅
  manifest : Option Manifest := none
  total : ℤ := 0

section Extract

variable (target : List Name)

/-- The text of a digest in the manifest. -/
def checksum (data : List UInt8) : List UInt8 := hexEncode (sum256 data)

/-- `inside`, for cleaned absolute paths. -/
def inside (root path : List Name) : Bool := !leavesUp (relative root path)

/-- `filepath.Join` of the target and the name of an entry. -/
def placeOf (name : List UInt8) : List Name :=
  (Path.clean ⟨true, target ++ (ofText name).parts⟩).parts

/-- Something is at the place: the target and what is above it, or something
created. -/
def taken (p : Progress) (place : List Name) : Prop :=
  place <+: target ∨ place ∈ p.dirs ∨ place ∈ p.files.map File.place

instance (p : Progress) (place : List Name) : Decidable (taken target p place) :=
  inferInstanceAs (Decidable (_ ∨ _ ∨ _))

/-- `os.MkdirAll`. -/
def mkdirAll (fault : Option (ℕ × String)) (dir : List Name) (p : Progress) :
    Progress × Option Failure :=
  if dir.inits.any (· ∈ p.files.map File.place) then (p, some (.outer "not a directory"))
  else
    let missing := dir.inits.filter (¬ taken target p ·)
    match fault with
    | some (made, err) => ({ p with dirs := missing.take made ++ p.dirs }, some (.outer err))
    | none => ({ p with dirs := missing ++ p.dirs }, none)

/-- What `io.Copy` writes of an entry, and its error. -/
def copied (fault : Option (ℕ × String)) (e : Entry) : List UInt8 × Option String :=
  match fault with
  | some (written, err) => (e.data.take written, some err)
  | none => (e.data, e.fault)

variable (faults : Faults)

/-- Creation of the file of an entry. -/
def createFile (round : ℕ) (e : Entry) (place : List Name) (p : Progress) :
    Progress × Option Failure :=
  match mkdirAll target (faults.mkdir round) place.dropLast p with
  | (p, some err) => (p, some err)
  | (p, none) =>
    -- `O_CREATE|O_EXCL`
    if taken target p place then (p, some (.outer "file exists"))
    else
      match faults.openFile round with
      | some err => (p, some (.outer err))
      | none =>
        let (data, err) := copied (faults.write round) e
        let p := { p with files := ⟨e.header.name, place, data⟩ :: p.files }
        match err.or (faults.sync round) with
        | some err => (p, some (.outer err))
        | none =>
          ({ p with hashes := p.hashes.insert e.header.name (checksum data) }, none)

/-- A round of the loop of `extract`. -/
def extractEntry (maxBytes : ℤ) (round : ℕ) (e : Entry) (p : Progress) :
    Progress × Option Failure :=
  let h := e.header
  let place := placeOf target h.name
  if h.typeflag ≠ typeReg ∨ h.name = [] ∨ (ofText h.name).rooted ∨
      (ofText h.name).clean.text ≠ h.name ∨ 92 ∈ h.name then
    (p, some (.refused "unsafe archive entry"))
  else if !inside target place ∨ h.name = dot then
    (p, some (.refused "archive path escapes destination"))
  else if h.size < 0 ∨ maxBytes - p.total < h.size then
    (p, some (.refused "archive exceeds extraction limit"))
  else
    let p := { p with total := p.total + h.size }
    if h.name = manifestName then
      if p.manifest.isSome then (p, some (.refused "duplicate manifest"))
      else if 64 * 2 ^ 20 < h.size then (p, some (.refused "manifest too large"))
      else
        match decodeManifest e.data with
        | none => (p, some .json)
        | some m => ({ p with manifest := some m }, none)
    else if 1000000 ≤ p.hashes.size then (p, some (.refused "too many archive entries"))
    else if p.hashes.contains h.name then (p, some (.refused "duplicate archive entry"))
    else createFile target faults round e place p

/-- The loop of `extract`. -/
def extractEntries (faults : Faults) (maxBytes : ℤ) :
    ℕ → List Entry → Progress → Progress × Option Failure
  | round, [], p => (p, (faults.ctx round).map .outer)
  | round, e :: rest, p =>
    match faults.ctx round with
    | some err => (p, some (.outer err))
    | none =>
      match extractEntry target faults maxBytes round e p with
      | (p, some err) => (p, some err)
      | (p, none) => extractEntries faults maxBytes (round + 1) rest p

/-- The checks behind the loop. -/
def finish (archive : Archive) (ctx : Option String) (p : Progress) : Option Failure :=
  match archive.ended with
  | some err => some (.outer err)
  | none =>
    match archive.extra with
    | .error err => some (.outer err)
    | .ok (some _) => some (.refused "unexpected data after backup archive")
    | .ok none =>
      match ctx with
      | some err => some (.outer err)
      | none =>
        match p.manifest with
        | none => some (.refused "invalid backup manifest")
        | some m =>
          if m.version ≠ 1 ∨ m.files.size ≠ p.hashes.size then
            some (.refused "invalid backup manifest")
          else
            (p.hashes.toList.find? fun f => (m.files[f.1]?).getD [] ≠ f.2).map
              fun f => .mismatch f.1

/-- `extract`, with what it has created. -/
def extract (archive : Except String Archive) (maxBytes : ℤ) : Progress × Option Failure :=
  if maxBytes ≤ 0 then ({}, some (.refused "positive extraction byte limit required"))
  else
    match archive with
    | .error err => ({}, some (.outer err))
    | .ok archive =>
      match extractEntries target faults maxBytes 0 archive.entries {} with
      | (p, some err) => (p, some err)
      | (p, none) => (p, finish archive (faults.ctx (archive.entries.length + 1)) p)

end Extract

/-! ### What a round does -/

section Round

variable {target : List Name} {faults : Faults} {maxBytes : ℤ}
  {round : ℕ} {e : Entry} {p : Progress}

/-- What every entry has to pass. -/
structure Accepted (target : List Name) (maxBytes : ℤ) (e : Entry) (p : Progress) : Prop where
  typeflag : e.header.typeflag = typeReg
  name : e.header.name ≠ []
  rooted : (ofText e.header.name).rooted = false
  clean : (ofText e.header.name).clean.text = e.header.name
  backslash : 92 ∉ e.header.name
  inside : inside target (placeOf target e.header.name) = true
  ne_dot : e.header.name ≠ dot
  size : 0 ≤ e.header.size
  limit : e.header.size ≤ maxBytes - p.total

/-- What the manifest has to pass. -/
structure AcceptedManifest (e : Entry) (p : Progress) (m : Manifest) : Prop where
  name : e.header.name = manifestName
  first : p.manifest = none
  size : e.header.size ≤ 64 * 2 ^ 20
  decoded : decodeManifest e.data = some m

/-- What another entry has to pass. -/
structure AcceptedFile (e : Entry) (p : Progress) : Prop where
  name : e.header.name ≠ manifestName
  count : p.hashes.size < 1000000
  unseen : p.hashes.contains e.header.name = false

/-- The entry is counted. -/
def Progress.count (p : Progress) (e : Entry) : Progress :=
  { p with total := p.total + e.header.size }

/-- A round ends the extraction before anything is created, takes the manifest or
creates a file. -/
theorem extractEntry_cases (target : List Name) (faults : Faults)
    (maxBytes : ℤ) (round : ℕ) (e : Entry) (p : Progress) :
    (∃ err, extractEntry target faults maxBytes round e p = (p, some err)) ∨
    Accepted target maxBytes e p ∧
      ((∃ err, extractEntry target faults maxBytes round e p = (p.count e, some err)) ∨
       (∃ m, AcceptedManifest e p m ∧ extractEntry target faults maxBytes round e p =
          ({ p.count e with manifest := some m }, none)) ∨
       AcceptedFile e p ∧ extractEntry target faults maxBytes round e p =
          createFile target faults round e (placeOf target e.header.name) (p.count e)) := by
  unfold extractEntry
  dsimp only
  split
  · exact .inl ⟨_, rfl⟩
  next hsafe =>
  split
  · exact .inl ⟨_, rfl⟩
  next hinside =>
  split
  · exact .inl ⟨_, rfl⟩
  next hsize =>
  obtain ⟨htype, hname, hrooted, hclean, hslash⟩ := by
    simpa only [not_or, not_not, Bool.not_eq_true] using hsafe
  obtain ⟨hin, hdot⟩ := by simpa only [not_or, Bool.not_eq_true', Bool.not_eq_false] using hinside
  obtain ⟨hpos, hlimit⟩ := not_or.mp hsize
  refine .inr ⟨⟨htype, hname, hrooted, hclean, hslash, hin, hdot, by omega, by omega⟩, ?_⟩
  split
  · next hmanifest =>
    split
    · exact .inl ⟨_, rfl⟩
    next hfirst =>
    split
    · exact .inl ⟨_, rfl⟩
    next hlarge =>
    split
    · exact .inl ⟨_, rfl⟩
    · next m hdecoded =>
      refine .inr (.inl ⟨m, ⟨hmanifest, ?_, by omega, hdecoded⟩, rfl⟩)
      exact Option.not_isSome_iff_eq_none.mp hfirst
  · next hmanifest =>
    split
    · exact .inl ⟨_, rfl⟩
    next hcount =>
    split
    · exact .inl ⟨_, rfl⟩
    next hunseen =>
    exact .inr (.inr ⟨⟨hmanifest, by omega, Bool.eq_false_iff.mpr hunseen⟩, rfl⟩)

/-- The directories `MkdirAll` creates are above `dir`, and not there before. -/
theorem mkdirAll_cases (target : List Name) (fault : Option (ℕ × String)) (dir : List Name)
    (p : Progress) :
    ∃ new, (mkdirAll target fault dir p).1 = { p with dirs := new ++ p.dirs } ∧
      ∀ d ∈ new, d <+: dir ∧ ¬ taken target p d := by
  have hmissing : ∀ d ∈ dir.inits.filter (¬ taken target p ·), d <+: dir ∧ ¬ taken target p d := by
    intro d hd
    rw [mem_filter, mem_inits, decide_eq_true_eq] at hd
    exact hd
  unfold mkdirAll
  split
  · exact ⟨[], rfl, nofun⟩
  dsimp only
  split
  · exact ⟨_, rfl, fun d hd => hmissing d (mem_of_mem_take hd)⟩
  · exact ⟨_, rfl, hmissing⟩

/-- Without an error the whole entry is in the file, and its checksum is
recorded. -/
theorem createFile_cases (target : List Name) (faults : Faults)
    (round : ℕ) (e : Entry) (place : List Name) (p : Progress) :
    ∃ new, (∀ d ∈ new, d <+: place.dropLast ∧ ¬ taken target p d) ∧
      ((∃ err, createFile target faults round e place p =
          ({ p with dirs := new ++ p.dirs }, some err)) ∨
       ¬ taken target p place ∧
        ((∃ err data, data <+: e.data ∧ createFile target faults round e place p =
            ({ p with dirs := new ++ p.dirs
                      files := ⟨e.header.name, place, data⟩ :: p.files }, some err)) ∨
         e.fault = none ∧ createFile target faults round e place p =
            ({ p with dirs := new ++ p.dirs
                      files := ⟨e.header.name, place, e.data⟩ :: p.files
                      hashes := p.hashes.insert e.header.name (checksum e.data) },
              none))) := by
  obtain ⟨new, hnew, hdirs⟩ := mkdirAll_cases target (faults.mkdir round) place.dropLast p
  refine ⟨new, hdirs, ?_⟩
  unfold createFile
  split
  · next q err hmkdir =>
    rw [hmkdir] at hnew
    exact .inl ⟨err, Prod.ext hnew rfl⟩
  · next q hmkdir =>
    rw [hmkdir] at hnew
    dsimp only at hnew
    subst hnew
    split
    · exact .inl ⟨_, rfl⟩
    next hfree =>
    have hfree' : ¬ taken target p place := fun h => hfree <|
      h.imp_right (.imp_left (mem_append_right _))
    split
    · exact .inl ⟨_, rfl⟩
    dsimp only
    refine .inr ⟨hfree', ?_⟩
    cases hcopied : copied (faults.write round) e with
    | mk data err =>
      dsimp only
      unfold copied at hcopied
      split at hcopied
      · cases hcopied
        exact .inl ⟨_, _, take_prefix _ _, rfl⟩
      · cases hcopied
        split
        · exact .inl ⟨_, _, prefix_rfl, rfl⟩
        · next hnone =>
          exact .inr ⟨(Option.or_eq_none_iff.mp hnone).1, rfl⟩

end Round

/-! ### What is created -/

/-- The bytes in the files. -/
def written (files : List File) : ℕ := (files.map (·.data.length)).sum

/-- What holds of everything that was created. -/
structure Safe (target : List Name) (maxBytes : ℤ) (p : Progress) : Prop where
  files : ∀ f ∈ p.files, target <+: f.place ∧ f.place ≠ target
  dirs : ∀ d ∈ p.dirs, target <+: d ∧ d ≠ target
  places : (p.files.map File.place).Nodup
  written : (written p.files : ℤ) ≤ p.total
  total : p.total ≤ maxBytes

/-- The file of an entry. -/
def fileOf (target : List Name) (e : Entry) : File :=
  ⟨e.header.name, placeOf target e.header.name, e.data⟩

def Entry.isManifest (e : Entry) : Bool := e.header.name = manifestName

/-- What holds after the entries `done`, as long as nothing has failed. -/
structure Recorded (target : List Name) (done : List Entry)
    (p : Progress) : Prop where
  files : p.files = ((done.filter (!·.isManifest)).map (fileOf target)).reverse
  dirs : ∀ d ∈ p.dirs, ∃ f ∈ p.files, d <+: f.place.dropLast
  names : (p.files.map File.name).Nodup
  hashes : ∀ name digest, p.hashes[name]? = some digest ↔
    ∃ f ∈ p.files, f.name = name ∧ checksum f.data = digest
  size : p.hashes.size = p.files.length
  count : p.hashes.size ≤ 1000000
  manifest : (done.filter (·.isManifest)).map (decodeManifest ·.data) = p.manifest.toList.map some
  total : p.total = (done.map (·.header.size)).sum
  passed : ∀ e ∈ done, 92 ∉ e.header.name ∧ (e.isManifest = true → e.header.size ≤ 64 * 2 ^ 20) ∧
    (e.isManifest = false → e.fault = none)

section Keeps

variable {target : List Name} {faults : Faults} {maxBytes : ℤ}
  {round : ℕ} {e : Entry} {p q : Progress} {done : List Entry}

variable {name : List UInt8} {place : List Name} {new : List (List Name)}

theorem prefix_of_inside (hproper : ∀ part ∈ target, Proper part)
    (h : inside target (placeOf target name) = true) : target <+: placeOf target name := by
  have hplace : ∀ part ∈ placeOf target name, Proper part := by
    refine proper_clean fun part hpart => ?_
    rcases mem_append.mp hpart with hmem | hmem
    · exact (hproper part hmem).slash
    · exact slash_notMem_parts hmem
  rw [inside, Bool.not_eq_true'] at h
  exact (leavesUp_relative hplace).mp h

/-- What is new below a place in the target is in the target. -/
theorem inside_of_new {d : List Name} (hplace : target <+: place) (hd : d <+: place.dropLast)
    (hnew : ¬ taken target p d) : target <+: d ∧ d ≠ target := by
  have hnot : ¬ d <+: target := fun h => hnew (.inl h)
  have hor := prefix_or_prefix_of_prefix hplace (hd.trans ( dropLast_prefix _))
  exact ⟨hor.resolve_right hnot, fun heq => hnot (heq ▸ prefix_rfl)⟩

section

variable (h : Safe target maxBytes p)

include h

theorem Safe.count (he : Accepted target maxBytes e p) :
    Safe target maxBytes (p.count e) where
  files := h.files
  dirs := h.dirs
  places := h.places
  written := by
    have hwritten := h.written
    have hsize := he.size
    show (Backup.written p.files : ℤ) ≤ p.total + e.header.size
    omega
  total := by
    have hlimit := he.limit
    show p.total + e.header.size ≤ maxBytes
    omega

theorem Safe.mkdir (hplace : target <+: place)
    (hnew : ∀ d ∈ new, d <+: place.dropLast ∧ ¬ taken target p d) :
    Safe target maxBytes { p with dirs := new ++ p.dirs } where
  files := h.files
  dirs d hd := by
    rcases mem_append.mp hd with hmem | hmem
    · exact inside_of_new hplace (hnew d hmem).1 (hnew d hmem).2
    · exact h.dirs d hmem
  places := h.places
  written := h.written
  total := h.total

/-- A file of at most the size that was counted. -/
theorem Safe.create (he : Accepted target maxBytes e p)
    (hplace : target <+: place) (hfree : ¬ taken target p place) {data : List UInt8}
    (hdata : data <+: e.data) (hashes : StringMap)
    (hnew : ∀ d ∈ new, d <+: place.dropLast ∧ ¬ taken target p d) :
    Safe target maxBytes { p.count e with
      dirs := new ++ p.dirs
      files := ⟨e.header.name, place, data⟩ :: p.files
      hashes := hashes } where
  files := by
    refine forall_mem_cons.mpr ⟨⟨hplace, ?_⟩, h.files⟩
    rintro rfl
    exact hfree (.inl prefix_rfl)
  dirs := (h.mkdir hplace hnew).dirs
  places := nodup_cons.mpr ⟨fun hmem => hfree (.inr (.inr hmem)), h.places⟩
  written := by
    have hwritten := h.written
    have hlength := hdata.length_le.trans e.bounded
    have hsize := he.size
    show ((data.length + Backup.written p.files : ℕ) : ℤ) ≤ p.total + e.header.size
    omega
  total := (h.count he).total

/-- **A round keeps what is created inside, and within the limit.** -/
theorem Safe.extractEntry (hproper : ∀ part ∈ target, Proper part)
    (faults : Faults) (round : ℕ) (e : Entry) :
    Safe target maxBytes (extractEntry target faults maxBytes round e p).1 := by
  rcases extractEntry_cases target faults maxBytes round e p with
    ⟨err, heq⟩ | ⟨he, ⟨err, heq⟩ | ⟨m, -, heq⟩ | ⟨-, heq⟩⟩
  · rwa [heq]
  · rw [heq]
    exact h.count he
  · rw [heq]
    exact { h.count he with }
  · have hplace := prefix_of_inside hproper he.inside
    rw [heq]
    obtain ⟨new, hnew, ⟨err, heq⟩ | ⟨hfree, ⟨err, data, hdata, heq⟩ | ⟨-, heq⟩⟩⟩ :=
      createFile_cases target faults round e (placeOf target e.header.name) (p.count e)
    · rw [heq]
      exact (h.count he).mkdir hplace hnew
    · rw [heq]
      exact h.create he hplace hfree hdata _ hnew
    · rw [heq]
      exact h.create he hplace hfree prefix_rfl _ hnew

theorem Safe.extractEntries (hproper : ∀ part ∈ target, Proper part)
    (faults : Faults) (round : ℕ) (entries : List Entry) :
    Safe target maxBytes (extractEntries target faults maxBytes round entries p).1 := by
  induction entries generalizing round p with
  | nil => exact h
  | cons e rest ih =>
    rw [extractEntries]
    split
    · exact h
    · have hstep := h.extractEntry hproper faults round e
      split
      · next hq => rwa [hq] at hstep
      · next hq =>
        rw [hq] at hstep
        exact ih hstep (round + 1)

end

section

variable (h : Recorded target done p)

include h

theorem Recorded.unseen :
    p.hashes.contains name = false ↔ name ∉ p.files.map File.name := by
  rw [← Bool.not_eq_true, ExtTreeMap.contains_iff_mem, ExtTreeMap.mem_iff_isSome_getElem?,
    Option.isSome_iff_exists, not_iff_not, mem_map]
  constructor
  · rintro ⟨digest, hdigest⟩
    obtain ⟨f, hf, hname, -⟩ := (h.hashes name digest).mp hdigest
    exact ⟨f, hf, hname⟩
  · rintro ⟨f, hf, hname⟩
    exact ⟨_, (h.hashes name _).mpr ⟨f, hf, hname, rfl⟩⟩

/-- The manifest leaves the files as they are. -/
theorem Recorded.takeManifest (he : Accepted target maxBytes e p) {m : Manifest}
    (hm : AcceptedManifest e p m) :
    Recorded target (done ++ [e]) { p.count e with manifest := some m } := by
  have hmanifest : e.isManifest = true := decide_eq_true hm.name
  refine { h with files := ?_, manifest := ?_, total := ?_, passed := ?_ }
  · rw [filter_append, filter_cons_of_neg (by simp [hmanifest]), filter_nil,
      append_nil]
    exact h.files
  · rw [filter_append, filter_cons_of_pos hmanifest, filter_nil, map_append,
      h.manifest, hm.first, map_singleton, hm.decoded]
    rfl
  · rw [map_append, sum_append, ← h.total]
    simp [Progress.count]
  · refine forall_mem_append.mpr ⟨h.passed, forall_mem_singleton.mpr ?_⟩
    exact ⟨he.backslash, fun _ => hm.size, fun hnot => absurd hmanifest (by simp [hnot])⟩

/-- A new file is recorded under its name. -/
theorem Recorded.takeFile (he : Accepted target maxBytes e p)
    (hfile : AcceptedFile e p) (hfault : e.fault = none)
    (hnew : ∀ d ∈ new, d <+: (placeOf target e.header.name).dropLast) :
    Recorded target (done ++ [e]) { p.count e with
      dirs := new ++ p.dirs
      files := fileOf target e :: p.files
      hashes := p.hashes.insert e.header.name (checksum e.data) } := by
  have hmanifest : e.isManifest = false := decide_eq_false hfile.name
  have hunseen := h.unseen.mp hfile.unseen
  have hsize : (p.hashes.insert e.header.name (checksum e.data)).size =
      p.hashes.size + 1 := by
    rw [ExtTreeMap.size_insert, if_neg]
    rw [hfile.unseen]
    exact nofun
  refine { files := ?_, dirs := ?_, names := ?_, hashes := ?_, size := ?_, count := ?_,
           manifest := ?_, total := ?_, passed := ?_ }
  · rw [filter_append, filter_cons_of_pos (by simp [hmanifest]), filter_nil,
      map_append, reverse_append, ← h.files]
    rfl
  · intro d hd
    rcases mem_append.mp hd with hmem | hmem
    · exact ⟨_, mem_cons_self, hnew d hmem⟩
    · obtain ⟨f, hf, hdf⟩ := h.dirs d hmem
      exact ⟨f, mem_cons_of_mem _ hf, hdf⟩
  · exact nodup_cons.mpr ⟨hunseen, h.names⟩
  · intro name digest
    show (p.hashes.insert _ _)[name]? = _ ↔ ∃ f ∈ fileOf target e :: p.files, _
    rw [ExtTreeMap.getElem?_insert, exists_mem_cons_iff]
    split
    · next heq =>
      obtain rfl := Std.LawfulEqCmp.compare_eq_iff_eq.mp heq
      constructor
      · intro hsome
        exact .inl ⟨rfl, Option.some.inj hsome⟩
      · rintro (⟨-, rfl⟩ | ⟨f, hf, hname, -⟩)
        · rfl
        · exact absurd (mem_map.mpr ⟨f, hf, hname⟩) hunseen
    · next hne =>
      rw [h.hashes]
      refine ⟨.inr, fun hor => hor.resolve_left ?_⟩
      rintro ⟨hname, -⟩
      exact hne (Std.LawfulEqCmp.compare_eq_iff_eq.mpr hname)
  · rw [length_cons, ← h.size]
    exact hsize
  · have := hfile.count
    show (p.hashes.insert _ _).size ≤ _
    omega
  · rw [filter_append, filter_cons_of_neg (by simp [hmanifest]), filter_nil,
      append_nil]
    exact h.manifest
  · rw [map_append, sum_append, ← h.total]
    simp [Progress.count]
  · refine forall_mem_append.mpr ⟨h.passed, forall_mem_singleton.mpr ?_⟩
    exact ⟨he.backslash, fun hnot => absurd hnot (by simp [hmanifest]), fun _ => hfault⟩

/-- **A round that does not fail records its entry.** -/
theorem Recorded.extractEntry (hstep : extractEntry target faults maxBytes round e p = (q, none)) :
    Recorded target (done ++ [e]) q := by
  rcases extractEntry_cases target faults maxBytes round e p with
    ⟨err, heq⟩ | ⟨he, ⟨err, heq⟩ | ⟨m, hm, heq⟩ | ⟨hfile, heq⟩⟩
  · cases heq.symm.trans hstep
  · cases heq.symm.trans hstep
  · cases heq.symm.trans hstep
    exact h.takeManifest he hm
  · obtain ⟨new, hnew, ⟨err, heq'⟩ | ⟨-, ⟨err, data, -, heq'⟩ | ⟨hfault, heq'⟩⟩⟩ :=
      createFile_cases target faults round e (placeOf target e.header.name) (p.count e)
    · cases heq'.symm.trans (heq.symm.trans hstep)
    · cases heq'.symm.trans (heq.symm.trans hstep)
    · cases heq'.symm.trans (heq.symm.trans hstep)
      exact h.takeFile he hfile hfault fun d hd => (hnew d hd).1

theorem Recorded.extractEntries {rest : List Entry}
    (hrun : extractEntries target faults maxBytes round rest p = (q, none)) :
    Recorded target (done ++ rest) q := by
  induction rest generalizing round p done with
  | nil =>
    rw [extractEntries, Prod.mk.injEq] at hrun
    rwa [append_nil, ← hrun.1]
  | cons e rest ih =>
    rw [extractEntries] at hrun
    split at hrun
    · cases hrun
    split at hrun
    · cases hrun
    · next hstep =>
      rw [append_cons]
      exact ih (h.extractEntry hstep) hrun

end

theorem recorded_nil : Recorded target [] {} where
  files := rfl
  dirs := nofun
  names := nodup_nil
  hashes name digest := by simp
  size := rfl
  count := Nat.zero_le _
  manifest := rfl
  total := rfl
  passed := nofun

theorem safe_nil (h : 0 < maxBytes) : Safe target maxBytes {} where
  files := nofun
  dirs := nofun
  places := nodup_nil
  written := le_rfl
  total := h.le

end Keeps

/-! ### What the manifest says -/

section Complete

variable {target : List Name} {p : Progress} {done : List Entry}

/-- A map is another one if it is as large and in it. -/
theorem eq_of_size {a b : StringMap} (hsize : a.size = b.size)
    (h : ∀ (k v : List UInt8), a[k]? = some v → b[k]? = some v) : a = b := by
  have hnodup (m : StringMap) : m.toList.Nodup := by
    refine ExtTreeMap.distinct_keys_toList.imp ?_
    rintro x _ hne rfl
    exact hne Std.ReflCmp.compare_self
  have hsub : a.toList ⊆ b.toList := by
    rintro ⟨k, v⟩ hkv
    rw [ExtTreeMap.mem_toList_iff_getElem?_eq_some] at hkv ⊢
    exact h k v hkv
  have hperm : a.toList.Perm b.toList := by
    refine ((hnodup a).subperm hsub).perm_of_length_le ?_
    rw [ExtTreeMap.length_toList, ExtTreeMap.length_toList, hsize]
  refine ExtTreeMap.ext_getElem? fun k => Option.ext fun v => ?_
  rw [← ExtTreeMap.mem_toList_iff_getElem?_eq_some, ← ExtTreeMap.mem_toList_iff_getElem?_eq_some]
  exact hperm.mem_iff

theorem checksum_ne_nil (data : List UInt8) : checksum data ≠ [] := by
  have hlength := length_sum256 data
  rw [checksum]
  cases hdigest : sum256 data with
  | nil =>
    rw [hdigest] at hlength
    cases hlength
  | cons b digest => exact cons_ne_nil _ _

/-- The final checks pass exactly if nothing follows the archive, and the manifest
has the checksums that were found. -/
theorem finish_eq_none (archive : Archive) (ctx : Option String) (h : Recorded target done p) :
    finish archive ctx p = none ↔ archive.ended = none ∧ archive.extra = .ok none ∧ ctx = none ∧
      ∃ m, p.manifest = some m ∧ m.version = 1 ∧ m.files = p.hashes := by
  unfold finish
  cases archive.ended with
  | some err => simp
  | none =>
  rcases archive.extra with err | (_ | b)
  · simp
  · cases ctx with
    | some err => simp
    | none =>
    cases p.manifest with
    | none => simp
    | some m =>
      dsimp only
      by_cases hm : m.version ≠ 1 ∨ m.files.size ≠ p.hashes.size
      · rw [if_pos hm]
        refine iff_of_false (Option.some_ne_none _) ?_
        rintro ⟨-, -, -, _, ⟨⟩, hversion, hfiles⟩
        rw [hfiles] at hm
        exact hm.elim (absurd hversion) (absurd rfl)
      · rw [if_neg hm, Option.map_eq_none_iff, find?_eq_none]
        obtain ⟨hversion, hsize⟩ := not_or.mp hm
        rw [not_not] at hversion hsize
        constructor
        · intro hall
          refine ⟨rfl, rfl, rfl, m, rfl, hversion, (eq_of_size hsize.symm ?_).symm⟩
          intro k v hkv
          have hget := hall (k, v) (ExtTreeMap.mem_toList_iff_getElem?_eq_some.mpr hkv)
          rw [decide_eq_true_eq, not_not] at hget
          obtain ⟨f, -, -, rfl⟩ := (h.hashes k v).mp hkv
          cases hm : m.files[k]? with
          | none =>
            rw [hm] at hget
            exact absurd hget.symm (checksum_ne_nil _)
          | some v' =>
            rw [hm] at hget
            exact congrArg some hget
        · rintro ⟨-, -, -, _, ⟨⟩, -, hfiles⟩ ⟨k, v⟩ hkv
          rw [ExtTreeMap.mem_toList_iff_getElem?_eq_some] at hkv
          rw [hfiles, decide_eq_true_eq, not_not, hkv]
          rfl
  · simp

/-- What was created is strictly inside the target, and within the limit. -/
structure Contained (target : List Name) (maxBytes : ℤ) (p : Progress) : Prop where
  files : ∀ f ∈ p.files, target <+: f.place ∧ f.place ≠ target
  dirs : ∀ d ∈ p.dirs, target <+: d ∧ d ≠ target
  written : written p.files ≤ maxBytes.toNat

/-- The files are those of the archive, one for each entry of the manifest. -/
structure Complete (target : List Name) (archive : Archive)
    (files : List File) : Prop where
  ended : archive.ended = none
  behind : archive.extra = .ok none
  entries : files.reverse = (archive.entries.filter (!·.isManifest)).map (fileOf target)
  whole : ∀ e ∈ archive.entries, e.isManifest = false → e.fault = none
  names : (files.map File.name).Nodup
  places : (files.map File.place).Nodup
  manifest : ∃ m, (archive.entries.filter (·.isManifest)).map (decodeManifest ·.data) = [some m] ∧
    m.version = 1 ∧ ∀ name digest, m.files[name]? = some digest ↔
      ∃ f ∈ files, f.name = name ∧ checksum f.data = digest

theorem Safe.contained {maxBytes : ℤ} (h : Safe target maxBytes p) :
    Contained target maxBytes p where
  files := h.files
  dirs := h.dirs
  written := by
    have := h.written
    have := h.total
    omega

/-- **Extraction is confined to the target and to the limit, and complete where
it succeeds.** -/
theorem extract_sound {target : List Name}
    (hproper : ∀ part ∈ target, Proper part) (faults : Faults) (archive : Except String Archive)
    (maxBytes : ℤ) :
    Contained target maxBytes (extract target faults archive maxBytes).1 ∧
    ((extract target faults archive maxBytes).2 = none →
      ∃ a, archive = .ok a ∧
        Complete target a (extract target faults archive maxBytes).1.files) := by
  have hempty : Contained target maxBytes {} := ⟨nofun, nofun, Nat.zero_le _⟩
  unfold extract
  split
  · exact ⟨hempty, nofun⟩
  next hpos =>
  split
  · exact ⟨hempty, nofun⟩
  next archive =>
  have hnil : Safe target maxBytes {} := safe_nil (not_le.mp hpos)
  have hsafe := hnil.extractEntries hproper faults 0 archive.entries
  split
  · next p err hrun =>
    rw [hrun] at hsafe
    exact ⟨hsafe.contained, nofun⟩
  · next p hrun =>
    rw [hrun] at hsafe
    refine ⟨hsafe.contained, fun hfinish => ⟨archive, rfl, ?_⟩⟩
    have hrec := recorded_nil.extractEntries hrun
    rw [nil_append] at hrec
    obtain ⟨hended, hbehind, -, m, hm, hversion, hfiles⟩ := (finish_eq_none _ _ hrec).mp hfinish
    refine
      { ended := hended
        behind := hbehind
        entries := by rw [hrec.files, reverse_reverse]
        whole := fun e he => (hrec.passed e he).2.2
        names := hrec.names
        places := hsafe.places
        manifest := ⟨m, ?_, hversion, ?_⟩ }
    · rw [hrec.manifest, hm]
      rfl
    · rw [hfiles]
      exact hrec.hashes

section OneFile

/-- An archive of one file. -/
def oneFile : Archive where
  entries :=
    [entryOf (bytes "a/b") [1, 2, 3],
     entryOf manifestName (Value.obj
       [(bytes "version", .num (decimal 1)), (bytes "created", .str (Rfc3339.format 0 0)),
        (bytes "files", .obj [(bytes "a/b", .str (checksum [1, 2, 3]))])]).print]

set_option maxRecDepth 20000 in
theorem extract_sound_oneFile :
    (extract [bytes "stage"] {} (.ok oneFile) 1000).2 = none ∧
    Contained [bytes "stage"] 1000 (extract [bytes "stage"] {} (.ok oneFile) 1000).1 ∧
    ∃ a, Except.ok oneFile = Except.ok (ε := String) a ∧ Complete [bytes "stage"] a
      (extract [bytes "stage"] {} (.ok oneFile) 1000).1.files :=
  have hproper : ∀ part ∈ [bytes "stage"], Proper part := by decide +kernel
  have hok : (extract [bytes "stage"] {} (.ok oneFile) 1000).2 = none := by
    decide +kernel
  have hsound := extract_sound hproper {} (.ok oneFile) 1000
  ⟨hok, hsound.1, hsound.2 hok⟩

end OneFile

end Complete

end EmailService.Backup
