/-
EmailService/HeaderRemoval.lean

What `removeHeader` (internal/smtpd/server.go) takes out of a message.

A reader divides a message into lines, the header up to the first empty line into
blocks (a line and the lines that continue it), and takes a block for a field of
the name before its colon.  Blanks may stand between the name and the colon, and
case does not matter.  `withoutField` is the message without the blocks of a
name.

`removeHeader` compares what stands before the colon as it is, so a blank there
saves a field (`blank_before_colon`).  It takes a line of carriage returns for the
end of the header, and its comparison folds two signs beyond ASCII to letters.
`removes_exactly_iff` says that these are the only differences.
-/
import EmailService.HeaderFields

namespace EmailService.HeaderRemoval

open GoStrings NetMail HeaderFields List Utf8

abbrev Line := List UInt8

/-! ### The header of a message -/

/-- The line between header and body. -/
def isBlankLine (l : Line) : Bool := l = [13, 10] || l = [10]

/-- A line that continues none, and the lines that continue it. -/
abbrev Block := Line × List Line

def Block.lines (b : Block) : List Line := b.1 :: b.2

/-- The continuations at the start, and the blocks. -/
def group : List Line → List Line × List Block
  | [] => ([], [])
  | l :: ls =>
    if startsBlank l then (l :: (group ls).1, (group ls).2)
    else ([], (l, (group ls).1) :: (group ls).2)

variable (raw : List UInt8)

/-- The lines of the header. -/
def header : List Line := (lines raw).takeWhile (! isBlankLine ·)

/-- The empty line and the body. -/
def body : List Line := (lines raw).dropWhile (! isBlankLine ·)

/-- The blocks of the header. -/
def blocks : List Block := (group (header raw)).2

/-- The block is a field of the name. -/
def isField (name : String) (b : Block) : Bool :=
  match cutColon b.1 with
  | none => false
  | some (k, _) => (k.rdropWhile isBlank).map asciiLower = (utf8 name).map asciiLower

/-- The message without the fields of a name. -/
def withoutField (name : String) : List UInt8 :=
  ((group (header raw)).1 ++ ((blocks raw).filter (! isField name ·)).flatMap Block.lines ++
    body raw).flatten

/-- A field name: printing signs of ASCII without the colon. -/
def FieldName (name : String) : Prop :=
  name ≠ "" ∧ ∀ c ∈ name.toList, 33 ≤ c.toNat ∧ c.toNat ≤ 126 ∧ c ≠ ':'

theorem FieldName.of_all {name : String} (hne : name ≠ "") (h : name.toList.all (fun c =>
    33 ≤ c.toNat ∧ c.toNat ≤ 126 ∧ c ≠ ':') = true) : FieldName name :=
  ⟨hne, fun c hc => of_decide_eq_true (all_eq_true.mp h c hc)⟩

/-- The header up to a line that is empty but for carriage returns, which is where
`removeHeader` stops, and what follows of it. -/
def soughtLines : List Line := (header raw).takeWhile (! isEmptyLine ·)
def missedLines : List Line := (header raw).dropWhile (! isEmptyLine ·)

/-- No blank stands before the colon of a field of the name, none of them follows a line of
carriage returns, and no other name folds to it. -/
structure Plain (U : CaseTables) (raw : List UInt8) (name : String) : Prop where
  close : ∀ b ∈ (group (soughtLines raw)).2, isField name b = true →
    ∀ k v, cutColon b.1 = some (k, v) → k.rdropWhile isBlank = k
  ascii : ∀ b ∈ (group (soughtLines raw)).2, ∀ k v, cutColon b.1 = some (k, v) →
    equalFoldText U (text k) name = true → ∀ x ∈ k, x.toNat < 128
  sought : ∀ b ∈ (group (missedLines raw)).2, isField name b = false

/-- `removeHeader` deletes the fields of the name and nothing else, once and for all, and in
whatever order names are removed. -/
structure RemovesExactly (U : CaseTables) (raw : List UInt8) (name : String) : Prop where
  exact : removeHeader U raw name = withoutField raw name
  again : removeHeader U (removeHeader U raw name) name = removeHeader U raw name
  commute : ∀ other, removeHeader U (removeHeader U raw name) other =
    removeHeader U (removeHeader U raw other) name
  gone : ∀ b ∈ blocks (removeHeader U raw name), isField name b = false

/-! ### Blocks -/

section Blocks

/-- Blocks as `group` makes them. -/
structure WellGrouped (lead : List Line) (bs : List Block) : Prop where
  lead : ∀ l ∈ lead, startsBlank l = true
  first : ∀ b ∈ bs, startsBlank b.1 = false
  more : ∀ b ∈ bs, ∀ l ∈ b.2, startsBlank l = true

theorem wellGrouped_group (ls : List Line) : WellGrouped (group ls).1 (group ls).2 := by
  induction ls with
  | nil => exact ⟨nofun, nofun, nofun⟩
  | cons l ls ih =>
    rw [group]
    split
    · next hl => exact ⟨forall_mem_cons.mpr ⟨hl, ih.lead⟩, ih.first, ih.more⟩
    · next hl =>
      exact ⟨nofun, forall_mem_cons.mpr ⟨by simpa using hl, ih.first⟩,
        forall_mem_cons.mpr ⟨ih.lead, ih.more⟩⟩

theorem flatten_group (ls : List Line) : (group ls).1 ++ (group ls).2.flatMap Block.lines = ls := by
  induction ls with
  | nil => rfl
  | cons l ls ih =>
    rw [group]
    split
    · rw [cons_append, ih]
    · rw [nil_append, flatMap_cons, Block.lines, cons_append, ih]

variable {lead ls : List Line} {bs bs' : List Block}

theorem group_flatten (h : WellGrouped lead bs) :
    group (lead ++ bs.flatMap Block.lines) = (lead, bs) := by
  -- the lines that continue something go together
  have hlead : ∀ (lead rest : List Line), (∀ l ∈ lead, startsBlank l = true) →
      group (lead ++ rest) = (lead ++ (group rest).1, (group rest).2) := by
    intro lead rest hlead
    induction lead with
    | nil => rfl
    | cons l lead ih =>
      rw [forall_mem_cons] at hlead
      rw [cons_append, group, if_pos hlead.1, ih hlead.2]
      rfl
  have hblocks : group (bs.flatMap Block.lines) = ([], bs) := by
    obtain ⟨-, hfirst, hmore⟩ := h
    induction bs with
    | nil => rfl
    | cons b bs ih =>
      rw [forall_mem_cons] at hfirst hmore
      rw [flatMap_cons, Block.lines, cons_append, group, if_neg (by simp [hfirst.1]),
        hlead _ _ hmore.1, ih hfirst.2 hmore.2, append_nil]
  rw [hlead _ _ h.lead, hblocks, append_nil]

theorem WellGrouped.filter (h : WellGrouped lead bs) (p : Block → Bool) :
    WellGrouped lead (bs.filter p) where
  lead := h.lead
  first b hb := h.first b (mem_filter.mp hb).1
  more b hb := h.more b (mem_filter.mp hb).1

theorem eq_of_flatMap_lines (h : WellGrouped [] bs) (h' : WellGrouped [] bs')
    (heq : bs.flatMap Block.lines = bs'.flatMap Block.lines) : bs = bs' := by
  have hgroup := group_flatten h
  rw [heq] at hgroup
  exact congrArg Prod.snd (hgroup.symm.trans (group_flatten h'))

theorem WellGrouped.append {lead' : List Line} (h : WellGrouped lead bs)
    (h' : WellGrouped lead' bs') : WellGrouped [] (bs ++ bs') where
  lead := nofun
  first := forall_mem_append.mpr ⟨h.first, h'.first⟩
  more := forall_mem_append.mpr ⟨h.more, h'.more⟩

theorem group_of_fresh (h : Fresh ls) : (group ls).1 = [] := by
  cases ls with
  | nil => rfl
  | cons l ls => rw [group, if_neg (by simp [h l rfl])]

/-- Lines of which the second part starts a block. -/
theorem group_append {rest : List Line} (h : Fresh rest) :
    group (ls ++ rest) = ((group ls).1, (group ls).2 ++ (group rest).2) := by
  induction ls with
  | nil => exact Prod.ext (group_of_fresh h) rfl
  | cons l ls ih =>
    rw [cons_append, group, group, ih]
    split <;> rfl

end Blocks

/-! ### The lines that stay -/

section Lines

variable {U : CaseTables} {raw : List UInt8} {name : String}
  {l : Line} {ls : List Line} {α : Type} {p : α → Bool} {as : List α}

theorem isEmptyLine_of_isBlankLine (h : isBlankLine l = true) : isEmptyLine l = true := by
  simp only [isBlankLine, Bool.or_eq_true, decide_eq_true_eq] at h
  rcases h with rfl | rfl <;> rfl

/-- What `removeHeader` keeps: of the lines before an empty one the blocks that do not start
with the name. -/
theorem keptLines_group (skipping : Bool) {rest : List Line} (hls : ∀ l ∈ ls, isEmptyLine l = false)
    (hrest : ∀ l ∈ rest.head?, isEmptyLine l = true) :
    keptLines U name skipping (ls ++ rest) = (if skipping then [] else (group ls).1) ++
      ((group ls).2.filter (! startsField U name ·.1)).flatMap Block.lines ++ rest := by
  induction ls generalizing skipping with
  | nil =>
    have hkept : keptLines U name skipping rest = rest := by
      cases rest with
      | nil => rfl
      | cons l rest => rw [keptLines, if_pos (hrest l rfl)]
    rw [nil_append, hkept]
    cases skipping <;> rfl
  | cons l ls ih =>
    rw [forall_mem_cons] at hls
    rw [cons_append, keptLines, if_neg (by simp [hls.1]), group]
    by_cases hblank : startsBlank l = true
    · rw [if_pos hblank, if_pos hblank]
      dsimp only
      rw [ih skipping hls.2]
      cases skipping <;> rfl
    · rw [if_neg hblank, if_neg hblank]
      dsimp only
      rw [ih _ hls.2]
      cases hstart : startsField U name l
      · simp only [Bool.false_eq_true, if_false, filter_cons, hstart, Bool.not_false,
          if_true, flatMap_cons, Block.lines, cons_append, ite_self, nil_append,
          append_assoc]
      · simp only [if_true, filter_cons, hstart, Bool.not_true, Bool.false_eq_true, if_false,
          ite_self, nil_append]

theorem header_eq (raw : List UInt8) : soughtLines raw ++ missedLines raw = header raw :=
  takeWhile_append_dropWhile

theorem lines_eq (raw : List UInt8) :
    lines raw = soughtLines raw ++ (missedLines raw ++ body raw) := by
  rw [← append_assoc, header_eq]
  exact takeWhile_append_dropWhile.symm

theorem not_isBlankLine_of_mem_header : ∀ l ∈ header raw, isBlankLine l = false := by
  intro l hl
  simpa using mem_takeWhile_imp hl

theorem not_isEmptyLine_of_mem_sought : ∀ l ∈ soughtLines raw, isEmptyLine l = false := by
  intro l hl
  simpa using mem_takeWhile_imp hl

/-- A line that `dropWhile` stops at. -/
theorem of_head?_dropWhile : ∀ a ∈ (as.dropWhile p).head?, p a = false := by
  intro a ha
  have hnot := head?_dropWhile_not p as
  rw [Option.mem_def] at ha
  rw [ha] at hnot
  simpa using hnot

theorem isEmptyLine_head_missed (raw : List UInt8) :
    ∀ l ∈ (missedLines raw).head?, isEmptyLine l = true := by
  intro l hl
  simpa using of_head?_dropWhile l hl

theorem isBlankLine_head_body (raw : List UInt8) :
    ∀ l ∈ (body raw).head?, isBlankLine l = true := by
  intro l hl
  simpa using of_head?_dropWhile l hl

theorem isEmptyLine_head_rest :
    ∀ l ∈ (missedLines raw ++ body raw).head?, isEmptyLine l = true := by
  intro l hl
  rcases hmissed : missedLines raw with - | ⟨m, missed⟩
  · rw [hmissed, nil_append] at hl
    exact isEmptyLine_of_isBlankLine (isBlankLine_head_body raw l hl)
  · rw [hmissed] at hl
    refine isEmptyLine_head_missed raw l ?_
    rw [hmissed]
    exact hl

/-- **The lines of the message after the removal.** -/
theorem lines_removeHeader_eq (U : CaseTables) (raw : List UInt8) (name : String) :
    lines (removeHeader U raw name) = (group (soughtLines raw)).1 ++
      ((group (soughtLines raw)).2.filter (! startsField U name ·.1)).flatMap Block.lines ++
      (missedLines raw ++ body raw) := by
  rw [lines_removeHeader, lines_eq raw,
    keptLines_group false not_isEmptyLine_of_mem_sought isEmptyLine_head_rest]
  rfl

/-- The lines that stay of the blocks are lines that were there. -/
theorem mem_flatMap_filter {p : Block → Bool}
    (h : l ∈ (group ls).1 ++ ((group ls).2.filter p).flatMap Block.lines) : l ∈ ls := by
  rw [← flatten_group ls]
  refine mem_append.mpr ((mem_append.mp h).imp_right fun h => ?_)
  obtain ⟨b, hb, hl⟩ := mem_flatMap.mp h
  exact mem_flatMap.mpr ⟨b, (mem_filter.mp hb).1, hl⟩

/-- Removing two names keeps the blocks that start with neither. -/
theorem removeHeader_removeHeader (U : CaseTables) (raw : List UInt8) (name other : String) :
    removeHeader U (removeHeader U raw name) other = ((group (soughtLines raw)).1 ++
      ((group (soughtLines raw)).2.filter
        fun b => ! startsField U other b.1 && ! startsField U name b.1).flatMap Block.lines ++
      (missedLines raw ++ body raw)).flatten := by
  have hgroup := group_flatten ((wellGrouped_group (soughtLines raw)).filter
    (! startsField U name ·.1))
  rw [removeHeader, lines_removeHeader_eq, keptLines_group false
    (fun l hl => not_isEmptyLine_of_mem_sought l (mem_flatMap_filter hl)) isEmptyLine_head_rest,
    hgroup, filter_filter]
  rfl

theorem removeHeader_idem (U : CaseTables) (raw : List UInt8) (name : String) :
    removeHeader U (removeHeader U raw name) name = removeHeader U raw name := by
  rw [removeHeader_removeHeader]
  simp only [Bool.and_self]
  rw [← lines_removeHeader_eq, lines_removeHeader]
  rfl

theorem removeHeader_comm (U : CaseTables) (raw : List UInt8) (name other : String) :
    removeHeader U (removeHeader U raw name) other =
      removeHeader U (removeHeader U raw other) name := by
  rw [removeHeader_removeHeader, removeHeader_removeHeader]
  simp only [Bool.and_comm]

/-! ### The lines that should stay -/

theorem fresh_missed (raw : List UInt8) : Fresh (missedLines raw) := fun l hl =>
  not_startsBlank_of_isEmptyLine (isEmptyLine_head_missed raw l hl)

theorem group_header (raw : List UInt8) : group (header raw) = ((group (soughtLines raw)).1,
    (group (soughtLines raw)).2 ++ (group (missedLines raw)).2) := by
  rw [← header_eq]
  exact group_append (fresh_missed raw)

theorem missed_eq (raw : List UInt8) :
    (group (missedLines raw)).2.flatMap Block.lines = missedLines raw := by
  have hflat := flatten_group (missedLines raw)
  rwa [group_of_fresh (fresh_missed raw), nil_append] at hflat

theorem wellLined_sublist {ls' : List Line} (h : WellLined ls) (hsub : ls'.Sublist ls) :
    WellLined ls' := by
  induction hsub with
  | slnil => trivial
  | cons l _ ih =>
    rcases h with ⟨-, hls⟩ | ⟨-, -, rfl⟩
    · exact ih hls
    · exact ih trivial
  | cons_cons l hsub ih =>
    rcases h with ⟨hl, hls⟩ | ⟨hne, hl, rfl⟩
    · exact .inl ⟨hl, ih hls⟩
    · rw [sublist_nil.mp hsub]
      exact .inr ⟨hne, hl, rfl⟩

theorem flatMap_filter_sublist (p : Block → Bool) (bs : List Block) :
    ((bs.filter p).flatMap Block.lines).Sublist (bs.flatMap Block.lines) := by
  induction bs with
  | nil => exact .refl _
  | cons b bs ih =>
    rw [filter_cons, flatMap_cons]
    split
    · rw [flatMap_cons]
      exact (Sublist.refl _).append ih
    · exact ih.trans (sublist_append_right ..)

/-- The lines of the message without the fields. -/
theorem lines_withoutField (raw : List UInt8) (name : String) :
    lines (withoutField raw name) = (group (header raw)).1 ++
      ((blocks raw).filter (! isField name ·)).flatMap Block.lines ++ body raw := by
  refine lines_flatten (wellLined_sublist (wellLined_lines raw) ?_)
  have hraw : lines raw =
      (group (header raw)).1 ++ (blocks raw).flatMap Block.lines ++ body raw := by
    rw [blocks, flatten_group]
    exact takeWhile_append_dropWhile.symm
  rw [hraw]
  refine .append ?_ (.refl _)
  exact .append (.refl _) (flatMap_filter_sublist ..)

/-- The blocks of the message without the fields are the others. -/
theorem blocks_withoutField (raw : List UInt8) (name : String) :
    blocks (withoutField raw name) = (blocks raw).filter (! isField name ·) := by
  have hheader : header (withoutField raw name) = (group (header raw)).1 ++
      ((blocks raw).filter (! isField name ·)).flatMap Block.lines := by
    rw [header, lines_withoutField, takeWhile_append_of_pos]
    · cases hbody : body raw with
      | nil => rw [takeWhile_nil, append_nil]
      | cons l ls =>
        have hl := isBlankLine_head_body raw l (by rw [hbody]; rfl)
        rw [takeWhile_cons_of_neg (by simp [hl]), append_nil]
    · intro l hl
      rw [not_isBlankLine_of_mem_header l (mem_flatMap_filter hl)]
      rfl
  rw [blocks, hheader, blocks, group_flatten ((wellGrouped_group (header raw)).filter _)]

/-- Filters of one list that keep the same keep the same elements. -/
theorem filter_eq_filter_iff {q : α → Bool} : as.filter p = as.filter q ↔ ∀ a ∈ as, p a = q a := by
  refine ⟨fun h a ha => ?_, filter_congr⟩
  have hmem : a ∈ as.filter p ↔ a ∈ as.filter q := by rw [h]
  rw [mem_filter, mem_filter] at hmem
  exact Bool.eq_iff_iff.mpr (by simpa [ha] using hmem)

/-- **The removal is exact** if the blocks it looks at are judged as they should be, and there
is nothing to remove among those it does not look at. -/
theorem exact_iff (U : CaseTables) (raw : List UInt8) (name : String) :
    removeHeader U raw name = withoutField raw name ↔
      (∀ b ∈ (group (soughtLines raw)).2, startsField U name b.1 = isField name b) ∧
        ∀ b ∈ (group (missedLines raw)).2, isField name b = false := by
  -- compare line by line, and then block by block
  have hlines : removeHeader U raw name = withoutField raw name ↔
      lines (removeHeader U raw name) = lines (withoutField raw name) := by
    refine ⟨congrArg _, fun h => ?_⟩
    rw [lines_removeHeader, lines_withoutField] at h
    exact congrArg flatten h
  have hsought := wellGrouped_group (soughtLines raw)
  have hmissed := wellGrouped_group (missedLines raw)
  rw [hlines, lines_removeHeader_eq, lines_withoutField, blocks, group_header, filter_append,
    flatMap_append, ← append_assoc, append_cancel_right_eq, append_assoc,
    append_cancel_left_eq]
  nth_rewrite 1 [← missed_eq]
  rw [← flatMap_append, ← flatMap_append]
  constructor
  · intro h
    have hboth := eq_of_flatMap_lines ((hsought.filter _).append hmissed)
      ((hsought.filter _).append (hmissed.filter _)) h
    -- what is not looked at stays, so there is no field in it
    have hnone : ∀ b ∈ (group (missedLines raw)).2, isField name b = false := by
      intro b hb
      have hmem := hboth ▸ mem_append_right _ hb
      rcases mem_append.mp hmem with hmem | hmem
      · simpa using (mem_filter.mp hmem).2
      · simpa using (mem_filter.mp hmem).2
    have hself : (group (missedLines raw)).2.filter (! isField name ·) =
        (group (missedLines raw)).2 := filter_eq_self.mpr fun b hb => by rw [hnone b hb]; rfl
    rw [hself, append_cancel_right_eq, filter_eq_filter_iff] at hboth
    exact ⟨fun b hb => Bool.not_inj (hboth b hb), hnone⟩
  · rintro ⟨hagree, hnone⟩
    have hsame : (group (soughtLines raw)).2.filter (! startsField U name ·.1) =
        (group (soughtLines raw)).2.filter (! isField name ·) :=
      filter_congr fun b hb => by rw [hagree b hb]
    have hself : (group (missedLines raw)).2.filter (! isField name ·) =
        (group (missedLines raw)).2 := filter_eq_self.mpr fun b hb => by rw [hnone b hb]; rfl
    rw [hsame, hself]

end Lines

/-! ### Names -/

section Names

variable {U : CaseTables} {name : String}

/-- The rune of an ASCII byte, and the byte of an ASCII rune. -/
def rune (x : UInt8) : Char := Char.ofNat x.toNat
def byte (c : Char) : UInt8 := UInt8.ofNat c.toNat

theorem ascii_facts : ∀ n < 128, (Char.ofNat n).toNat = n ∧
    asciiLower (byte (Char.ofNat n)) = byte (foldASCII (Char.ofNat n)) ∧
    (foldASCII (Char.ofNat n)).toNat < 128 ∧ rune (byte (Char.ofNat n)) = Char.ofNat n ∧
    (33 ≤ n → 33 ≤ (foldASCII (Char.ofNat n)).toNat) ∧
    (isBlank (byte (Char.ofNat n)) = true → (foldASCII (Char.ofNat n)).toNat < 33) := by decide

theorem ascii_facts_char {c : Char} (h : c.toNat < 128) :
    asciiLower (byte c) = byte (foldASCII c) ∧ (foldASCII c).toNat < 128 ∧ rune (byte c) = c ∧
      (33 ≤ c.toNat → 33 ≤ (foldASCII c).toNat) ∧
      (isBlank (byte c) = true → (foldASCII c).toNat < 33) := by
  have hfacts := (ascii_facts c.toNat h).2
  rwa [Char.ofNat_toNat] at hfacts

variable {cs : List Char} {k : List UInt8}

theorem encode_ascii (h : ∀ c ∈ cs, c.toNat < 128) : encode cs = cs.map byte := by
  induction cs with
  | nil => rfl
  | cons c cs ih =>
    rw [forall_mem_cons] at h
    rw [encode_cons, utf8EncodeChar_of_lt h.1, ih h.2]
    rfl

/-- ASCII texts that differ in case are bytes that differ in case. -/
theorem map_foldASCII_iff {ds : List Char} (hcs : ∀ c ∈ cs, c.toNat < 128)
    (hds : ∀ c ∈ ds, c.toNat < 128) : cs.map foldASCII = ds.map foldASCII ↔
      (cs.map byte).map asciiLower = (ds.map byte).map asciiLower := by
  have hlower : ∀ l : List Char, (∀ c ∈ l, c.toNat < 128) →
      (l.map byte).map asciiLower = (l.map foldASCII).map byte := by
    intro l hl
    rw [map_map, map_map]
    exact map_congr_left fun c hc => (ascii_facts_char (hl c hc)).1
  have hback : ∀ l : List Char, (∀ c ∈ l, c.toNat < 128) →
      ((l.map foldASCII).map byte).map rune = l.map foldASCII := by
    intro l hl
    rw [map_map, map_map]
    refine map_congr_left fun c hc => ?_
    exact (ascii_facts_char (ascii_facts_char (hl c hc)).2.1).2.2.1
  rw [hlower cs hcs, hlower ds hds]
  refine ⟨congrArg _, fun h => ?_⟩
  rw [← hback cs hcs, h, hback ds hds]

theorem FieldName.ascii (h : FieldName name) : ∀ c ∈ name.toList, c.toNat < 128 := fun c hc =>
  Nat.lt_of_le_of_lt (h.2 c hc).2.1 (by decide)

theorem mapM_id_eq_some {t : Text} : t.mapM id = some cs ↔ t = cs.map some := by
  induction t generalizing cs with
  | nil =>
    cases cs with
    | nil => exact ⟨fun _ => rfl, fun _ => rfl⟩
    | cons c cs => exact ⟨nofun, nofun⟩
  | cons x t ih =>
    rw [mapM_cons]
    cases x with
    | none =>
      refine ⟨nofun, fun h => ?_⟩
      cases cs <;> cases h
    | some d =>
      cases ht : t.mapM id with
      | none =>
        refine ⟨nofun, fun h => ?_⟩
        cases cs with
        | nil => cases h
        | cons c cs =>
          rw [ih.mpr (cons.inj h).2] at ht
          cases ht
      | some ds =>
        rw [ih.mp ht]
        show some (d :: ds) = some cs ↔ some d :: ds.map some = cs.map some
        rw [← map_cons, Option.some_inj]
        exact ((map_injective_iff.mpr (fun _ _ => Option.some.inj)).eq_iff).symm

/-- A text that folds to a name is the text of runes that do. -/
theorem equalFoldText_iff (hname : FieldName name) :
    equalFoldText U (text k) name = true ↔
      ∃ cs, k = encode cs ∧ cs.map foldASCII = name.toList.map foldASCII := by
  have hall : name.toList.all (·.toNat < 128) = true :=
    all_eq_true.mpr fun c hc => decide_eq_true (hname.ascii c hc)
  rw [equalFoldText]
  constructor
  · intro h
    split at h
    · cases h
    · next cs hcs =>
      rw [if_pos hall, decide_eq_true_eq] at h
      rw [mapM_id_eq_some, text] at hcs
      have hvalid : Valid k := by
        rw [Valid, hcs]
        simp
      obtain ⟨ds, rfl⟩ := (valid_iff k).mp hvalid
      rw [pieces_encode] at hcs
      exact ⟨cs, congrArg _ (map_injective_iff.mpr (fun _ _ => Option.some.inj) hcs), h⟩
  · rintro ⟨cs, rfl, h⟩
    rw [text, pieces_encode, mapM_id_eq_some.mpr rfl]
    dsimp only
    rw [if_pos hall, decide_eq_true_eq]
    exact h

theorem equalFoldText_ascii (hname : FieldName name) (h : ∀ x ∈ k, x.toNat < 128) :
    equalFoldText U (text k) name = true ↔
      k.map asciiLower = (utf8 name).map asciiLower := by
  have hrunes : ∀ c ∈ k.map rune, c.toNat < 128 := by
    intro c hc
    obtain ⟨x, hx, rfl⟩ := mem_map.mp hc
    exact (ascii_facts x.toNat (h x hx)).1.symm ▸ h x hx
  have hk : k = (k.map rune).map byte := by
    rw [map_map]
    conv_lhs => rw [← map_id k]
    refine map_congr_left fun x hx => ?_
    show x = .ofNat (rune x).toNat
    rw [rune, (ascii_facts x.toNat (h x hx)).1, UInt8.ofNat_toNat]
  rw [equalFoldText_iff hname, utf8, encode_ascii hname.ascii]
  constructor
  · rintro ⟨cs, rfl, hcs⟩
    have hascii : ∀ c ∈ cs, c.toNat < 128 := by
      intro c hc
      by_contra hlarge
      obtain ⟨x, hx⟩ := exists_mem_of_ne_nil _ (String.utf8EncodeChar_ne_nil (c := c))
      have hle := le_of_mem_utf8EncodeChar (Nat.le_of_not_lt hlarge) hx
      exact absurd (h x (mem_flatMap.mpr ⟨c, hc, hx⟩)) (Nat.not_lt.mpr hle)
    rw [encode_ascii hascii, ← map_foldASCII_iff hascii hname.ascii]
    exact hcs
  · intro hlower
    refine ⟨k.map rune, ?_, ?_⟩
    · rw [encode_ascii hrunes, ← hk]
    · rw [map_foldASCII_iff hrunes hname.ascii, ← hk]
      exact hlower

/-- What folds to a name has no blank. -/
theorem not_isBlank_of_equalFoldText (hname : FieldName name)
    (h : equalFoldText U (text k) name = true) : ∀ x ∈ k, isBlank x = false := by
  obtain ⟨cs, rfl, hcs⟩ := (equalFoldText_iff hname).mp h
  intro x hx
  obtain ⟨c, hc, hx⟩ := mem_flatMap.mp hx
  by_contra hblank
  by_cases hascii : c.toNat < 128
  · rw [utf8EncodeChar_of_lt hascii, mem_singleton] at hx
    have hsmall := (ascii_facts_char hascii).2.2.2.2 (by simpa [hx, byte] using hblank)
    have hfold : foldASCII c ∈ name.toList.map foldASCII := hcs ▸ mem_map_of_mem hc
    obtain ⟨d, hd, heq⟩ := mem_map.mp hfold
    have hlarge := (ascii_facts_char (hname.ascii d hd)).2.2.2.1 (hname.2 d hd).1
    rw [heq] at hlarge
    omega
  · have hle := le_of_mem_utf8EncodeChar (Nat.le_of_not_lt hascii) hx
    simp only [isBlank, Bool.not_eq_false, Bool.or_eq_true, decide_eq_true_eq] at hblank
    rcases hblank with rfl | rfl
    · exact absurd hle (by decide)
    · exact absurd hle (by decide)

theorem rdropWhile_of_not_isBlank (h : ∀ x ∈ k, isBlank x = false) : k.rdropWhile isBlank = k := by
  rw [rdropWhile_eq_self_iff]
  intro hne
  simp [h _ (getLast_mem hne)]

/-- Bytes of one case with a name are in ASCII. -/
theorem ascii_of_map_asciiLower (hname : FieldName name)
    (h : k.map asciiLower = (utf8 name).map asciiLower) : ∀ x ∈ k, x.toNat < 128 := by
  intro x hx
  rw [utf8, encode_ascii hname.ascii] at h
  have hmem : asciiLower x ∈ (name.toList.map byte).map asciiLower := h ▸ mem_map_of_mem hx
  obtain ⟨y, hy, heq⟩ := mem_map.mp hmem
  obtain ⟨c, hc, rfl⟩ := mem_map.mp hy
  have hc' := hname.ascii c hc
  rw [(ascii_facts_char hc').1] at heq
  have hfold := (ascii_facts_char hc').2.1
  have hlower : (asciiLower x).toNat < 128 := by
    rw [← heq, byte, UInt8.toNat_ofNat']
    omega
  unfold asciiLower at hlower
  split at hlower
  · omega
  · exact hlower

/-- A block is judged as it should be if its name is close to the colon and in ASCII. -/
theorem startsField_eq_iff (hname : FieldName name) (b : Block) :
    startsField U name b.1 = isField name b ↔
      (isField name b = true → ∀ k v, cutColon b.1 = some (k, v) → k.rdropWhile isBlank = k) ∧
      ∀ k v, cutColon b.1 = some (k, v) → equalFoldText U (text k) name = true →
        ∀ x ∈ k, x.toNat < 128 := by
  rw [startsField, isField]
  cases hcut : cutColon b.1 with
  | none => exact ⟨fun _ => ⟨nofun, nofun⟩, fun _ => rfl⟩
  | some kv =>
    obtain ⟨k, v⟩ := kv
    dsimp only
    have hself := rdropWhile_of_not_isBlank ∘ not_isBlank_of_equalFoldText (U := U) hname (k := k)
    rw [Bool.eq_iff_iff, decide_eq_true_eq]
    constructor
    · refine fun hiff => ⟨?_, ?_⟩
      · rintro hfield _ _ ⟨⟩
        exact hself (hiff.mpr hfield)
      · rintro _ _ ⟨⟩ hfold
        have hfield := hiff.mp hfold
        rw [hself hfold] at hfield
        exact ascii_of_map_asciiLower hname hfield
    · rintro ⟨hclose, hascii⟩
      constructor
      · intro hfold
        rw [hself hfold]
        exact (equalFoldText_ascii hname (hascii k v rfl hfold)).mp hfold
      · intro hfield
        have hfield' := hfield
        rw [hclose hfield k v rfl] at hfield'
        exact (equalFoldText_ascii hname (ascii_of_map_asciiLower hname hfield')).mpr hfield'

end Names

/-- **When the removal is exact.** -/
theorem removes_exactly_iff (U : CaseTables) (raw : List UInt8) (name : String)
    (hname : FieldName name) : RemovesExactly U raw name ↔ Plain U raw name := by
  have hplain : Plain U raw name ↔
      (∀ b ∈ (group (soughtLines raw)).2, startsField U name b.1 = isField name b) ∧
        ∀ b ∈ (group (missedLines raw)).2, isField name b = false := by
    constructor
    · rintro ⟨hclose, hascii, hnone⟩
      exact ⟨fun b hb => (startsField_eq_iff hname b).mpr ⟨hclose b hb, hascii b hb⟩, hnone⟩
    · rintro ⟨hagree, hnone⟩
      exact ⟨fun b hb => ((startsField_eq_iff hname b).mp (hagree b hb)).1,
        fun b hb => ((startsField_eq_iff hname b).mp (hagree b hb)).2, hnone⟩
  rw [hplain, ← exact_iff]
  refine ⟨RemovesExactly.exact, fun hexact => ⟨hexact, ?_, ?_, ?_⟩⟩
  · exact removeHeader_idem U raw name
  · exact removeHeader_comm U raw name
  · intro b hb
    rw [hexact, blocks_withoutField] at hb
    simpa using (mem_filter.mp hb).2

/-- A message with a blind copy. -/
def blindCopy : List UInt8 := utf8 "bCC: x@y\r\n\t,z@y\r\nTo: w@y\n\nBcc: no header\r\n"

theorem removes_exactly_iff_blindCopy :
    FieldName "Bcc" ∧ RemovesExactly asciiTables blindCopy "Bcc" := by
  have hname : FieldName "Bcc" := .of_all (by decide) (by decide +kernel)
  refine ⟨hname, (removes_exactly_iff asciiTables blindCopy "Bcc" hname).mpr ?_⟩
  have hsought : (group (soughtLines blindCopy)).2 =
      [(utf8 "bCC: x@y\r\n", [utf8 "\t,z@y\r\n"]), (utf8 "To: w@y\n", [])] := by decide +kernel
  have hmissed : (group (missedLines blindCopy)).2 = [] := by decide +kernel
  have hcopy : cutColon (utf8 "bCC: x@y\r\n") = some (utf8 "bCC", utf8 " x@y\r\n") := by decide +kernel
  have hto : cutColon (utf8 "To: w@y\n") = some (utf8 "To", utf8 " w@y\n") := by decide +kernel
  refine ⟨?_, ?_, ?_⟩
  · rw [hsought]
    rintro b hb - k v hcut
    simp only [mem_cons, not_mem_nil, or_false] at hb
    rcases hb with rfl | rfl
    · cases hcopy.symm.trans hcut
      decide +kernel
    · cases hto.symm.trans hcut
      decide +kernel
  · rw [hsought]
    rintro b hb k v hcut -
    simp only [mem_cons, not_mem_nil, or_false] at hb
    rcases hb with rfl | rfl
    · cases hcopy.symm.trans hcut
      decide +kernel
    · cases hto.symm.trans hcut
      decide +kernel
  · rw [hmissed]
    exact nofun

/-- **A blank before the colon saves a field.** -/
theorem blank_before_colon :
    FieldName "Authentication-Results" ∧
      ¬ RemovesExactly asciiTables (utf8 "Authentication-Results : mx; dmarc=pass\r\n\r\n")
        "Authentication-Results" := by
  refine ⟨.of_all (by decide) (by decide +kernel), fun h => ?_⟩
  exact absurd h.exact (by decide +kernel)

end EmailService.HeaderRemoval
