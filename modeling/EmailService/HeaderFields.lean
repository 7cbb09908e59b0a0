/-
EmailService/HeaderFields.lean

The header of a message on its way through `Data` (internal/smtpd/server.go and
layered.go).

The server reads headers with `net/mail` and rewrites them with functions of its
own, which go through the lines of the message.  `fields_removeHeader` says that
on a message that can be read the two agree: what is removed are whole fields.
So a server that only removes and adds fields of other names leaves the From
fields alone (`fromFields_removeHeader`, `fromFields_prepend`).
-/
import EmailService.GoStrings
import EmailService.MailAddress
import EmailService.MailHeader

namespace EmailService

open GoStrings NetMail List Nat

/-- The bytes of a string. -/
def utf8 (s : String) : List UInt8 := Utf8.encode s.toList

namespace HeaderFields

variable (U : CaseTables)

/-! ### Reading -/

/-- `strings.EqualFold` of a string that need not be valid, with one that is. -/
def equalFoldText (t : Text) (s : String) : Bool :=
  match t.mapM id with
  | none => false
  | some cs =>
    if s.toList.all (·.toNat < 128) then cs.map foldASCII = s.toList.map foldASCII
    else equalFold U (String.ofList cs) s

def trimText (t : Text) : Text :=
  (t.dropWhile (Option.any isSpace)).rdropWhile (Option.any isSpace)

variable (raw : List UInt8) (name : String)

/-- `hasHeader`. -/
def hasHeader (want : String) : Bool :=
  match readMessage raw with
  | none => false
  | some fs =>
    equalFoldText U (trimText (text (NetMail.get fs (canonicalMIMEHeaderKey (utf8 name))))) want

/-- `addressDomain`. -/
def addressDomain (addr : String) : String :=
  ((afterLast (trim (trimSpace addr) "<>") '@').map (toLower U)).getD ""

def fromKey : List UInt8 := utf8 "From"

/-- `headerFromDomain`. -/
def headerFromDomain : String :=
  match readMessage raw with
  | none => ""
  | some fs =>
    if NetMail.get fs fromKey = [] then ""
    else
      match parseAddressList (text (NetMail.get fs fromKey)) with
      | some [a] => addressDomain U a.address
      | _ => ""

/-! ### Rewriting -/

def isEOL (b : UInt8) : Bool := b = 13 || b = 10

/-- The line is empty but for its end. -/
def isEmptyLine (line : List UInt8) : Bool := line.all isEOL

/-- The line starts a field of the name. -/
def startsField (line : List UInt8) : Bool :=
  match cutColon line with
  | none => false
  | some (k, _) => equalFoldText U (text k) name

/-- The loop of `removeHeader` over the lines of the header. -/
def keptLines (name : String) : Bool → List (List UInt8) → List (List UInt8)
  | _, [] => []
  | skipping, l :: ls =>
    if isEmptyLine l then l :: ls
    else
      let skipping := if startsBlank l then skipping else startsField U name l
      if skipping then keptLines name skipping ls else l :: keptLines name skipping ls

/-- `removeHeader`. -/
def removeHeader : List UInt8 :=
  (keptLines U name false (lines raw)).flatten

/-- `sanitizeHeaderValue`. -/
def sanitizeHeaderValue (v : String) : String := String.ofList (v.toList.filter (32 ≤ ·.toNat))

/-- `Header` of a policy action. -/
structure PolicyHeader where
  name : String
  value : String
  action : String

/-- `applyPolicyHeaders`. -/
def applyPolicyHeaders : List UInt8 → List PolicyHeader → Option (List UInt8)
  | raw, [] => some raw
  | raw, h :: hs =>
    if h.name = "" ∨ h.name.toList.any [':', '\r', '\n', ' ', '\t'].contains ∨
        h.value.toList.any ['\r', '\n'].contains then none
    else
      let raw :=
        if h.action = "remove" ∨ h.action = "replace" then removeHeader U raw h.name else raw
      let raw :=
        if h.action = "add" ∨ h.action = "replace" then
          utf8 (h.name ++ ": " ++ h.value ++ "\r\n") ++ raw
        else raw
      applyPolicyHeaders raw hs

/-! ### From fields -/

def asciiLower (b : UInt8) : UInt8 := if 65 ≤ b.toNat ∧ b.toNat ≤ 90 then b + 32 else b

/-- The name of a field is From, in any case and with blanks before the colon. -/
def isFrom (f : Field) : Bool :=
  (f.key.rdropWhile isBlank).map asciiLower = utf8 "from"

def fromFields : List Field := (fields raw).filter isFrom

/-- The addresses a field lists. -/
def addresses (f : Field) : List String :=
  ((parseAddressList (text f.value)).getD []).map Address.address

/-- No spelling of the name is From. -/
def Foreign : Prop :=
  ∀ k, equalFoldText U (text k) name = true → ∀ v, isFrom ⟨canonicalMIMEHeaderKey k, v⟩ = false

/-- No field of the name is one of those. -/
def Spared (p : Field → Bool) : Prop :=
  ∀ k, equalFoldText U (text k) name = true → ∀ v, p ⟨canonicalMIMEHeaderKey k, v⟩ = false

/-! ### Lines that are put together again -/

/-- Lines as `lines` cuts them. -/
def WellLined : List (List UInt8) → Prop
  | [] => True
  | l :: ls =>
    ((∃ body, l = body ++ [10] ∧ 10 ∉ body) ∧ WellLined ls) ∨ (l ≠ [] ∧ 10 ∉ l ∧ ls = [])

theorem lines_append {body : List UInt8} (h : 10 ∉ body) (raw : List UInt8) :
    lines (body ++ 10 :: raw) = (body ++ [10]) :: lines raw := by
  induction body with
  | nil => rfl
  | cons b body ih =>
    rw [mem_cons, not_or] at h
    rw [cons_append, lines, if_neg (Ne.symm h.1), ih h.2]
    rfl

theorem lines_unbroken {l : List UInt8} (hne : l ≠ []) (h : 10 ∉ l) : lines l = [l] := by
  induction l with
  | nil => exact absurd rfl hne
  | cons b l ih =>
    rw [mem_cons, not_or] at h
    rw [lines, if_neg (Ne.symm h.1)]
    rcases l with - | ⟨c, l⟩
    · rfl
    · rw [ih (cons_ne_nil _ _) h.2]

theorem wellLined_lines : WellLined (lines raw) := by
  induction raw with
  | nil => trivial
  | cons b raw ih =>
    unfold lines
    split
    · next hb => exact .inl ⟨⟨[], by rw [hb]; rfl, not_mem_nil⟩, ih⟩
    · next hb =>
      rcases hl : lines raw with - | ⟨l, ls⟩
      · exact .inr ⟨cons_ne_nil _ _, by simpa using Ne.symm hb, rfl⟩
      · rw [hl] at ih
        rcases ih with ⟨⟨body, rfl, hbody⟩, hls⟩ | ⟨-, hl', rfl⟩
        · exact .inl ⟨⟨b :: body, rfl, by simpa using ⟨Ne.symm hb, hbody⟩⟩, hls⟩
        · exact .inr ⟨cons_ne_nil _ _, by simpa using ⟨Ne.symm hb, hl'⟩, rfl⟩

variable {ls : List (List UInt8)} {raw k : List UInt8} {name : String} {b : UInt8}

theorem lines_flatten (h : WellLined ls) : lines ls.flatten = ls := by
  induction ls with
  | nil => rfl
  | cons l ls ih =>
    rcases h with ⟨⟨body, rfl, hbody⟩, hls⟩ | ⟨hne, hl, rfl⟩
    · rw [flatten_cons, append_assoc, singleton_append, lines_append hbody, ih hls]
    · simpa using lines_unbroken hne hl

theorem wellLined_keptLines (name : String) (skipping : Bool) (h : WellLined ls) :
    WellLined (keptLines U name skipping ls) := by
  induction ls generalizing skipping with
  | nil => trivial
  | cons l ls ih =>
    unfold keptLines
    split
    · exact h
    · have hls : WellLined ls := by
        rcases h with ⟨-, hls⟩ | ⟨-, -, rfl⟩
        · exact hls
        · trivial
      dsimp only
      generalize (if startsBlank l = true then skipping else startsField U name l) = skip
      cases skip with
      | true => exact ih _ hls
      | false =>
        rcases h with ⟨hl, -⟩ | ⟨hne, hl, rfl⟩
        · exact .inl ⟨hl, ih _ hls⟩
        · exact .inr ⟨hne, hl, rfl⟩

theorem lines_removeHeader (raw : List UInt8) (name : String) :
    lines (removeHeader U raw name) = keptLines U name false (lines raw) :=
  lines_flatten (wellLined_keptLines U name false (wellLined_lines raw))

/-! ### Fields that are left alone -/

section Kept

variable {U} {name : String}

/-- The first line, if there is one, starts no continuation. -/
def Fresh (ls : List (List UInt8)) : Prop := ∀ l ∈ ls.head?, startsBlank l = false

variable {l k v : List UInt8} {ls : List (List UInt8)} {n : ℕ}

theorem not_startsBlank_of_isEmptyLine (h : isEmptyLine l = true) : startsBlank l = false := by
  rcases l with - | ⟨b, l⟩
  · rfl
  · have hb : b = 13 ∨ b = 10 := by
      simp only [isEmptyLine, all_cons, Bool.and_eq_true, isEOL, Bool.or_eq_true,
        decide_eq_true_eq] at h
      exact h.1
    rcases hb with rfl | rfl <;> rfl

theorem not_isEmptyLine_of_startsBlank (h : startsBlank l = true) : isEmptyLine l = false := by
  by_contra hne
  rw [not_startsBlank_of_isEmptyLine (by simpa using hne)] at h
  cases h

/-- While a field is skipped its continuations are too. -/
theorem fresh_keptLines_skipping (ls : List (List UInt8)) :
    Fresh (keptLines U name true ls) := by
  induction ls with
  | nil => exact nofun
  | cons l ls ih =>
    unfold keptLines
    split
    · next hl =>
      rintro _ ⟨⟩
      exact not_startsBlank_of_isEmptyLine hl
    · by_cases hblank : startsBlank l = true
      · simpa [hblank] using ih
      · by_cases hstart : startsField U name l = true
        · simpa [hblank, hstart] using ih
        · simp only [hblank, hstart]
          rintro _ ⟨⟩
          simpa using hblank

theorem keptLines_of_fresh (h : Fresh ls) (skipping : Bool) :
    keptLines U name skipping ls = keptLines U name false ls := by
  rcases ls with - | ⟨l, ls⟩
  · rfl
  · unfold keptLines
    rw [h l rfl]
    rfl

theorem fresh_keptLines (h : Fresh ls) : Fresh (keptLines U name false ls) := by
  rw [← keptLines_of_fresh h true]
  exact fresh_keptLines_skipping ls

/-- Continuations go the way of their field. -/
theorem keptLines_continued {conts rest : List (List UInt8)}
    (h : ∀ l ∈ conts, startsBlank l = true) (hrest : Fresh rest) (skipping : Bool) :
    keptLines U name skipping (conts ++ rest) =
      (if skipping then [] else conts) ++ keptLines U name false rest := by
  induction conts with
  | nil => cases skipping <;> exact keptLines_of_fresh hrest _
  | cons l conts ih =>
    have hl : startsBlank l = true := h l mem_cons_self
    have htail := ih fun l' hl' => h l' (mem_cons_of_mem _ hl')
    rw [cons_append, keptLines, not_isEmptyLine_of_startsBlank hl, hl]
    cases skipping
    · simpa using htail
    · simpa using htail

/-- The lines a field goes on with, and the lines after them. -/
theorem continued_eq (buf : List UInt8) (ls : List (List UInt8)) :
    ∃ conts rest more, ls = conts ++ rest ∧ (∀ l ∈ conts, startsBlank l = true) ∧ Fresh rest ∧
      ∀ rest', Fresh rest' → continued buf (conts ++ rest') = (buf ++ more, rest') := by
  induction ls generalizing buf with
  | nil =>
    refine ⟨[], [], [], rfl, nofun, nofun, fun rest' hrest' => ?_⟩
    rcases rest' with - | ⟨l, rest'⟩
    · simp [continued]
    · simp [continued, hrest' l rfl]
  | cons l ls ih =>
    by_cases hl : startsBlank l = true
    · obtain ⟨conts, rest, more, rfl, hconts, hrest, hread⟩ :=
        ih (buf ++ 32 :: trimBlank (chomp l))
      refine ⟨l :: conts, rest, 32 :: trimBlank (chomp l) ++ more, rfl, ?_, hrest,
        fun rest' hrest' => ?_⟩
      · rintro l' (- | ⟨-, hl'⟩)
        · exact hl
        · exact hconts l' hl'
      · rw [cons_append, continued, if_pos hl, hread rest' hrest', append_assoc]
    · refine ⟨[], l :: ls, [], rfl, nofun, ?_, fun rest' hrest' => ?_⟩
      · rintro _ ⟨⟩
        simpa using hl
      · rcases rest' with - | ⟨l', rest'⟩
        · simp [continued]
        · simp [continued, hrest' l' rfl]

theorem length_keptLines_le (skipping : Bool) (ls : List (List UInt8)) :
    (keptLines U name skipping ls).length ≤ ls.length := by
  induction ls generalizing skipping with
  | nil => exact le_rfl
  | cons l ls ih =>
    unfold keptLines
    split
    · exact le_rfl
    · dsimp only
      generalize (if startsBlank l = true then skipping else startsField U name l) = skip
      have hle := ih skip
      rw [length_cons]
      cases skip with
      | true => exact le_succ_of_le hle
      | false => exact succ_le_succ hle

theorem Fresh.continued_lt {buf : List UInt8} : (continued buf ls).2.length ≤ ls.length := by
  obtain ⟨conts, rest, more, rfl, -, hrest, hread⟩ := continued_eq buf ls
  rw [hread rest hrest, length_append]
  exact le_add_left _ _

/-- With enough fuel, more of it makes no difference. -/
theorem readFields_fuel {m : ℕ} (hm : ls.length < m) (hn : ls.length < n) :
    readFields m ls = readFields n ls := by
  induction m generalizing n ls with
  | zero => exact absurd hm (not_lt_zero _)
  | succ m ih =>
    cases n with
    | zero => exact absurd hn (not_lt_zero _)
    | succ n =>
      rcases ls with - | ⟨l, ls⟩
      · rfl
      · have hle : (continued (trimBlank (chomp l)) ls).2.length ≤ ls.length :=
          Fresh.continued_lt
        rw [length_cons] at hm hn
        simp only [readFields]
        rw [ih (n := n) (by omega) (by omega)]

theorem cutColon_append (h : 58 ∉ k) (v : List UInt8) : cutColon (k ++ 58 :: v) = some (k, v) := by
  have hk : ∀ b ∈ k, decide (b ≠ 58) = true := fun b hb => decide_eq_true fun e => h (e ▸ hb)
  rw [cutColon, dropWhile_append_of_pos hk, takeWhile_append_of_pos hk]
  simp

theorem cutColon_eq_some (h : cutColon l = some (k, v)) : l = k ++ 58 :: v ∧ 58 ∉ k := by
  unfold cutColon at h
  rcases hd : l.dropWhile (· ≠ 58) with - | ⟨b, rest⟩
  · rw [hd] at h
    cases h
  · rw [hd] at h
    cases h
    have hb : b = 58 := by
      have := head?_dropWhile_not (p := (· ≠ (58 : UInt8))) l
      rw [hd] at this
      simpa using this
    refine ⟨?_, fun hmem => ?_⟩
    · subst hb
      rw [← hd]
      exact (takeWhile_append_dropWhile).symm
    · simpa using mem_takeWhile_imp hmem

theorem chomp_append_cons {b : UInt8} (hb : b ≠ 10 ∧ b ≠ 13) (k v : List UInt8) :
    ∃ v', chomp (k ++ b :: v) = k ++ b :: v' := by
  have hrev : (k ++ b :: v).reverse = v.reverse ++ b :: k.reverse := by simp
  unfold chomp
  split
  · next rest hr =>
    rw [hrev] at hr
    generalize v.reverse = w at hr
    rcases w with - | ⟨c, - | ⟨d, v'⟩⟩
    · exact absurd (cons.inj hr).1 hb.1
    · exact absurd (cons.inj (cons.inj hr).2).1 hb.2
    · cases hr
      exact ⟨v'.reverse, by simp⟩
  · next rest _ hr =>
    rw [hrev] at hr
    generalize v.reverse = w at hr
    rcases w with - | ⟨c, v'⟩
    · exact absurd (cons.inj hr).1 hb.1
    · cases hr
      exact ⟨v'.reverse, by simp⟩
  · exact ⟨v, rfl⟩

/-- The key of a field stands on its first line, if that has a colon. -/
theorem cutColon_trim (hblank : startsBlank l = false) (h : cutColon l = some (k, v))
    (more : List UInt8) : ∃ v', cutColon (trimBlank (chomp l) ++ more) = some (k, v') := by
  obtain ⟨rfl, hk⟩ := cutColon_eq_some h
  obtain ⟨v', hv'⟩ := chomp_append_cons (b := 58) (by decide) k v
  have hstart : k.dropWhile isBlank = k := by
    rcases k with - | ⟨b, k⟩
    · rfl
    · exact dropWhile_cons_of_neg (by simpa [startsBlank] using hblank)
  have htrim : trimBlank (chomp (k ++ 58 :: v)) = k ++ 58 :: v'.rdropWhile isBlank := by
    rw [hv', trimBlank, dropWhile_append_cons rfl, hstart, rdropWhile_append_cons rfl]
  refine ⟨v'.rdropWhile isBlank ++ more, ?_⟩
  rw [htrim, append_assoc, cons_append]
  exact cutColon_append hk _

theorem startsField_spec (hblank : startsBlank l = false) (h : startsField U name l = true)
    (more : List UInt8) :
    ∃ k v, cutColon (trimBlank (chomp l) ++ more) = some (k, v) ∧
      equalFoldText U (text k) name = true ∧ chomp l ≠ [] := by
  unfold startsField at h
  rcases hcut : cutColon l with - | ⟨k, v⟩
  · rw [hcut] at h
    cases h
  · rw [hcut] at h
    obtain ⟨v', hv'⟩ := cutColon_trim hblank hcut more
    refine ⟨k, v', hv', h, ?_⟩
    rw [(cutColon_eq_some hcut).1]
    obtain ⟨w, hw⟩ := chomp_append_cons (b := 58) (by decide) k v
    rw [hw]
    simp

/-- Whatever the lines, the fields of other names stay, and the end of the
header. -/
theorem readFields_keptLines {p : Field → Bool} (hname : Spared U name p) (hls : Fresh ls)
    (hn : ls.length < n) :
    (readFields n (keptLines U name false ls)).1.filter p = (readFields n ls).1.filter p ∧
      (readFields n (keptLines U name false ls)).2 = (readFields n ls).2 := by
  induction n generalizing ls with
  | zero => exact absurd hn (not_lt_zero _)
  | succ n ih =>
    rcases ls with - | ⟨l, ls⟩
    · exact ⟨rfl, rfl⟩
    · have hl : startsBlank l = false := hls l rfl
      rw [keptLines, hl]
      split
      · exact ⟨rfl, rfl⟩
      · obtain ⟨conts, rest, more, rfl, hconts, hrest, hread⟩ :=
          continued_eq (trimBlank (chomp l)) ls
        have hlen : rest.length < n := by
          simp only [length_cons, length_append] at hn
          omega
        have hkept : Fresh (keptLines U name false rest) := fresh_keptLines hrest
        have hfewer : (keptLines U name false rest).length < n :=
          lt_of_le_of_lt (length_keptLines_le false rest) hlen
        dsimp only
        rw [keptLines_continued hconts hrest]
        rcases hstart : startsField U name l with - | -
        · -- the field is kept, and read as it was
          simp only [Bool.false_eq_true, if_false, readFields, hread _ hkept, hread _ hrest]
          split
          · exact ⟨rfl, rfl⟩
          · split
            · exact ⟨rfl, rfl⟩
            · rcases cutColon (trimBlank (chomp l) ++ more) with - | ⟨k, v⟩
              · exact ⟨rfl, rfl⟩
              · dsimp only
                split
                · exact ih hrest hlen
                · rw [filter_cons, filter_cons, (ih hrest hlen).1]
                  exact ⟨rfl, (ih hrest hlen).2⟩
        · -- the field is removed, and is none of those
          obtain ⟨k, v, hcut, hfold, hchomp⟩ := startsField_spec hl hstart more
          have hkv : trimBlank (chomp l) ++ more ≠ [] := by
            rw [(cutColon_eq_some hcut).1]
            simp
          have hread' : readFields (n + 1) (l :: (conts ++ rest)) =
              if canonicalMIMEHeaderKey k = [] then readFields n rest
              else (⟨canonicalMIMEHeaderKey k, v.dropWhile isBlank⟩ :: (readFields n rest).1,
                (readFields n rest).2) := by
            simp only [readFields, if_neg hchomp, hread _ hrest, if_neg hkv, hcut]
          simp only [Bool.false_eq_true, if_false, if_true, nil_append]
          rw [hread', readFields_fuel (n := n) (by omega) hfewer, (ih hrest hlen).1,
            (ih hrest hlen).2]
          split
          · exact ⟨rfl, rfl⟩
          · rw [filter_cons, hname k hfold]
            exact ⟨rfl, rfl⟩

theorem lines_cons (b : UInt8) (raw : List UInt8) :
    ∃ tail ls, lines (b :: raw) = (b :: tail) :: ls := by
  unfold lines
  split
  · exact ⟨_, _, rfl⟩
  · rcases lines raw with - | ⟨l, ls⟩
    · exact ⟨_, _, rfl⟩
    · exact ⟨_, _, rfl⟩

theorem fresh_lines_iff (raw : List UInt8) : Fresh (lines raw) ↔ startsBlank raw = false := by
  rcases raw with - | ⟨b, raw⟩
  · exact ⟨fun _ => rfl, fun _ => nofun⟩
  · obtain ⟨tail, ls, h⟩ := lines_cons b raw
    rw [h]
    constructor
    · exact fun hfresh => hfresh (b :: tail) rfl
    · rintro hb _ ⟨⟩
      exact hb

end Kept

theorem startsBlank_removeHeader (h : startsBlank raw = false) (name : String) :
    startsBlank (removeHeader U raw name) = false := by
  rw [← fresh_lines_iff] at h ⊢
  rw [lines_removeHeader]
  exact fresh_keptLines h

/-- **Removing fields leaves the fields of other names alone, and the end of the
header.** -/
theorem readHeader_removeHeader {p : Field → Bool} (hname : Spared U name p) (raw : List UInt8) :
    (fields (removeHeader U raw name)).filter p = (fields raw).filter p ∧
      (readHeader (removeHeader U raw name)).2 = (readHeader raw).2 := by
  unfold NetMail.fields readHeader
  rcases hblank : startsBlank raw with - | -
  · have hfresh := (fresh_lines_iff raw).mpr hblank
    have hkept := startsBlank_removeHeader U hblank name
    have hle : (keptLines U name false (lines raw)).length ≤ (lines raw).length :=
      length_keptLines_le false (lines raw)
    rw [hkept, if_neg nofun, if_neg nofun, lines_removeHeader,
      readFields_fuel (lt_succ_self _) (lt_succ_of_le hle)]
    exact readFields_keptLines hname hfresh (lt_succ_self _)
  · -- the first line stays, and with it the error
    have hkept : startsBlank (removeHeader U raw name) = true := by
      rcases raw with - | ⟨b, raw⟩
      · cases hblank
      · obtain ⟨tail, ls, h⟩ := lines_cons b raw
        have hl : startsBlank (b :: tail) = true := hblank
        rw [removeHeader, h, keptLines, not_isEmptyLine_of_startsBlank hl, hl]
        exact hblank
    rw [hkept]
    exact ⟨rfl, rfl⟩

theorem fromFields_removeHeader (hname : Foreign U name) (raw : List UInt8) :
    fromFields (removeHeader U raw name) = fromFields raw :=
  (readHeader_removeHeader U hname raw).1

/-! ### Names that are not From -/

theorem asciiLower_eq_f (h : asciiLower b = 102) : b = 70 ∨ b = 102 := by
  unfold asciiLower at h
  split at h
  · left
    rw [← UInt8.toNat_inj] at h ⊢
    rw [UInt8.toNat_add] at h
    simp only [UInt8.reduceToNat] at h ⊢
    omega
  · exact .inr h

theorem head_of_isFrom {f : Field} (h : isFrom f = true) :
    ∃ b rest, f.key = b :: rest ∧ (b = 70 ∨ b = 102) := by
  have hmap : (f.key.rdropWhile isBlank).map asciiLower = utf8 "from" := by simpa [isFrom] using h
  rcases hname : f.key.rdropWhile isBlank with - | ⟨b, name⟩
  · rw [hname] at hmap
    cases hmap
  · obtain ⟨rest, hrest⟩ := rdropWhile_prefix isBlank f.key
    rw [hname] at hmap hrest
    exact ⟨b, name ++ rest, hrest.symm, asciiLower_eq_f (cons.inj hmap).1⟩

theorem head_of_canonical {rest : List UInt8} (hb : b = 70 ∨ b = 102)
    (h : canonicalMIMEHeaderKey k = b :: rest) :
    ∃ b' rest', k = b' :: rest' ∧ (b' = 70 ∨ b' = 102) := by
  unfold canonicalMIMEHeaderKey at h
  split at h
  · rcases k with - | ⟨b', k⟩
    · cases h
    · refine ⟨b', k, rfl, ?_⟩
      have hc := (cons.inj h).1
      simp only [Bool.true_and, Bool.not_true, Bool.false_and, Bool.false_eq_true, if_false] at hc
      split at hc
      · next hlower =>
        right
        simp only [Bool.and_eq_true, decide_eq_true_eq] at hlower
        have hnat : b.toNat = b'.toNat - 32 := by
          rw [← hc, UInt8.toNat_sub_of_le]
          · rfl
          · rw [UInt8.le_iff_toNat_le]
            exact le_trans (by decide) hlower.1
        rw [← UInt8.toNat_inj]
        rcases hb with rfl | rfl
        · simp only [UInt8.reduceToNat] at hnat ⊢
          omega
        · simp only [UInt8.reduceToNat] at hnat ⊢
          omega
      · rw [hc]
        exact hb
  · exact ⟨b, rest, h, hb⟩

/-- A name in ASCII with another first letter. -/
theorem foreign_of_head {c : Char} (hascii : name.toList.all (·.toNat < 128) = true)
    (hc : (name.toList.map foldASCII).head? = some c) (hne : c ≠ 'f') : Foreign U name := by
  intro k hfold v
  by_contra hfrom
  obtain ⟨b, rest, hkey, hb⟩ := head_of_isFrom (by simpa using hfrom)
  obtain ⟨b', rest', rfl, hb'⟩ := head_of_canonical hb hkey
  have hpieces : ∃ d, foldASCII d = 'f' ∧ text (b' :: rest') = some d :: text rest' := by
    rcases hb' with rfl | rfl
    · exact ⟨'F', rfl, Utf8.pieces_utf8EncodeChar 'F' rest'⟩
    · exact ⟨'f', rfl, Utf8.pieces_utf8EncodeChar 'f' rest'⟩
  obtain ⟨d, hd, htext⟩ := hpieces
  unfold equalFoldText at hfold
  rw [htext] at hfold
  rcases hcs : mapM id (some d :: text rest') with - | cs
  · rw [hcs] at hfold
    cases hfold
  · rw [hcs] at hfold
    dsimp only at hfold
    rw [if_pos hascii, decide_eq_true_eq] at hfold
    obtain ⟨cs', rfl⟩ : ∃ cs', cs = d :: cs' := by
      rw [mapM_cons] at hcs
      rcases htail : mapM id (text rest') with - | cs'
      · rw [htail] at hcs
        cases hcs
      · rw [htail] at hcs
        cases hcs
        exact ⟨cs', rfl⟩
    rw [← hfold, map_cons, head?_cons, hd] at hc
    cases hc
    exact hne rfl

/-- **A field of another name before a message leaves its From fields alone.** -/
theorem fromFields_prepend {v : List UInt8} (hk : 58 ∉ k) (hLF : 10 ∉ k ++ 58 :: v)
    (hkey : ∀ w, isFrom ⟨canonicalMIMEHeaderKey k, w⟩ = false)
    (hstart : startsBlank (k ++ [58]) = false) (hraw : startsBlank raw = false) :
    fromFields (k ++ 58 :: v ++ 10 :: raw) = fromFields raw := by
  have hfresh := (fresh_lines_iff raw).mpr hraw
  have hblank : ∀ w, startsBlank (k ++ 58 :: w) = false := by
    intro w
    cases k <;> exact hstart
  have hcut : cutColon (k ++ 58 :: v ++ [10]) = some (k, v ++ [10]) := by
    rw [append_assoc, cons_append, cutColon_append hk]
  obtain ⟨v', hv'⟩ := cutColon_trim (by rw [append_assoc]; exact hblank _) hcut []
  rw [append_nil] at hv'
  have hchomp : chomp (k ++ 58 :: v ++ [10]) ≠ [] := by
    rw [append_assoc, cons_append]
    obtain ⟨w, hw⟩ := chomp_append_cons (b := 58) (by decide) k (v ++ [10])
    rw [hw]
    simp
  have hkv : trimBlank (chomp (k ++ 58 :: v ++ [10])) ≠ [] := by
    rw [(cutColon_eq_some hv').1]
    simp
  have hcont : continued (trimBlank (chomp (k ++ 58 :: v ++ [10]))) (lines raw) =
      (trimBlank (chomp (k ++ 58 :: v ++ [10])), lines raw) := by
    rcases hl : lines raw with - | ⟨l, ls⟩
    · rfl
    · rw [hl] at hfresh
      rw [continued, hfresh l rfl, if_neg nofun]
  unfold fromFields NetMail.fields readHeader
  rw [hraw, append_assoc k, cons_append, hblank, if_neg nofun, if_neg nofun,
    ← cons_append, ← append_assoc, lines_append hLF, length_cons, readFields,
    if_neg hchomp, hcont]
  simp only [if_neg hkv, hv']
  split
  · rfl
  · rw [filter_cons, hkey]
    rfl

end HeaderFields

end EmailService
