/-
EmailService/GoStrings.lean

The functions of Go's package `strings` the modelled code calls, and the
integer verb of `fmt.Sscanf`.  A string is a text: its runes are its
characters.

The case tables of package `unicode` are data, and what is proved with these
functions holds for every table.
-/
import Mathlib

namespace GoStrings

open List

/-- Case mapping, rune by rune: `unicode.ToLower`, and whether two runes lie in
one orbit of `unicode.SimpleFold`. -/
structure CaseTables where
  toLower : Char → Char
  sameFold : Char → Char → Bool

/-- The tables on ASCII. -/
def asciiTables : CaseTables where
  toLower := Char.toLower
  sameFold a b := a.toLower == b.toLower

/-- `strings.ToLower`. -/
def toLower (U : CaseTables) (s : String) : String := String.ofList (s.toList.map U.toLower)

/-- `strings.EqualFold`. -/
def equalFold (U : CaseTables) (s t : String) : Bool :=
  s.toList.length == t.toList.length && (s.toList.zip t.toList).all fun p => U.sameFold p.1 p.2

variable (s : String)

/-- `strings.HasPrefix`. -/
def hasPrefix (start : String) : Bool := start.toList.isPrefixOf s.toList

/-- `strings.HasSuffix`. -/
def hasSuffix (tail : String) : Bool := tail.toList.isSuffixOf s.toList

/-- `strings.TrimSuffix`. -/
def trimSuffix (tail : String) : String :=
  if hasSuffix s tail then String.ofList (s.toList.take (s.toList.length - tail.toList.length))
  else s

/-- `strings.TrimPrefix`. -/
def trimPrefix (start : String) : String :=
  if hasPrefix s start then String.ofList (s.toList.drop start.toList.length) else s

variable (sep : Char)

/-- `strings.Split` at a separator of one rune. -/
def split : List String := (s.toList.splitOn sep).map String.ofList

/-- `strings.Cut` at a separator of one rune; nothing if it does not occur. -/
def cut : Option (String × String) :=
  if sep ∈ s.toList then
    some (String.ofList (s.toList.takeWhile (· ≠ sep)),
      String.ofList ((s.toList.dropWhile (· ≠ sep)).drop 1))
  else none

/-- What follows the last occurrence of a rune: `s[strings.LastIndex(s, sep)+1:]`. -/
def afterLast : Option String :=
  if sep ∈ s.toList then
    some (String.ofList (s.toList.reverse.takeWhile (· ≠ sep)).reverse)
  else none

/-- `strings.Join`. -/
def join (parts : List String) (sep : String) : String := sep.intercalate parts

/-- `unicode.IsSpace`. -/
def isSpace (c : Char) : Bool :=
  c ∈ ['\t', '\n', '\x0b', '\x0c', '\r', ' ', '\u0085', '\u00a0', '\u1680',
    '\u2028', '\u2029', '\u202f', '\u205f', '\u3000'] ||
    ('\u2000' ≤ c && c ≤ '\u200a')

/-- `strings.Fields`: the parts between runs of space. -/
def fields : List String :=
  ((s.toList.splitOnP isSpace).filter (· ≠ [])).map String.ofList

/-- `strings.TrimFunc`. -/
def trimFunc (p : Char → Bool) : String :=
  String.ofList ((s.toList.dropWhile p).rdropWhile p)

/-- `strings.TrimSpace`. -/
def trimSpace : String := trimFunc s isSpace

/-- `strings.Trim`. -/
def trim (cutset : String) : String := trimFunc s cutset.toList.contains

/-- A text has one part more than separators. -/
theorem length_split : (split s sep).length = s.toList.count sep + 1 := by
  unfold split
  rw [length_map]
  induction s.toList with
  | nil => rfl
  | cons c cs ih =>
    rw [splitOn, splitOnP_cons_eq_if_modifyHead]
    rw [splitOn] at ih
    by_cases h : c = sep
    · simp [h, ih]
    · simp [h, ih]

variable {s before after : String} {sep : Char} {α : Type} {p : α → Bool}

/-- Two parts are what stands before and after the only separator. -/
theorem split_eq_pair :
    split s sep = [before, after] ↔
      s.toList = before.toList ++ sep :: after.toList ∧
        sep ∉ before.toList ∧ sep ∉ after.toList := by
  constructor
  · intro h
    have hparts : s.toList.splitOn sep = [before.toList, after.toList] := by
      have := congrArg (map String.toList) h
      simpa [split, Function.comp_def] using this
    have hs : s.toList = before.toList ++ sep :: after.toList := by
      have hjoin : [sep].intercalate (s.toList.splitOn sep) = s.toList :=
        intercalate_splitOn sep
      rw [← hjoin, hparts]
      simp [intercalate, intersperse]
    -- two parts leave room for one separator, and that one is accounted for
    have hcount : s.toList.count sep = 1 := by
      have := length_split s sep
      rw [h] at this
      simpa using this.symm
    rw [hs, count_append, count_cons_self] at hcount
    exact ⟨hs, count_eq_zero.mp (by omega), count_eq_zero.mp (by omega)⟩
  · rintro ⟨hs, hbefore, hafter⟩
    have hno {l : List Char} (h : sep ∉ l) : ∀ c ∈ l, (c == sep) = false := by
      intro c hc
      exact beq_eq_false_iff_ne.mpr fun e => h (e ▸ hc)
    have hsplit := splitOnP_append_cons (p := (· == sep)) before.toList after.toList
      (beq_self_eq_true sep)
    rw [split, hs, splitOn_eq_splitOnP, hsplit, splitOnP_eq_singleton (hno hbefore),
      splitOnP_eq_singleton (hno hafter)]
    simp

/-- `Cut` finds the first separator. -/
theorem cut_eq (hs : s.toList = before.toList ++ sep :: after.toList)
    (hbefore : sep ∉ before.toList) : cut s sep = some (before, after) := by
  have hall : ∀ c ∈ before.toList, decide (c ≠ sep) = true := fun c hc =>
    decide_eq_true fun e => hbefore (e ▸ hc)
  rw [cut, if_pos (by simp [hs]), hs, takeWhile_append_of_pos hall,
    dropWhile_append_of_pos hall]
  simp

/-- `LastIndex` finds the last separator. -/
theorem afterLast_eq (hs : s.toList = before.toList ++ sep :: after.toList)
    (hafter : sep ∉ after.toList) : afterLast s sep = some after := by
  have hall : ∀ c ∈ after.toList.reverse, decide (c ≠ sep) = true := fun c hc =>
    decide_eq_true fun e => hafter (e ▸ mem_reverse.mp hc)
  rw [afterLast, if_pos (by simp [hs]), hs, reverse_append, reverse_cons,
    append_assoc, takeWhile_append_of_pos hall]
  simp

/-- What stands before the first separator is the same. -/
theorem eq_of_append_cons {a : α} {x y v w : List α} (hx : a ∉ x) (hy : a ∉ y)
    (h : x ++ a :: v = y ++ a :: w) : x = y ∧ v = w := by
  induction x generalizing y with
  | nil =>
    cases y with
    | nil => exact ⟨rfl, (cons.inj h).2⟩
    | cons b y => exact absurd (cons.inj h).1 fun hb => hy (hb ▸ mem_cons_self)
  | cons b x ih =>
    cases y with
    | nil => exact absurd (cons.inj h).1.symm fun hb => hx (hb ▸ mem_cons_self)
    | cons c y =>
      obtain ⟨rfl, htail⟩ := cons.inj h
      obtain ⟨rfl, hv⟩ := ih (fun hm => hx (mem_cons_of_mem _ hm))
        (fun hm => hy (mem_cons_of_mem _ hm)) htail
      exact ⟨rfl, hv⟩

theorem dropWhile_append_cons {sep : α} (hsep : p sep = false) (before after : List α) :
    (before ++ sep :: after).dropWhile p = before.dropWhile p ++ sep :: after := by
  induction before with
  | nil => simp [hsep]
  | cons c before ih => by_cases hc : p c <;> simp [hc, ih]

theorem rdropWhile_append_cons {sep : α} (hsep : p sep = false) (before after : List α) :
    (before ++ sep :: after).rdropWhile p = before ++ sep :: after.rdropWhile p := by
  induction after using reverseRecOn with
  | nil => simp [hsep]
  | append_singleton after c ih =>
    rw [← cons_append, ← append_assoc, rdropWhile_concat, rdropWhile_concat]
    by_cases hc : p c
    · simpa [hc] using ih
    · simp [hc]

/-- Trimming stops at a rune that is not in the set. -/
theorem trimFunc_toList {before after : List Char} {p : Char → Bool}
    (hs : s.toList = before ++ sep :: after) (hsep : p sep = false) :
    (trimFunc s p).toList = before.dropWhile p ++ sep :: after.rdropWhile p := by
  rw [trimFunc, String.toList_ofList, hs, dropWhile_append_cons hsep,
    rdropWhile_append_cons hsep]

/-! ### Case -/

@[simp] theorem toList_toLower (U : CaseTables) (s : String) :
    (toLower U s).toList = s.toList.map U.toLower := String.toList_ofList

@[simp] theorem length_toLower (U : CaseTables) (s : String) :
    (toLower U s).toList.length = s.toList.length := by simp

/-- A text is `EqualFold` to its lower case when each of its runes is. -/
theorem equalFold_toLower {U : CaseTables} :
    equalFold U (toLower U s) s = true ↔ ∀ c ∈ s.toList, U.sameFold (U.toLower c) c = true := by
  rw [equalFold, length_toLower, beq_self_eq_true, Bool.true_and, toList_toLower]
  induction s.toList with
  | nil => simp
  | cons c cs ih => simpa using fun _ => ih

/-! ### Fields -/

/-- The parts between runs of space, as lists of runes. -/
def words (cs : List Char) : List (List Char) := (cs.splitOnP isSpace).filter (· ≠ [])

theorem fields_eq (s : String) : fields s = (words s.toList).map String.ofList := rfl

theorem words_space {c : Char} (hc : isSpace c = true) (cs : List Char) :
    words (c :: cs) = words cs := by
  simp [words, splitOnP_cons_eq_if_modifyHead, hc]

/-- A word ends at the end of the text or at a space. -/
theorem words_append {w rest : List Char} (hw : ∀ c ∈ w, isSpace c = false) (hne : w ≠ [])
    (hrest : rest = [] ∨ ∃ c cs, rest = c :: cs ∧ isSpace c = true) :
    words (w ++ rest) = w :: words rest := by
  rcases hrest with rfl | ⟨c, cs, rfl, hc⟩
  · simp [words, splitOnP_eq_singleton hw, hne]
  · rw [words_space hc]
    simp [words, splitOnP_append_cons (p := isSpace) w cs hc,
      splitOnP_eq_singleton hw, hne]

theorem words_spaces (n : ℕ) (cs : List Char) : words (replicate n ' ' ++ cs) = words cs := by
  induction n with
  | zero => rfl
  | succ n ih => rw [replicate_succ, cons_append, words_space (by decide), ih]

/-! ### Scanning a number -/

/-- The runes of the first `n` bytes of a text; a rune cut in two is read as
the replacement character. -/
def firstBytes : ℕ → List Char → List Char
  | _, [] => []
  | 0, _ :: _ => []
  | n + 1, c :: cs =>
    if c.utf8Size ≤ n + 1 then c :: firstBytes (n + 1 - c.utf8Size) cs else ['\ufffd']

/-- Skip leading space as `Sscanf` does, for which a newline is an error. -/
def skipSpace : List Char → Option (List Char)
  | [] => some []
  | c :: cs => if c = '\n' then none else if isSpace c then skipSpace cs else some (c :: cs)

/-- The leading digits as a number; there must be one. -/
def scanDigits (cs : List Char) : Option ℤ :=
  match cs.takeWhile Char.isDigit with
  | [] => none
  | ds => some (ds.foldl (fun n d => 10 * n + ((d.toNat : ℤ) - ('0'.toNat : ℤ))) 0)

/-- The verb `%d` of `fmt.Sscanf`, without regard to overflow. -/
def scanInt (cs : List Char) : Option ℤ :=
  match skipSpace cs with
  | none => none
  | some ('+' :: cs) => scanDigits cs
  | some ('-' :: cs) => (scanDigits cs).map (- ·)
  | some cs => scanDigits cs

example : scanInt (firstBytes 3 "550 no".toList) = some 550 := by decide
example : scanInt (firstBytes 3 "EOF".toList) = none := by decide

end GoStrings
