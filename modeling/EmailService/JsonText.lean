/-
JsonText.lean

Strings and numbers of JSON as Go's `encoding/json` writes and reads them.

Texts are byte strings.  `quote` writes one with the escapes of the encoder
(HTML characters and line separators included); a byte that is not UTF-8 is
written as the escape of U+FFFD.  Reading goes item by item: `item` reads one
rune or the closing quote, and `stringBody` iterates it.  What is read back is
the repaired text (`string_quote`), hence the text itself exactly where it was
valid.

A reader answers `eof` if the input ended too early and `bad` at the first byte
that fits nothing.
-/
import EmailService.Utf8

namespace Json

open Utf8 List

/-- Why a text is not read. -/
inductive Fault
  | eof
  | bad
  deriving DecidableEq

/-- What was read, and what is left. -/
abbrev Reply (α : Type) := Except Fault (α × List UInt8)

/-- Go on with what was read. -/
def Reply.andThen {α β : Type} (r : Reply α) (f : α → List UInt8 → Reply β) : Reply β :=
  match r with
  | .error e => .error e
  | .ok (a, l) => f a l

variable {α β : Type} {n d : ℕ} {l rest : List UInt8} {c : Char}

@[simp] theorem andThen_ok (a : α) (l : List UInt8) (f : α → List UInt8 → Reply β) :
    Reply.andThen (.ok (a, l)) f = f a l := rfl

theorem andThen_eq_ok {r : Reply α} {f : α → List UInt8 → Reply β} {x : β × List UInt8}
    (h : r.andThen f = .ok x) : ∃ a l, r = .ok (a, l) ∧ f a l = .ok x := by
  rcases r with e | ⟨a, l⟩
  · cases h
  · exact ⟨a, l, rfl, h⟩

/-! ### Writing strings -/

/-- A digit in lower-case hexadecimal. -/
def hexDigit (n : ℕ) : UInt8 := UInt8.ofNat (if n < 10 then 48 + n else 87 + n)

/-- Two digits a byte. -/
def hexEncode (l : List UInt8) : List UInt8 :=
  l.flatMap fun b => [hexDigit (b.toNat / 16), hexDigit (b.toNat % 16)]

/-- A rune inside quotes. -/
def escapeRune (c : Char) : List UInt8 :=
  if c = '"' then [92, 34]
  else if c = '\\' then [92, 92]
  else if c = '\x08' then [92, 98]
  else if c = '\x0c' then [92, 102]
  else if c = '\n' then [92, 110]
  else if c = '\r' then [92, 114]
  else if c = '\t' then [92, 116]
  else if c.toNat < 32 ∨ c = '<' ∨ c = '>' ∨ c = '&' then
    [92, 117, 48, 48, hexDigit (c.toNat / 16), hexDigit (c.toNat % 16)]
  else if c = '\u2028' ∨ c = '\u2029' then [92, 117, 50, 48, 50, hexDigit (c.toNat % 16)]
  else String.utf8EncodeChar c

/-- A rune, or the escape that stands for an invalid byte. -/
def escapePiece : Option Char → List UInt8
  | some c => escapeRune c
  | none => [92, 117, 102, 102, 102, 100]

/-- A text between quotes. -/
def quote (s : List UInt8) : List UInt8 := 34 :: ((pieces s).flatMap escapePiece ++ [34])

/-- At most `n` bytes, and none that controls. -/
abbrev Printed (n : ℕ) (l : List UInt8) : Prop := Within (fun b => 32 ≤ b.toNat) n l

theorem hexDigit_toNat (h : n < 16) : 48 ≤ (hexDigit n).toNat ∧ (hexDigit n).toNat < 103 := by
  rw [hexDigit, UInt8.toNat_ofNat']
  split_ifs <;> omega

/-- Hexadecimal digits are printable ASCII. -/
theorem printed_hexEncode (l : List UInt8) :
    Within (fun b => 32 ≤ b.toNat ∧ b.toNat < 128) (2 * l.length) (hexEncode l) := by
  induction l with
  | nil => exact Within.nil
  | cons b l ih =>
    have hlt : b.toNat < 256 := b.toNat_lt
    have ha := hexDigit_toNat (n := b.toNat / 16) (by omega)
    have hb := hexDigit_toNat (n := b.toNat % 16) (by omega)
    exact (ih.cons (by omega)).cons (by omega)

/-- A rune takes at most six bytes inside quotes, and none that controls. -/
theorem escapeRune_spec (c : Char) : Printed 6 (escapeRune c) := by
  unfold escapeRune
  split_ifs with h1 h2 h3 h4 h5 h6 h7 h8 h9
  iterate 7 exact ⟨by decide, by simp⟩
  · -- `\u00` and two hexadecimal digits
    have hlt : c.toNat < 128 := by
      rcases h8 with h | rfl | rfl | rfl
      · omega
      all_goals decide
    have ha := hexDigit_toNat (n := c.toNat / 16) (by omega)
    have hb := hexDigit_toNat (n := c.toNat % 16) (by omega)
    refine ⟨le_rfl, ?_⟩
    simp only [mem_cons, not_mem_nil, or_false]
    rintro b (rfl | rfl | rfl | rfl | rfl | rfl)
    all_goals first | decide | omega
  · rcases h9 with rfl | rfl <;> exact ⟨by decide, by simp [hexDigit]⟩
  · -- the rune itself
    refine ⟨?_, fun b hb => ?_⟩
    · rw [String.length_utf8EncodeChar]
      exact (Char.utf8Size_le_four c).trans (by decide)
    · rcases Nat.lt_or_ge c.toNat 128 with hlt | hge
      · rw [utf8EncodeChar_of_lt hlt, mem_singleton] at hb
        rw [hb, UInt8.toNat_ofNat']
        have : ¬ c.toNat < 32 := fun h => h8 (.inl h)
        omega
      · exact (by decide : 32 ≤ 128).trans (le_of_mem_utf8EncodeChar hge hb)

variable (p : Option Char)

theorem escapePiece_spec : Printed 6 (escapePiece p) := by
  rcases p with - | c
  · exact ⟨by decide, by simp [escapePiece]⟩
  · exact escapeRune_spec c

theorem printed_quote (s : List UInt8) : Printed (6 * s.length + 2) (quote s) := by
  have hflat : ∀ ps : List (Option Char), Printed (6 * ps.length) (ps.flatMap escapePiece) := by
    intro ps
    induction ps with
    | nil => exact Within.nil
    | cons p ps ih =>
      rw [flatMap_cons, length_cons, Nat.mul_succ, Nat.add_comm]
      exact (escapePiece_spec p).append ih
  have hpieces := length_piecesFrom_le 0 s
  refine (((hflat (pieces s)).append ((Within.nil (n := 0)).cons (b := 34) (by decide))).cons
    (b := 34) (by decide)).mono ?_
  rw [pieces]
  omega

/-! ### Reading strings -/

/-- The value of a hexadecimal digit. -/
def hexVal (b : UInt8) : Option ℕ :=
  if 48 ≤ b.toNat ∧ b.toNat ≤ 57 then some (b.toNat - 48)
  else if 97 ≤ b.toNat ∧ b.toNat ≤ 102 then some (b.toNat - 87)
  else if 65 ≤ b.toNat ∧ b.toNat ≤ 70 then some (b.toNat - 55)
  else none

/-- Four hexadecimal digits. -/
def hex4 : List UInt8 → Reply ℕ
  | a :: b :: c :: d :: l =>
    match hexVal a, hexVal b, hexVal c, hexVal d with
    | some a, some b, some c, some d => .ok (((a * 16 + b) * 16 + c) * 16 + d, l)
    | _, _, _, _ => .error .bad
  | l => if l.all fun b => (hexVal b).isSome then .error .eof else .error .bad

/-- The second half of a surrogate pair, if it follows. -/
def lowSurrogate (high : ℕ) : List UInt8 → Option (Char × List UInt8)
  | 92 :: 117 :: l =>
    match hex4 l with
    | .ok (low, l) =>
      if high < 0xDC00 ∧ 0xDC00 ≤ low ∧ low < 0xE000 then
        some (Char.ofNat ((high - 0xD800) * 0x400 + (low - 0xDC00) + 0x10000), l)
      else none
    | .error _ => none
  | _ => none

/-- The rune of a `\u` escape, from its digits on. -/
def unicodeEscape (l : List UInt8) : Reply Char :=
  (hex4 l).andThen fun u l =>
    if 0xD800 ≤ u ∧ u < 0xE000 then .ok ((lowSurrogate u l).getD ('\ufffd', l))
    else .ok (Char.ofNat u, l)

/-- The rune of an escape of one letter. -/
def shortEscape (b : UInt8) : Option Char :=
  if b = 34 then some '"'
  else if b = 92 then some '\\'
  else if b = 47 then some '/'
  else if b = 98 then some '\x08'
  else if b = 102 then some '\x0c'
  else if b = 110 then some '\n'
  else if b = 114 then some '\r'
  else if b = 116 then some '\t'
  else none

/-- An escape, from the letter on. -/
def escaped : List UInt8 → Reply Char
  | [] => .error .eof
  | b :: l =>
    if b = 117 then unicodeEscape l
    else
      match shortEscape b with
      | some c => .ok (c, l)
      | none => .error .bad

/-- One rune of a string, or nothing at the closing quote. -/
def item : List UInt8 → Reply (Option Char)
  | [] => .error .eof
  | b :: l =>
    if b = 34 then .ok (none, l)
    else if b = 92 then (escaped l).andThen fun c l => .ok (some c, l)
    else if b.toNat < 32 then .error .bad
    else
      match decodeRune (b :: l) with
      | some c => .ok (some c, l.drop (c.utf8Size - 1))
      | none => .ok (some '\ufffd', l)

/-- The runes up to the closing quote, at most so many. -/
def stringBody : ℕ → List UInt8 → Reply (List Char)
  | 0, _ => .error .eof
  | n + 1, l =>
    (item l).andThen fun c l =>
      match c with
      | none => .ok ([], l)
      | some c => (stringBody n l).andThen fun cs l => .ok (c :: cs, l)

/-- A string, from after its opening quote on. -/
def string (l : List UInt8) : Reply (List UInt8) :=
  (stringBody (l.length + 1) l).andThen fun cs l => .ok (encode cs, l)

/-- The text of a string that was read needs no repair. -/
theorem repair_of_string {s : List UInt8} (h : string l = .ok (s, rest)) : repair s = s := by
  obtain ⟨cs, l', -, hs⟩ := andThen_eq_ok h
  cases hs
  exact repair_encode cs

/-! ### Strings are read back -/

theorem hexVal_hexDigit (h : n < 16) : hexVal (hexDigit n) = some n := by
  have hall : ∀ i : Fin 16, hexVal (hexDigit i) = some i.val := by decide
  exact hall ⟨n, h⟩

/-- A byte is read from its two digits. -/
theorem hexEncode_injective : Function.Injective hexEncode := by
  intro l l' h
  induction l generalizing l' with
  | nil => cases l' with
    | nil => rfl
    | cons b l' => cases h
  | cons a l ih => cases l' with
    | nil => cases h
    | cons b l' =>
      obtain ⟨hhigh, h⟩ := cons.inj h
      obtain ⟨hlow, h⟩ := cons.inj h
      have ha := a.toNat_lt
      have hb := b.toNat_lt
      have hdiv := congrArg hexVal hhigh
      have hmod := congrArg hexVal hlow
      rw [hexVal_hexDigit (by omega), hexVal_hexDigit (by omega), Option.some.injEq] at hdiv hmod
      have hab : a.toNat = b.toNat := by omega
      rw [UInt8.toNat_inj.mp hab, ih h]

theorem escaped_unicode {a b c u : ℕ} (ha : a < 16) (hb : b < 16) (hc : c < 16) (hd : d < 16)
    (hu : ((a * 16 + b) * 16 + c) * 16 + d = u) (hplain : u < 0xD800 ∨ 0xE000 ≤ u)
    (l : List UInt8) :
    escaped (117 :: hexDigit a :: hexDigit b :: hexDigit c :: hexDigit d :: l) =
      .ok (Char.ofNat u, l) := by
  have hhex : hex4 (hexDigit a :: hexDigit b :: hexDigit c :: hexDigit d :: l) = .ok (u, l) := by
    simp only [hex4, hexVal_hexDigit ha, hexVal_hexDigit hb, hexVal_hexDigit hc,
      hexVal_hexDigit hd, hu]
  have hnot : ¬ (0xD800 ≤ u ∧ u < 0xE000) := by omega
  rw [escaped, if_pos rfl, unicodeEscape, hhex]
  exact if_neg hnot

theorem item_escape (h : escaped l = .ok (c, rest)) : item (92 :: l) = .ok (some c, rest) := by
  rw [item, if_neg (by decide), if_pos rfl, h, andThen_ok]

/-- A rune that stands for itself. -/
theorem item_encode (h32 : 32 ≤ c.toNat) (hquote : c ≠ '"') (hslash : c ≠ '\\') (l : List UInt8) :
    item (String.utf8EncodeChar c ++ l) = .ok (some c, l) := by
  obtain ⟨b, a, hba⟩ := exists_cons_of_ne_nil (String.utf8EncodeChar_ne_nil (c := c))
  have hdecode := decodeRune_encode c l
  have hlen := String.length_utf8EncodeChar c
  -- the first byte is that of no other item
  have hfirst : b ≠ 34 ∧ b ≠ 92 ∧ ¬ b.toNat < 32 := by
    rcases Nat.lt_or_ge c.toNat 128 with hlt | hge
    · rw [utf8EncodeChar_of_lt hlt] at hba
      cases hba
      have hval : (UInt8.ofNat c.toNat).toNat = c.toNat := by
        rw [UInt8.toNat_ofNat']
        omega
      refine ⟨fun h => hquote ?_, fun h => hslash ?_, by omega⟩
      · rw [← Char.ofNat_toNat c, ← hval, h]
        rfl
      · rw [← Char.ofNat_toNat c, ← hval, h]
        rfl
    · have hb : 128 ≤ b.toNat :=
        le_of_mem_utf8EncodeChar hge (by rw [hba]; exact mem_cons_self)
      refine ⟨?_, ?_, by omega⟩ <;> rintro rfl <;> exact absurd hb (by decide)
  rw [hba] at hdecode hlen ⊢
  have hsize : c.utf8Size - 1 = a.length := by
    rw [← hlen]
    rfl
  rw [cons_append, item, if_neg hfirst.1, if_neg hfirst.2.1, if_neg hfirst.2.2]
  rw [show decodeRune (b :: (a ++ l)) = some c from hdecode]
  dsimp only
  rw [hsize, drop_left]

theorem item_escapeRune (c : Char) (l : List UInt8) :
    item (escapeRune c ++ l) = .ok (some c, l) := by
  unfold escapeRune
  split_ifs with h1 h2 h3 h4 h5 h6 h7 h8 h9
  · rw [h1]; rfl
  · rw [h2]; rfl
  · rw [h3]; rfl
  · rw [h4]; rfl
  · rw [h5]; rfl
  · rw [h6]; rfl
  · rw [h7]; rfl
  · have hlt : c.toNat < 128 := by
      rcases h8 with h | rfl | rfl | rfl
      · omega
      all_goals decide
    rw [← Char.ofNat_toNat c]
    have hc : (Char.ofNat c.toNat).toNat = c.toNat := by rw [Char.ofNat_toNat]
    rw [hc]
    exact item_escape (escaped_unicode (a := 0) (b := 0) (by decide) (by decide) (by omega)
      (by omega) (by omega) (by omega) l)
  · have hc : c.toNat / 16 = 0x202 ∧ c.toNat % 16 < 16 := by
      rcases h9 with rfl | rfl <;> decide
    have := item_escape (escaped_unicode (a := 2) (b := 0) (c := 2) (u := c.toNat) (by decide)
      (by decide) (by decide) hc.2 (by omega) (by omega) l)
    rwa [Char.ofNat_toNat] at this
  · exact item_encode (by omega) h1 h2 l

theorem item_escapePiece (l : List UInt8) :
    item (escapePiece p ++ l) = .ok (some (p.getD '\ufffd'), l) := by
  rcases p with - | c
  · exact item_escape (escaped_unicode (a := 15) (b := 15) (c := 15) (d := 13) (by decide)
      (by decide) (by decide) (by decide) rfl (by decide) l)
  · exact item_escapeRune c l

theorem stringBody_escape (ps : List (Option Char)) (l : List UInt8) (hn : ps.length < n) :
    stringBody n (ps.flatMap escapePiece ++ 34 :: l) =
      .ok (ps.map (Option.getD · '\ufffd'), l) := by
  induction ps generalizing n with
  | nil =>
    obtain ⟨n, rfl⟩ := Nat.exists_eq_succ_of_ne_zero (Nat.ne_of_gt hn)
    rfl
  | cons p ps ih =>
    obtain ⟨n, rfl⟩ := Nat.exists_eq_succ_of_ne_zero (Nat.ne_zero_of_lt hn)
    rw [flatMap_cons, append_assoc, stringBody, item_escapePiece, andThen_ok,
      ih (Nat.lt_of_succ_lt_succ hn)]
    rfl

theorem escapePiece_ne_nil : escapePiece p ≠ [] := by
  intro h
  have := item_escapePiece p []
  rw [h] at this
  cases this

theorem length_le_escape (ps : List (Option Char)) :
    ps.length ≤ (ps.flatMap escapePiece).length := by
  induction ps with
  | nil => exact Nat.le_refl 0
  | cons p ps ih =>
    have := length_pos_iff.mpr (escapePiece_ne_nil p)
    rw [flatMap_cons, length_append, length_cons]
    omega

/-- **A quoted text is read as the repaired text.** -/
theorem string_quote (s l : List UInt8) :
    string ((pieces s).flatMap escapePiece ++ 34 :: l) = .ok (repair s, l) := by
  have hlen := length_le_escape (pieces s)
  rw [string, stringBody_escape]
  · rfl
  · rw [length_append]
    omega

/-! ### Numbers -/

def isDigit (b : UInt8) : Bool := 48 ≤ b.toNat && b.toNat ≤ 57

/-- At least one digit. -/
def digits (l : List UInt8) : Reply (List UInt8) :=
  match l.takeWhile isDigit with
  | [] => if l = [] then .error .eof else .error .bad
  | d :: ds => .ok (d :: ds, l.dropWhile isDigit)

/-- Digits without a leading zero. -/
def integer : List UInt8 → Reply (List UInt8)
  | [] => .error .eof
  | b :: l => if b = 48 then .ok ([48], l) else digits (b :: l)

def fraction : List UInt8 → Reply (List UInt8)
  | [] => .ok ([], [])
  | b :: l =>
    if b = 46 then (digits l).andThen fun ds l => .ok (46 :: ds, l) else .ok ([], b :: l)

def exponent : List UInt8 → Reply (List UInt8)
  | [] => .ok ([], [])
  | b :: l =>
    if b = 101 ∨ b = 69 then
      match l with
      | [] => .error .eof
      | sign :: l' =>
        if sign = 43 ∨ sign = 45 then
          (digits l').andThen fun ds l => .ok (b :: sign :: ds, l)
        else (digits l).andThen fun ds l => .ok (b :: ds, l)
    else .ok ([], b :: l)

def unsigned (l : List UInt8) : Reply (List UInt8) :=
  (integer l).andThen fun i l =>
    (fraction l).andThen fun f l =>
      (exponent l).andThen fun e l => .ok (i ++ f ++ e, l)

/-- The text of a number. -/
def number : List UInt8 → Reply (List UInt8)
  | [] => .error .eof
  | b :: l =>
    if b = 45 then (unsigned l).andThen fun ds l => .ok (45 :: ds, l) else unsigned (b :: l)

/-- The text does not continue a number. -/
def Stops (l : List UInt8) : Prop :=
  ∀ b ∈ l.head?, isDigit b = false ∧ b ≠ 46 ∧ b ≠ 101 ∧ b ≠ 69

/-- A number that is read whole, wherever the text does not continue it. -/
def IsNumber (token : List UInt8) : Prop :=
  ∀ l, Stops l → number (token ++ l) = .ok (token, l)

/-- A natural number in decimal. -/
def decimal (n : ℕ) : List UInt8 := (Nat.toDigits 10 n).map fun c => UInt8.ofNat c.toNat

/-- An integer in decimal. -/
def decimalInt (z : ℤ) : List UInt8 := if z < 0 then 45 :: decimal z.natAbs else decimal z.natAbs

theorem decimal_of_lt (h : n < 10) : decimal n = [UInt8.ofNat (48 + n)] := by
  rw [decimal, Nat.toDigits_of_lt_base h]
  have hall : ∀ i : Fin 10, [(Nat.digitChar i)].map (fun c => UInt8.ofNat c.toNat) =
      [UInt8.ofNat (48 + i)] := by decide
  exact hall ⟨n, h⟩

theorem decimal_of_le (h : 10 ≤ n) :
    decimal n = decimal (n / 10) ++ [UInt8.ofNat (48 + n % 10)] := by
  rw [decimal, Nat.toDigits_of_base_le (by decide) h, map_append]
  have hdigit := decimal_of_lt (Nat.mod_lt n (by decide : 0 < 10))
  rw [decimal, Nat.toDigits_of_lt_base (Nat.mod_lt n (by decide : 0 < 10))] at hdigit
  rw [hdigit]
  rfl

theorem isDigit_ofNat (h : d < 10) : isDigit (UInt8.ofNat (48 + d)) = true := by
  have hall : ∀ i : Fin 10, isDigit (UInt8.ofNat (48 + i)) = true := by decide
  exact hall ⟨d, h⟩

theorem isDigit_of_mem_decimal {b : UInt8} (hb : b ∈ decimal n) : isDigit b = true := by
  induction n using Nat.strongRecOn with
  | _ n ih =>
    rcases Nat.lt_or_ge n 10 with hlt | hge
    · rw [decimal_of_lt hlt, mem_singleton] at hb
      exact hb ▸ isDigit_ofNat hlt
    · rw [decimal_of_le hge, mem_append, mem_singleton] at hb
      rcases hb with hb | rfl
      · exact ih (n / 10) (by omega) hb
      · exact isDigit_ofNat (Nat.mod_lt n (by decide))

/-- The first digit is zero only for zero. -/
theorem decimal_cons (n : ℕ) :
    ∃ b l, decimal n = b :: l ∧ isDigit b = true ∧ (b = 48 → n = 0) := by
  induction n using Nat.strongRecOn with
  | _ n ih =>
    rcases Nat.lt_or_ge n 10 with hlt | hge
    · have hall : ∀ i : Fin 10, UInt8.ofNat (48 + i) = 48 → i.val = 0 := by decide
      exact ⟨_, [], decimal_of_lt hlt, isDigit_ofNat hlt, hall ⟨n, hlt⟩⟩
    · obtain ⟨b, l, hbl, hb, hzero⟩ := ih (n / 10) (by omega)
      refine ⟨b, l ++ [UInt8.ofNat (48 + n % 10)], ?_, hb, fun h48 => ?_⟩
      · rw [decimal_of_le hge, hbl, cons_append]
      · have := hzero h48
        omega

theorem integer_decimal (n : ℕ) (hl : Stops l) : integer (decimal n ++ l) = .ok (decimal n, l) := by
  have hall : ∀ b ∈ decimal n, isDigit b = true := fun b hb => isDigit_of_mem_decimal hb
  have hstop : l.takeWhile isDigit = [] ∧ l.dropWhile isDigit = l := by
    rcases l with - | ⟨b, l⟩
    · exact ⟨rfl, rfl⟩
    · have hb := (hl b rfl).1
      exact ⟨takeWhile_cons_of_neg (by simp [hb]), dropWhile_cons_of_neg (by simp [hb])⟩
  obtain ⟨b, ds, hbl, hb, hzero⟩ := decimal_cons n
  by_cases h48 : b = 48
  · rw [hzero h48]
    rfl
  · rw [hbl] at hall ⊢
    rw [cons_append, integer, if_neg h48, digits, ← cons_append,
      takeWhile_append_of_pos hall, dropWhile_append_of_pos hall, hstop.1, hstop.2,
      append_nil]

theorem unsigned_decimal (n : ℕ) (hl : Stops l) :
    unsigned (decimal n ++ l) = .ok (decimal n, l) := by
  have hfraction : fraction l = .ok ([], l) := by
    rcases l with - | ⟨b, l⟩
    · rfl
    · exact if_neg (hl b rfl).2.1
  have hexponent : exponent l = .ok ([], l) := by
    rcases l with - | ⟨b, l⟩
    · rfl
    · exact if_neg (by simp [(hl b rfl).2.2])
  simp [unsigned, integer_decimal n hl, hfraction, hexponent, Reply.andThen]

theorem isNumber_decimal (n : ℕ) : IsNumber (decimal n) := by
  intro l hl
  have h := unsigned_decimal n hl
  obtain ⟨b, ds, hbl, hb, -⟩ := decimal_cons n
  rw [hbl, cons_append] at h ⊢
  rw [number, if_neg _, h]
  rintro rfl
  exact absurd hb (by decide)

theorem printed_decimal {k : ℕ} (h : n < 10 ^ (k + 1)) : Printed (k + 1) (decimal n) := by
  refine ⟨?_, fun b hb => ?_⟩
  · induction k generalizing n with
    | zero =>
      rw [decimal_of_lt (by simpa using h)]
      exact le_rfl
    | succ k ih =>
      rcases Nat.lt_or_ge n 10 with hlt | hge
      · rw [decimal_of_lt hlt]
        exact Nat.succ_le_succ (Nat.zero_le _)
      · have hdiv : n / 10 < 10 ^ (k + 1) := by
          rw [Nat.pow_succ] at h
          omega
        rw [decimal_of_le hge, length_append, length_singleton]
        exact Nat.succ_le_succ (ih hdiv)
  · have hdigit := isDigit_of_mem_decimal hb
    simp only [isDigit, Bool.and_eq_true, decide_eq_true_eq] at hdigit
    omega

theorem isNumber_decimalInt (z : ℤ) : IsNumber (decimalInt z) := by
  unfold decimalInt
  split
  · intro l hl
    rw [cons_append, number, if_pos rfl, unsigned_decimal _ hl]
    rfl
  · exact isNumber_decimal _

/-- `strconv.ParseUint`, without regard to the range. -/
def parseUint (token : List UInt8) : Option ℕ :=
  if token ≠ [] ∧ token.all isDigit then
    some (token.foldl (fun n b => 10 * n + (b.toNat - 48)) 0)
  else none

/-- `strconv.ParseInt`, without regard to the range. -/
def parseInt : List UInt8 → Option ℤ
  | [] => none
  | b :: l =>
    if b = 45 then (parseUint l).map fun n : ℕ => -(n : ℤ)
    else (parseUint (b :: l)).map fun n : ℕ => (n : ℤ)

theorem parseUint_decimal (n : ℕ) : parseUint (decimal n) = some n := by
  have hne : decimal n ≠ [] := by
    obtain ⟨b, ds, hbl, -, -⟩ := decimal_cons n
    simp [hbl]
  have hall : (decimal n).all isDigit = true :=
    all_eq_true.mpr fun b hb => isDigit_of_mem_decimal hb
  rw [parseUint, if_pos ⟨hne, hall⟩]
  congr 1
  induction n using Nat.strongRecOn with
  | _ n ih =>
    have hval : ∀ d < 10, (UInt8.ofNat (48 + d)).toNat - 48 = d := by
      intro d hd
      rw [UInt8.toNat_ofNat']
      omega
    rcases Nat.lt_or_ge n 10 with hlt | hge
    · rw [decimal_of_lt hlt]
      simpa using hval n hlt
    · have hrec := ih (n / 10) (by omega) (by
        obtain ⟨b, ds, hbl, -, -⟩ := decimal_cons (n / 10)
        simp [hbl]) (all_eq_true.mpr fun b hb => isDigit_of_mem_decimal hb)
      rw [decimal_of_le hge, foldl_append, hrec]
      simp only [foldl_cons, foldl_nil, hval _ (Nat.mod_lt n (by decide : 0 < 10))]
      omega

theorem parseInt_decimalInt (z : ℤ) : parseInt (decimalInt z) = some z := by
  unfold decimalInt
  split
  · rw [parseInt, if_pos rfl, parseUint_decimal, Option.map_some]
    congr 1
    omega
  · obtain ⟨b, ds, hbl, hb, -⟩ := decimal_cons z.natAbs
    have h := parseUint_decimal z.natAbs
    rw [hbl] at h ⊢
    rw [parseInt, if_neg _, h, Option.map_some]
    · congr 1
      omega
    · rintro rfl
      exact absurd hb (by decide)

end Json
