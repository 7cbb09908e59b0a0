/-
JsonStruct.lean

JSON objects into structs, as Go's `encoding/json` stores them.

A field is a name and a way to take a value.  A member of the object goes to
the field of exactly its name or, failing that, to the first field whose name
differs only in case; a member without a field is skipped, and of two members
for one field the later one wins.
-/
import EmailService.Json
import EmailService.Rfc3339

namespace Json

open Utf8 List Option

/-- The bytes of a name. -/
def bytes (s : String) : List UInt8 := encode s.toList

/-- One field of a struct; a value of another type is an error. -/
structure Field (σ : Type) where
  name : List UInt8
  store : Value → σ → Option σ

/-- `foldRune`, as far as ASCII names are concerned: lower case to upper case,
and the two other runes that fold to a letter of ASCII. -/
def foldRune (c : Char) : Char :=
  if c = '\u212a' then 'K' else if c = '\u017f' then 'S' else c.toUpper

/-- `foldName`. -/
def foldName (name : List UInt8) : List (Option Char) := (pieces name).map (Option.map foldRune)

variable {σ : Type}

/-- The field a member goes to. -/
def fieldOf (fields : List (Field σ)) (key : List UInt8) : Option (Field σ) :=
  (fields.find? fun f => f.name = key).or
    (fields.find? fun f => foldName f.name = foldName key)

def storeMembers (fields : List (Field σ)) : List (List UInt8 × Value) → σ → Option σ
  | [], s => some s
  | (key, v) :: ms, s =>
    match fieldOf fields key with
    | none => storeMembers fields ms s
    | some f => (f.store v s).bind (storeMembers fields ms)

/-- A value into a struct; `null` leaves it as it is. -/
def storeStruct (fields : List (Field σ)) : Value → σ → Option σ
  | .obj ms, s => storeMembers fields ms s
  | .null, s => some s
  | _, _ => none

/-! ### Fields of basic types -/

def storeString (set : List UInt8 → σ → σ) : Value → σ → Option σ
  | .str b, s => some (set b s)
  | .null, s => some s
  | _, _ => none

/-- An `int`, of 64 bits. -/
def storeInt (set : ℤ → σ → σ) : Value → σ → Option σ
  | .num token, s =>
    match parseInt token with
    | none => none
    | some z => if -2 ^ 63 ≤ z ∧ z < 2 ^ 63 then some (set z s) else none
  | .null, s => some s
  | _, _ => none

def storeUint64 (set : ℕ → σ → σ) : Value → σ → Option σ
  | .num token, s =>
    match parseUint token with
    | none => none
    | some n => if n < 2 ^ 64 then some (set n s) else none
  | .null, s => some s
  | _, _ => none

/-- A `time.Time`, by its instant. -/
def storeTime (set : ℤ → σ → σ) : Value → σ → Option σ
  | .str text, s => (Rfc3339.parse text).map fun t => set t s
  | .null, s => some s
  | _, _ => none

variable {t : ℤ} {v : Value} {l : List UInt8} {s s' : σ} {fields : List (Field σ)} {P : σ → Prop}

theorem storeTime_format (h : Rfc3339.FourDigits 0 t) (set : ℤ → σ → σ) (s : σ) :
    storeTime set (.str (Rfc3339.format 0 t)) s = some (set t s) := by
  have hzone : (0 : ℤ).natAbs < 1440 := by decide
  rw [storeTime, Rfc3339.parse_format hzone h, map_some]

theorem storeInt_decimalInt {z : ℤ} (h : -2 ^ 63 ≤ z ∧ z < 2 ^ 63) (set : ℤ → σ → σ) (s : σ) :
    storeInt set (.num (decimalInt z)) s = some (set z s) := by
  simp only [storeInt, parseInt_decimalInt, if_pos h]

theorem storeUint64_decimal {n : ℕ} (h : n < 2 ^ 64) (set : ℕ → σ → σ) (s : σ) :
    storeUint64 set (.num (decimal n)) s = some (set n s) := by
  simp only [storeUint64, parseUint_decimal, if_pos h]

/-- The text of an instant is not repaired. -/
theorem repair_format (h : Rfc3339.FourDigits 0 t) :
    repair (Rfc3339.format 0 t) = Rfc3339.format 0 t := by
  have hzone : (0 : ℤ).natAbs < 1440 := by decide
  exact repair_of_valid (valid_of_ascii (Rfc3339.short_format hzone h).2)

theorem repair_bytes (s : String) : repair (bytes s) = bytes s := repair_encode _

/-! ### Whole texts -/

/-- Steps that suffice for a text. -/
def budget (l : List UInt8) : ℕ := 2 * l.length + 2

/-- `json.Unmarshal` into a struct: one value, and nothing but spaces around
it. -/
def unmarshal (fields : List (Field σ)) (l : List UInt8) (s : σ) : Option σ :=
  match value (budget l) l with
  | .error _ => none
  | .ok (v, rest) => if rest.all isSpace then storeStruct fields v s else none

/-- **What was printed is stored with its texts repaired.** -/
theorem unmarshal_print (fields : List (Field σ)) (hv : v.Sound) (s : σ) :
    unmarshal fields v.print s = storeStruct fields v.repaired s := by
  have hstops : Stops [] := by
    rintro _ ⟨⟩
  have hvalue := value_print hv hstops (n := budget v.print) (by rw [budget]; omega)
  rw [append_nil] at hvalue
  rw [unmarshal, hvalue]
  rfl

/-- `json.Unmarshal` into an interface. -/
def parse (l : List UInt8) : Option Value :=
  match value (budget l) l with
  | .error _ => none
  | .ok (v, rest) => if rest.all isSpace then some v else none

theorem parse_print (hv : v.Sound) : parse v.print = some v.repaired := by
  have hstops : Stops [] := by
    rintro _ ⟨⟩
  have hvalue := value_print hv hstops (n := budget v.print) (by rw [budget]; omega)
  rw [append_nil] at hvalue
  rw [parse, hvalue]
  rfl

/-- Values of one text differ at most in what is repaired. -/
theorem repaired_eq_of_print {w : Value} (hv : v.Sound) (hw : w.Sound) (h : v.print = w.print) :
    v.repaired = w.repaired :=
  some.inj ((parse_print hv).symm.trans (h ▸ parse_print hw))

/-- `[]string` as a value. -/
def strings (l : List (List UInt8)) : Value := .arr (l.map .str)

theorem sound_strings (l : List (List UInt8)) : (strings l).Sound := by
  rw [strings, Value.Sound]
  induction l with
  | nil => trivial
  | cons s l ih => exact ⟨trivial, ih⟩

theorem repaired_strings (l : List (List UInt8)) :
    (strings l).repaired = strings (l.map repair) := by
  rw [strings, strings, Value.repaired]
  congr 1
  induction l with
  | nil => rfl
  | cons s l ih => exact congrArg (.str (repair s) :: ·) ih

theorem strings_injective : Function.Injective strings := by
  intro l l' h
  exact map_injective_iff.mpr (fun _ _ => Value.str.inj) (Value.arr.inj h)

/-- The elements of an array of strings; `null` reads as the empty one. -/
def readStrings : List Value → Option (List (List UInt8))
  | [] => some []
  | .str s :: vs => (readStrings vs).map (s :: ·)
  | .null :: vs => (readStrings vs).map ([] :: ·)
  | _ => none

/-- `json.Unmarshal` into a `[]string`. -/
def unmarshalStrings (l : List UInt8) : Option (List (List UInt8)) :=
  match parse l with
  | some (.arr vs) => readStrings vs
  | some .null => some []
  | _ => none

theorem unmarshalStrings_print (l : List (List UInt8)) :
    unmarshalStrings (strings l).print = some (l.map repair) := by
  have hread (l : List (List UInt8)) : readStrings (l.map .str) = some l := by
    induction l with
    | nil => rfl
    | cons s l ih => rw [map_cons, readStrings, ih, map_some]
  rw [unmarshalStrings, parse_print (sound_strings l), repaired_strings]
  exact hread _

theorem valid_append {l' : List UInt8} (h : Valid l) (h' : Valid l') : Valid (l ++ l') := by
  obtain ⟨cs, rfl⟩ := (valid_iff l).mp h
  obtain ⟨cs', rfl⟩ := (valid_iff l').mp h'
  exact (valid_iff _).mpr ⟨cs ++ cs', (encode_append cs cs').symm⟩

theorem valid_hexEncode (l : List UInt8) : Valid (hexEncode l) :=
  valid_of_ascii fun b hb => ((printed_hexEncode l).2 b hb).2

theorem valid_escapePiece (p : Option Char) : Valid (escapePiece p) := by
  cases p with
  | none => exact valid_of_ascii (by simp [escapePiece])
  | some c =>
    have hhex {n : ℕ} (h : n < 16) : (hexDigit n).toNat < 128 :=
      (hexDigit_toNat h).2.trans (by decide)
    have hmod := hhex (Nat.mod_lt c.toNat (by decide))
    rw [escapePiece, escapeRune]
    split_ifs with _ _ _ _ _ _ _ hlow hline
    iterate 7 exact valid_of_ascii (by simp)
    · have hdiv : c.toNat / 16 < 16 := by
        rcases hlow with h | rfl | rfl | rfl
        · omega
        all_goals decide
      exact valid_of_ascii (by simpa using ⟨hhex hdiv, hmod⟩)
    · exact valid_of_ascii (by simpa using hmod)
    · exact (valid_iff _).mpr ⟨[c], by simp⟩

/-- A text between quotes is UTF-8. -/
theorem valid_quote (s : List UInt8) : Valid (quote s) := by
  have hbody (ps : List (Option Char)) : Valid (ps.flatMap escapePiece) := by
    induction ps with
    | nil => exact valid_of_ascii nofun
    | cons p ps ih => exact valid_append (valid_escapePiece p) ih
  exact valid_append (l := [34]) (valid_of_ascii (by simp))
    (valid_append (hbody _) (valid_of_ascii (by simp)))

theorem valid_print_strings (l : List (List UInt8)) : Valid (strings l).print := by
  have helements (l : List (List UInt8)) : Valid (printElements (l.map .str)) := by
    induction l with
    | nil => exact valid_of_ascii (by simp [printElements])
    | cons s l ih =>
      exact valid_append (l := [44]) (valid_of_ascii (by simp)) (valid_append (valid_quote s) ih)
  cases l with
  | nil => exact valid_of_ascii (by simp [strings, Value.print])
  | cons s l =>
    exact valid_append (l := [91]) (valid_of_ascii (by simp))
      (valid_append (valid_quote s) (helements l))

/-! ### What a field takes over -/

theorem storeString_ok {set : List UInt8 → σ → σ} (h : storeString set v s = some s')
    (hv : v.repaired = v) : s' = s ∨ ∃ b, Valid b ∧ s' = set b s := by
  cases v with
  | str b =>
    rw [Value.repaired, Value.str.injEq] at hv
    cases h
    exact .inr ⟨b, valid_of_repair hv, rfl⟩
  | null =>
    cases h
    exact .inl rfl
  | _ => cases h

theorem storeInt_ok {set : ℤ → σ → σ} (h : storeInt set v s = some s') :
    s' = s ∨ ∃ z, (-2 ^ 63 ≤ z ∧ z < 2 ^ 63) ∧ s' = set z s := by
  unfold storeInt at h
  split at h
  · split at h
    · cases h
    · split at h
      · next z _ hz =>
        cases h
        exact .inr ⟨z, hz, rfl⟩
      · cases h
  · cases h
    exact .inl rfl
  · cases h

theorem storeUint64_ok {set : ℕ → σ → σ} (h : storeUint64 set v s = some s') :
    s' = s ∨ ∃ n < 2 ^ 64, s' = set n s := by
  unfold storeUint64 at h
  split at h
  · split at h
    · cases h
    · split at h
      · next n _ hn =>
        cases h
        exact .inr ⟨n, hn, rfl⟩
      · cases h
  · cases h
    exact .inl rfl
  · cases h

section

variable (hstore : ∀ f ∈ fields, ∀ v s s', v.repaired = v → f.store v s = some s' → P s → P s')

include hstore

/-- What holds of a struct whatever a field takes over from a text that needs no repair. -/
theorem storeMembers_keeps {ms : List (List UInt8 × Value)} (hms : repairedMembers ms = ms)
    (h : storeMembers fields ms s = some s') (hs : P s) : P s' := by
  induction ms generalizing s with
  | nil =>
    cases h
    exact hs
  | cons m ms ih =>
    obtain ⟨key, v⟩ := m
    rw [repairedMembers, cons.injEq, Prod.mk.injEq] at hms
    rw [storeMembers] at h
    split at h
    · exact ih hms.2 h hs
    · next f hf =>
      obtain ⟨s₁, hs₁, h⟩ := bind_eq_some_iff.mp h
      have hmem : f ∈ fields := by
        rw [fieldOf, or_eq_some_iff] at hf
        rcases hf with hf | ⟨-, hf⟩ <;> exact mem_of_find?_eq_some hf
      exact ih hms.2 h (hstore f hmem v s s₁ hms.1.2 hs₁ hs)

theorem unmarshal_keeps (h : unmarshal fields l s = some s') (hs : P s) : P s' := by
  rw [unmarshal] at h
  split at h
  · cases h
  · next v rest hv =>
    have hclean := (readsClean _).value _ _ _ hv
    split at h
    · cases v with
      | obj ms =>
        rw [Value.repaired, Value.obj.injEq] at hclean
        exact storeMembers_keeps hstore hclean h hs
      | null =>
        cases h
        exact hs
      | _ => cases h
    · cases h

end

end Json
