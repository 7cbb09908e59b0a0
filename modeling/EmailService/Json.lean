/-
Json.lean

JSON values as Go's `encoding/json` writes and reads them: without spaces on
the way out, with spaces between any two tokens on the way in.

`value_print` is the round trip: what is read back is the value with its texts
repaired, and what follows the value is left.  The reader has a budget of
steps; a budget of the length of the text suffices.
-/
import EmailService.JsonText

namespace Json

open Utf8 List

inductive Value
  | null
  | bool (b : Bool)
  /-- a number, by its text -/
  | num (token : List UInt8)
  | str (s : List UInt8)
  | arr (vs : List Value)
  | obj (ms : List (List UInt8 × Value))

/-! ### Writing -/

mutual

def Value.print : Value → List UInt8
  | .null => [110, 117, 108, 108]
  | .bool true => [116, 114, 117, 101]
  | .bool false => [102, 97, 108, 115, 101]
  | .num token => token
  | .str s => quote s
  | .arr [] => [91, 93]
  | .arr (v :: vs) => 91 :: (v.print ++ printElements vs)
  | .obj [] => [123, 125]
  | .obj ((k, v) :: ms) => 123 :: (quote k ++ 58 :: (v.print ++ printMembers ms))

/-- The elements after the first, and the closing bracket. -/
def printElements : List Value → List UInt8
  | [] => [93]
  | v :: vs => 44 :: (v.print ++ printElements vs)

/-- The members after the first, and the closing brace. -/
def printMembers : List (List UInt8 × Value) → List UInt8
  | [] => [125]
  | (k, v) :: ms => 44 :: (quote k ++ 58 :: (v.print ++ printMembers ms))

end

/-! ### Reading -/

def isSpace (b : UInt8) : Bool := b = 32 || b = 9 || b = 13 || b = 10

/-- The next byte that is not a space. -/
def next (l : List UInt8) : Reply UInt8 :=
  match l.dropWhile isSpace with
  | [] => .error .eof
  | b :: l => .ok (b, l)

/-- The rest of a literal. -/
def literal (v : Value) : List UInt8 → List UInt8 → Reply Value
  | [], l => .ok (v, l)
  | _ :: _, [] => .error .eof
  | w :: ws, b :: l => if b = w then literal v ws l else .error .bad

mutual

/-- A value, in at most so many steps. -/
def value : ℕ → List UInt8 → Reply Value
  | 0, _ => .error .eof
  | n + 1, l =>
    (next l).andThen fun b l =>
      if b = 34 then (string l).andThen fun s l => .ok (.str s, l)
      else if b = 123 then
        (next l).andThen fun c l =>
          if c = 125 then .ok (.obj [], l)
          else (members n c l).andThen fun ms l => .ok (.obj ms, l)
      else if b = 91 then
        (next l).andThen fun c l' =>
          if c = 93 then .ok (.arr [], l')
          else (elements n l).andThen fun vs l => .ok (.arr vs, l)
      else if b = 116 then literal (.bool true) [114, 117, 101] l
      else if b = 102 then literal (.bool false) [97, 108, 115, 101] l
      else if b = 110 then literal .null [117, 108, 108] l
      else (number (b :: l)).andThen fun token l => .ok (.num token, l)

/-- Members up to the closing brace, after the first byte of a key. -/
def members : ℕ → UInt8 → List UInt8 → Reply (List (List UInt8 × Value))
  | 0, _, _ => .error .eof
  | n + 1, b, l =>
    if b = 34 then
      (string l).andThen fun k l =>
        (next l).andThen fun colon l =>
          if colon = 58 then
            (value n l).andThen fun v l =>
              (next l).andThen fun d l =>
                if d = 125 then .ok ([(k, v)], l)
                else if d = 44 then
                  (next l).andThen fun b l =>
                    (members n b l).andThen fun ms l => .ok ((k, v) :: ms, l)
                else .error .bad
          else .error .bad
    else .error .bad

/-- Elements up to the closing bracket. -/
def elements : ℕ → List UInt8 → Reply (List Value)
  | 0, _ => .error .eof
  | n + 1, l =>
    (value n l).andThen fun v l =>
      (next l).andThen fun d l =>
        if d = 93 then .ok ([v], l)
        else if d = 44 then (elements n l).andThen fun vs l => .ok (v :: vs, l)
        else .error .bad

end

/-! ### The round trip -/

mutual

/-- The value with its texts repaired. -/
def Value.repaired : Value → Value
  | .str s => .str (repair s)
  | .arr vs => .arr (repairedElements vs)
  | .obj ms => .obj (repairedMembers ms)
  | v => v

def repairedElements : List Value → List Value
  | [] => []
  | v :: vs => v.repaired :: repairedElements vs

def repairedMembers : List (List UInt8 × Value) → List (List UInt8 × Value)
  | [] => []
  | (k, v) :: ms => (repair k, v.repaired) :: repairedMembers ms

end

mutual

/-- Every number of the value is one. -/
def Value.Sound : Value → Prop
  | .num token => IsNumber token ∧ ∃ b l, token = b :: l ∧ (b = 45 ∨ isDigit b = true)
  | .arr vs => SoundElements vs
  | .obj ms => SoundMembers ms
  | _ => True

def SoundElements : List Value → Prop
  | [] => True
  | v :: vs => v.Sound ∧ SoundElements vs

def SoundMembers : List (List UInt8 × Value) → Prop
  | [] => True
  | (_, v) :: ms => v.Sound ∧ SoundMembers ms

end

theorem sound_str (s : List UInt8) : (Value.str s).Sound := by
  rw [Value.Sound]
  all_goals simp

theorem sound_decimal (n : ℕ) : (Value.num (decimal n)).Sound := by
  obtain ⟨b, ds, hbl, hb, -⟩ := decimal_cons n
  rw [Value.Sound]
  exact ⟨isNumber_decimal n, b, ds, hbl, .inr hb⟩

theorem sound_decimalInt (z : ℤ) : (Value.num (decimalInt z)).Sound := by
  rw [Value.Sound]
  refine ⟨isNumber_decimalInt z, ?_⟩
  unfold decimalInt
  split
  · exact ⟨_, _, rfl, .inl rfl⟩
  · obtain ⟨b, ds, hbl, hb, -⟩ := decimal_cons z.natAbs
    exact ⟨b, ds, hbl, .inr hb⟩

variable {b : UInt8} {v : Value} {n : ℕ} {l : List UInt8}

theorem next_cons (h : isSpace b = false) (l : List UInt8) : next (b :: l) = .ok (b, l) := by
  rw [next, dropWhile_cons_of_neg (by simp [h])]

/-- The byte begins no structure and no literal. -/
theorem begins_number (h : b = 45 ∨ isDigit b = true) :
    isSpace b = false ∧ b ≠ 34 ∧ b ≠ 123 ∧ b ≠ 91 ∧ b ≠ 116 ∧ b ≠ 102 ∧ b ≠ 110 := by
  rcases h with rfl | h
  · decide
  · refine ⟨?_, ?_, ?_, ?_, ?_, ?_, ?_⟩
    · by_contra hspace
      simp only [isSpace, Bool.not_eq_false, Bool.or_eq_true, decide_eq_true_eq] at hspace
      rcases hspace with ((rfl | rfl) | rfl) | rfl <;> exact absurd h (by decide)
    all_goals
      rintro rfl
      exact absurd h (by decide)

theorem quote_append (s l : List UInt8) :
    quote s ++ l = 34 :: ((pieces s).flatMap escapePiece ++ 34 :: l) := by
  simp [quote]

theorem stops_of (h : b = 44 ∨ b = 93 ∨ b = 125) (l : List UInt8) : Stops (b :: l) := by
  rintro _ ⟨rfl⟩
  rcases h with rfl | rfl | rfl <;> decide

/-- What follows a value in a structure. -/
theorem stops_printElements (vs : List Value) (l : List UInt8) : Stops (printElements vs ++ l) := by
  rcases vs with - | ⟨v, vs⟩
  · exact stops_of (by decide) _
  · exact stops_of (by decide) _

theorem stops_printMembers (ms : List (List UInt8 × Value)) (l : List UInt8) :
    Stops (printMembers ms ++ l) := by
  rcases ms with - | ⟨⟨k, v⟩, ms⟩
  · exact stops_of (by decide) _
  · exact stops_of (by decide) _

theorem print_cons (hv : v.Sound) : ∃ b l, v.print = b :: l ∧ isSpace b = false ∧ b ≠ 93 := by
  match v, hv with
  | .null, _ => exact ⟨_, _, by rw [Value.print], by decide, by decide⟩
  | .bool true, _ => exact ⟨_, _, by rw [Value.print], by decide, by decide⟩
  | .bool false, _ => exact ⟨_, _, by rw [Value.print], by decide, by decide⟩
  | .num token, hv =>
    rw [Value.Sound] at hv
    obtain ⟨-, b, l, rfl, hb⟩ := hv
    refine ⟨b, l, by rw [Value.print], (begins_number hb).1, ?_⟩
    rintro rfl
    exact absurd hb (by decide)
  | .str s, _ => exact ⟨34, _, by rw [Value.print]; rfl, by decide, by decide⟩
  | .arr [], _ => exact ⟨_, _, by rw [Value.print], by decide, by decide⟩
  | .arr (v :: vs), _ => exact ⟨_, _, by rw [Value.print], by decide, by decide⟩
  | .obj [], _ => exact ⟨_, _, by rw [Value.print], by decide, by decide⟩
  | .obj ((k, v) :: ms), _ => exact ⟨_, _, by rw [Value.print], by decide, by decide⟩

/-- What a budget of `n` steps suffices for: the texts of at most that length. -/
structure ReadsBack (n : ℕ) : Prop where
  value : ∀ v : Value, v.Sound → ∀ l, Stops l → v.print.length ≤ n →
    value n (v.print ++ l) = .ok (v.repaired, l)
  elements : ∀ (v : Value) (vs : List Value), v.Sound → SoundElements vs → ∀ l,
    (v.print ++ printElements vs).length ≤ n →
    elements n (v.print ++ (printElements vs ++ l)) = .ok (v.repaired :: repairedElements vs, l)
  members : ∀ (k : List UInt8) (v : Value) (ms : List (List UInt8 × Value)), v.Sound →
    SoundMembers ms → ∀ l, (quote k ++ 58 :: (v.print ++ printMembers ms)).length ≤ n →
    members n 34
        ((pieces k).flatMap escapePiece ++ 34 :: 58 :: (v.print ++ (printMembers ms ++ l))) =
      .ok ((repair k, v.repaired) :: repairedMembers ms, l)

theorem ReadsBack.value_succ (ih : ReadsBack n) (v : Value) (hv : v.Sound) (l : List UInt8)
    (hl : Stops l) (hn : v.print.length ≤ n + 1) :
    Json.value (n + 1) (v.print ++ l) = .ok (v.repaired, l) := by
  match v, hv with
  | .null, _ => rfl
  | .bool true, _ => rfl
  | .bool false, _ => rfl
  | .num token, hv =>
    rw [Value.Sound] at hv
    obtain ⟨hnumber, b, ds, rfl, hb⟩ := hv
    obtain ⟨h1, h2, h3, h4, h5, h6, h7⟩ := begins_number hb
    rw [Value.print, cons_append, Json.value, next_cons h1, andThen_ok, if_neg h2,
      if_neg h3, if_neg h4, if_neg h5, if_neg h6, if_neg h7, ← cons_append, hnumber l hl,
      andThen_ok, Value.repaired]
    all_goals simp
  | .str s, _ =>
    rw [Value.print, quote_append, Json.value, next_cons (by decide), andThen_ok, if_pos rfl,
      string_quote, andThen_ok, Value.repaired]
  | .arr [], _ => rfl
  | .arr (v :: vs), hv =>
    rw [Value.Sound, SoundElements] at hv
    rw [Value.print, length_cons] at hn
    obtain ⟨b, tail, hbt, hspace, h93⟩ := print_cons hv.1
    have hnext : next (v.print ++ (printElements vs ++ l)) =
        .ok (b, tail ++ (printElements vs ++ l)) := by
      rw [hbt, cons_append, next_cons hspace]
    rw [Value.print, cons_append, append_assoc, Json.value, next_cons (by decide),
      andThen_ok, if_neg (by decide), if_neg (by decide), if_pos rfl, hnext, andThen_ok,
      if_neg h93, ih.elements v vs hv.1 hv.2 l (by omega), andThen_ok, Value.repaired,
      repairedElements]
  | .obj [], _ => rfl
  | .obj ((k, v) :: ms), hv =>
    rw [Value.Sound, SoundMembers] at hv
    rw [Value.print, length_cons] at hn
    rw [Value.print, cons_append, append_assoc, quote_append, Json.value,
      next_cons (by decide), andThen_ok, if_neg (by decide), if_pos rfl, next_cons (by decide),
      andThen_ok, if_neg (by decide), cons_append, append_assoc,
      ih.members k v ms hv.1 hv.2 l (by omega), andThen_ok, Value.repaired, repairedMembers]

theorem ReadsBack.elements_succ (ih : ReadsBack n) (v : Value) (vs : List Value) (hv : v.Sound)
    (hvs : SoundElements vs) (l : List UInt8) (hn : (v.print ++ printElements vs).length ≤ n + 1) :
    Json.elements (n + 1) (v.print ++ (printElements vs ++ l)) =
      .ok (v.repaired :: repairedElements vs, l) := by
  rw [length_append] at hn
  -- a bracket or a comma follows, so the budget covers the value
  have hvalue := ih.value v hv (printElements vs ++ l) (stops_printElements _ _)
  match vs, hvs with
  | [], _ =>
    rw [printElements, length_singleton] at hn
    rw [Json.elements, hvalue (by omega), andThen_ok, printElements, singleton_append,
      next_cons (by decide), andThen_ok, if_pos rfl, repairedElements]
  | w :: ws, hvs =>
    rw [SoundElements] at hvs
    rw [printElements, length_cons] at hn
    rw [Json.elements, hvalue (by omega), andThen_ok, printElements, cons_append,
      next_cons (by decide), andThen_ok, if_neg (by decide), if_pos rfl, append_assoc,
      ih.elements w ws hvs.1 hvs.2 l (by omega), andThen_ok, repairedElements]

theorem ReadsBack.members_succ (ih : ReadsBack n) (k : List UInt8) (v : Value)
    (ms : List (List UInt8 × Value)) (hv : v.Sound) (hms : SoundMembers ms) (l : List UInt8)
    (hn : (quote k ++ 58 :: (v.print ++ printMembers ms)).length ≤ n + 1) :
    Json.members (n + 1) 34
        ((pieces k).flatMap escapePiece ++ 34 :: 58 :: (v.print ++ (printMembers ms ++ l))) =
      .ok ((repair k, v.repaired) :: repairedMembers ms, l) := by
  rw [length_append, length_cons, length_append] at hn
  rw [Json.members, if_pos rfl, string_quote, andThen_ok, next_cons (by decide), andThen_ok,
    if_pos rfl, ih.value v hv _ (stops_printMembers _ _) (by omega), andThen_ok]
  match ms, hms with
  | [], _ =>
    rw [printMembers, singleton_append, next_cons (by decide), andThen_ok, if_pos rfl,
      repairedMembers]
  | (k', w) :: ws, hms =>
    rw [SoundMembers] at hms
    rw [printMembers, length_cons] at hn
    rw [printMembers, cons_append, next_cons (by decide), andThen_ok, if_neg (by decide),
      if_pos rfl, append_assoc, quote_append, next_cons (by decide), andThen_ok,
      cons_append, append_assoc, ih.members k' w ws hms.1 hms.2 l (by omega),
      andThen_ok, repairedMembers]

theorem readsBack (n : ℕ) : ReadsBack n := by
  induction n with
  | zero =>
    refine ⟨fun v hv l _ hn => ?_, fun v vs hv _ l hn => ?_, fun k v ms _ _ l hn => ?_⟩
    · obtain ⟨b, tail, hbt, -⟩ := print_cons hv
      simp [hbt] at hn
    · obtain ⟨b, tail, hbt, -⟩ := print_cons hv
      simp [hbt] at hn
    · simp at hn
  | succ n ih => exact ⟨ih.value_succ, ih.elements_succ, ih.members_succ⟩

/-- **A printed value is read back, with its texts repaired.**  Only a number
needs something behind it that ends it. -/
theorem value_print (hv : v.Sound) (hl : Stops l) (hn : v.print.length ≤ n) :
    value n (v.print ++ l) = .ok (v.repaired, l) :=
  (readsBack n).value v hv l hl hn

/-! ### What was read needs no repair -/

theorem literal_ok {v' : Value} {ws rest : List UInt8} (h : literal v ws l = .ok (v', rest)) :
    v' = v := by
  induction ws generalizing l with
  | nil =>
    cases h
    rfl
  | cons w ws ih =>
    cases l with
    | nil => cases h
    | cons b l =>
      rw [literal] at h
      split at h
      · exact ih h
      · cases h

/-- Values, members and elements that are read in so many steps are repaired. -/
structure ReadsClean (n : ℕ) : Prop where
  value : ∀ l v rest, value n l = .ok (v, rest) → v.repaired = v
  members : ∀ b l ms rest, members n b l = .ok (ms, rest) → repairedMembers ms = ms
  elements : ∀ l vs rest, elements n l = .ok (vs, rest) → repairedElements vs = vs

theorem ReadsClean.value_succ (ih : ReadsClean n) (l : List UInt8) (v : Value) (rest : List UInt8)
    (h : Json.value (n + 1) l = .ok (v, rest)) : v.repaired = v := by
  rw [Json.value] at h
  obtain ⟨b, l₁, -, h⟩ := andThen_eq_ok h
  split_ifs at h
  · obtain ⟨s, l₂, hs, h⟩ := andThen_eq_ok h
    cases h
    rw [Value.repaired, repair_of_string hs]
  · obtain ⟨c, l₂, -, h⟩ := andThen_eq_ok h
    split_ifs at h
    · cases h
      rfl
    · obtain ⟨ms, l₃, hms, h⟩ := andThen_eq_ok h
      cases h
      rw [Value.repaired, ih.members _ _ _ _ hms]
  · obtain ⟨c, l₂, -, h⟩ := andThen_eq_ok h
    split_ifs at h
    · cases h
      rfl
    · obtain ⟨vs, l₃, hvs, h⟩ := andThen_eq_ok h
      cases h
      rw [Value.repaired, ih.elements _ _ _ hvs]
  · rw [literal_ok h]
    rfl
  · rw [literal_ok h]
    rfl
  · rw [literal_ok h]
    rfl
  · obtain ⟨token, l₂, -, h⟩ := andThen_eq_ok h
    cases h
    rfl

theorem ReadsClean.members_succ (ih : ReadsClean n) (b : UInt8) (l : List UInt8)
    (ms : List (List UInt8 × Value)) (rest : List UInt8)
    (h : Json.members (n + 1) b l = .ok (ms, rest)) : repairedMembers ms = ms := by
  rw [Json.members] at h
  split at h
  · obtain ⟨k, l₁, hk, h⟩ := andThen_eq_ok h
    obtain ⟨colon, l₂, -, h⟩ := andThen_eq_ok h
    split at h
    · obtain ⟨v, l₃, hv, h⟩ := andThen_eq_ok h
      obtain ⟨d, l₄, -, h⟩ := andThen_eq_ok h
      split_ifs at h
      · cases h
        rw [repairedMembers, repairedMembers, repair_of_string hk, ih.value _ _ _ hv]
      · obtain ⟨b', l₅, -, h⟩ := andThen_eq_ok h
        obtain ⟨ms', l₆, hms, h⟩ := andThen_eq_ok h
        cases h
        rw [repairedMembers, repair_of_string hk, ih.value _ _ _ hv, ih.members _ _ _ _ hms]
    · cases h
  · cases h

theorem ReadsClean.elements_succ (ih : ReadsClean n) (l : List UInt8) (vs : List Value)
    (rest : List UInt8) (h : Json.elements (n + 1) l = .ok (vs, rest)) :
    repairedElements vs = vs := by
  rw [Json.elements] at h
  obtain ⟨v, l₁, hv, h⟩ := andThen_eq_ok h
  obtain ⟨d, l₂, -, h⟩ := andThen_eq_ok h
  split_ifs at h
  · cases h
    rw [repairedElements, repairedElements, ih.value _ _ _ hv]
  · obtain ⟨vs', l₃, hvs, h⟩ := andThen_eq_ok h
    cases h
    rw [repairedElements, ih.value _ _ _ hv, ih.elements _ _ _ hvs]

theorem readsClean (n : ℕ) : ReadsClean n := by
  induction n with
  | zero => exact ⟨nofun, nofun, nofun⟩
  | succ n ih => exact ⟨ih.value_succ, ih.members_succ, ih.elements_succ⟩

end Json
