/-
Utf8.lean

Byte strings that are meant to be UTF-8.

`pieces` walks through a byte string as Go's `utf8.DecodeRune` does: the rune
at the front if the bytes there are well formed, and one invalid byte
otherwise.  A byte string is valid if it has no invalid piece, and then it is
the encoding of its runes (`valid_iff`).  Decoding one rune, and that it
inverts encoding, is taken from the core library.
-/
import Mathlib

namespace Utf8

open List Nat

-- named, so that all definitions use one proof
instance lawfulBEq : LawfulBEq (List UInt8) := inferInstance

variable (cs : List Char)

/-- The bytes of a text. -/
def encode : List UInt8 := cs.flatMap String.utf8EncodeChar

@[simp] theorem encode_nil : encode [] = [] := rfl

@[simp] theorem encode_cons (c : Char) (cs : List Char) :
    encode (c :: cs) = String.utf8EncodeChar c ++ encode cs := flatMap_cons

theorem encode_append (ds : List Char) : encode (cs ++ ds) = encode cs ++ encode ds :=
  flatMap_append

/-- The rune at the front, if the bytes are well formed there. -/
def decodeRune (l : List UInt8) : Option Char := l.toByteArray.utf8DecodeChar? 0

theorem decodeRune_encode (c : Char) (l : List UInt8) :
    decodeRune (String.utf8EncodeChar c ++ l) = some c := by
  rw [decodeRune, toByteArray_append]
  exact ByteArray.utf8DecodeChar?_utf8EncodeChar_append

variable {l : List UInt8} {c : Char} {sep : UInt8}

theorem decodeRune_eq_some (h : decodeRune l = some c) :
    ∃ rest, l = String.utf8EncodeChar c ++ rest := by
  obtain ⟨rest, hrest⟩ := ByteArray.exists_of_utf8DecodeChar?_eq_some h
  refine ⟨rest.data.toList, ?_⟩
  have hdata := congrArg (fun b => b.data.toList) hrest
  simpa [ByteArray.data_append] using hdata

/-! ### Single bytes -/

theorem utf8EncodeChar_of_lt (h : c.toNat < 128) :
    String.utf8EncodeChar c = [UInt8.ofNat c.toNat] := by
  have hle : c.val.toNat ≤ 127 := le_of_lt_succ h
  unfold String.utf8EncodeChar
  exact if_pos hle

/-- The bytes of a rune beyond ASCII are themselves beyond ASCII. -/
theorem le_of_mem_utf8EncodeChar (h : 128 ≤ c.toNat) {b : UInt8}
    (hb : b ∈ String.utf8EncodeChar c) : 128 ≤ b.toNat := by
  have hnot : ¬ c.val.toNat ≤ 127 := Nat.not_le.mpr (Nat.lt_of_lt_of_le (by decide) h)
  unfold String.utf8EncodeChar at hb
  simp only [hnot, if_false] at hb
  split_ifs at hb
  all_goals
    simp only [mem_cons, not_mem_nil, or_false] at hb
    rcases hb with rfl | rfl | rfl | rfl <;> simp only [UInt8.toNat_ofNat'] <;> omega

/-! ### Short byte strings -/

/-- At most `n` bytes, all of them such as `p` says. -/
def Within (p : UInt8 → Prop) (n : ℕ) (l : List UInt8) : Prop := l.length ≤ n ∧ ∀ b ∈ l, p b

namespace Within

variable {p : UInt8 → Prop} {m n : ℕ} {l l' : List UInt8}

theorem append (h : Within p m l) (h' : Within p n l') : Within p (m + n) (l ++ l') := by
  refine ⟨?_, fun b hb => ?_⟩
  · rw [length_append]
    exact Nat.add_le_add h.1 h'.1
  · rcases mem_append.mp hb with hb | hb
    · exact h.2 b hb
    · exact h'.2 b hb

theorem cons {b : UInt8} (hb : p b) (h : Within p n l) : Within p (n + 1) (b :: l) := by
  refine ⟨succ_le_succ h.1, ?_⟩
  rintro b' (- | ⟨-, hb'⟩)
  · exact hb
  · exact h.2 b' hb'

theorem nil : Within p n [] := ⟨zero_le n, fun _ hb => nomatch hb⟩

theorem mono (h : Within p m l) (hmn : m ≤ n) : Within p n l := ⟨Nat.le_trans h.1 hmn, h.2⟩

end Within

/-! ### Pieces -/

/-- The pieces of a byte string after so many bytes of the current rune. -/
def piecesFrom : ℕ → List UInt8 → List (Option Char)
  | _, [] => []
  | skip + 1, _ :: l => piecesFrom skip l
  | 0, b :: l =>
    match decodeRune (b :: l) with
    | some c => some c :: piecesFrom (c.utf8Size - 1) l
    | none => none :: piecesFrom 0 l

/-- The runes and, as `none`, the invalid bytes of a byte string. -/
def pieces (l : List UInt8) : List (Option Char) := piecesFrom 0 l

/-- No byte is invalid. -/
def Valid (l : List UInt8) : Prop := none ∉ pieces l

instance (l : List UInt8) : Decidable (Valid l) := inferInstanceAs (Decidable (none ∉ pieces l))

theorem piecesFrom_append (a l : List UInt8) : piecesFrom a.length (a ++ l) = pieces l := by
  induction a with
  | nil => rfl
  | cons b a ih => exact ih

theorem pieces_utf8EncodeChar (c : Char) (l : List UInt8) :
    pieces (String.utf8EncodeChar c ++ l) = some c :: pieces l := by
  obtain ⟨b, a, hba⟩ := exists_cons_of_ne_nil (String.utf8EncodeChar_ne_nil (c := c))
  have hdecode := decodeRune_encode c l
  have hlen := String.length_utf8EncodeChar c
  rw [hba] at hdecode hlen ⊢
  have hsize : c.utf8Size - 1 = a.length := by
    rw [← hlen]
    rfl
  show (match decodeRune (b :: (a ++ l)) with
    | some c => some c :: piecesFrom (c.utf8Size - 1) (a ++ l)
    | none => none :: piecesFrom 0 (a ++ l)) = _
  rw [show decodeRune (b :: (a ++ l)) = some c from hdecode]
  dsimp only
  rw [hsize, piecesFrom_append]

theorem pieces_encode : pieces (encode cs) = cs.map some := by
  induction cs with
  | nil => rfl
  | cons c cs ih => rw [encode_cons, pieces_utf8EncodeChar, ih, map_cons]

/-- One step along a byte string: a rune, or an invalid byte. -/
theorem pieces_cases (b : UInt8) (l : List UInt8) :
    (∃ c rest, b :: l = String.utf8EncodeChar c ++ rest ∧
        pieces (b :: l) = some c :: pieces rest) ∨
      pieces (b :: l) = none :: pieces l := by
  rcases h : decodeRune (b :: l) with - | c
  · right
    show (match decodeRune (b :: l) with
      | some c => some c :: piecesFrom (c.utf8Size - 1) l
      | none => none :: piecesFrom 0 l) = _
    rw [h]
    rfl
  · obtain ⟨rest, hrest⟩ := decodeRune_eq_some h
    exact .inl ⟨c, rest, hrest, hrest ▸ pieces_utf8EncodeChar c rest⟩

/-- **The valid byte strings are the encodings of texts.** -/
theorem valid_iff (l : List UInt8) : Valid l ↔ ∃ cs, l = encode cs := by
  constructor
  · intro h
    induction hn : l.length using Nat.strongRecOn generalizing l with
    | _ n ih =>
      rcases l with - | ⟨b, l⟩
      · exact ⟨[], rfl⟩
      · unfold Valid at h
        rcases pieces_cases b l with ⟨c, rest, hrest, hpieces⟩ | hpieces
        · rw [hpieces] at h
          have hlt : rest.length < n := by
            rw [← hn, hrest, length_append, String.length_utf8EncodeChar]
            have := Char.utf8Size_pos c
            omega
          obtain ⟨cs, rfl⟩ := ih _ hlt rest (fun hmem => h (mem_cons_of_mem _ hmem)) rfl
          exact ⟨c :: cs, hrest⟩
        · rw [hpieces] at h
          exact absurd mem_cons_self h
  · rintro ⟨cs, rfl⟩
    rw [Valid, pieces_encode]
    simp

/-- ASCII is valid. -/
theorem valid_of_ascii (h : ∀ b ∈ l, b.toNat < 128) : Valid l := by
  rw [valid_iff]
  refine ⟨l.map fun b => .ofNat b.toNat, ?_⟩
  induction l with
  | nil => rfl
  | cons b l ih =>
    have hb : b.toNat < 128 := h b mem_cons_self
    have hall : ∀ n : Fin 128, (Char.ofNat n).toNat = n := by decide
    have hvalid : (Char.ofNat b.toNat).toNat = b.toNat := hall ⟨b.toNat, hb⟩
    rw [map_cons, encode_cons, utf8EncodeChar_of_lt (by rw [hvalid]; exact hb), hvalid,
      ← ih fun b' hb' => h b' (mem_cons_of_mem _ hb'), UInt8.ofNat_toNat]
    rfl

theorem length_piecesFrom_le (skip : ℕ) (l : List UInt8) :
    (piecesFrom skip l).length ≤ l.length := by
  induction l generalizing skip with
  | nil => exact zero_le _
  | cons b l ih =>
    rcases skip with - | skip
    · rw [piecesFrom]
      split
      · exact succ_le_succ (ih _)
      · exact succ_le_succ (ih _)
    · exact le_succ_of_le (ih skip)

/-! ### Repair -/

/-- The byte string with U+FFFD in the place of each invalid byte. -/
def repair (l : List UInt8) : List UInt8 := encode ((pieces l).map (Option.getD · '\ufffd'))

theorem repair_encode : repair (encode cs) = encode cs := by
  rw [repair, pieces_encode, map_map]
  simp [Function.comp_def]

theorem repair_of_valid (h : Valid l) : repair l = l := by
  obtain ⟨cs, rfl⟩ := (valid_iff l).mp h
  exact repair_encode cs

theorem valid_repair (l : List UInt8) : Valid (repair l) := (valid_iff _).mpr ⟨_, rfl⟩

@[simp] theorem repair_repair (l : List UInt8) : repair (repair l) = repair l :=
  repair_of_valid (valid_repair l)

theorem valid_of_repair (h : repair l = l) : Valid l := h ▸ valid_repair l

/-! ### Splitting -/

theorem splitOn_append (h : sep ∉ l) (rest : List UInt8) :
    (l ++ rest).splitOn sep = (rest.splitOn sep).modifyHead (l ++ ·) := by
  induction l with
  | nil =>
    rw [nil_append]
    cases rest.splitOn sep <;> rfl
  | cons b l ih =>
    rw [mem_cons, not_or] at h
    rw [cons_append, splitOn_cons_eq_if_modifyHead, ih h.2, if_neg]
    · cases rest.splitOn sep <;> rfl
    · simpa using Ne.symm h.1

/-- A valid text splits into valid ones at an ASCII character. -/
theorem valid_of_mem_splitOn (hsep : sep.toNat < 128) {part : List UInt8} (h : Valid l)
    (hpart : part ∈ l.splitOn sep) : Valid part := by
  obtain ⟨cs, rfl⟩ := (valid_iff l).mp h
  rw [valid_iff]
  clear h
  induction cs generalizing part with
  | nil => exact ⟨[], mem_singleton.mp hpart⟩
  | cons c cs ih =>
    rw [show encode (c :: cs) = String.utf8EncodeChar c ++ encode cs from rfl] at hpart
    by_cases hmem : sep ∈ String.utf8EncodeChar c
    · -- the separator itself
      have hc : c.toNat < 128 := by
        by_contra hge
        have := le_of_mem_utf8EncodeChar (Nat.le_of_not_lt hge) hmem
        omega
      rw [utf8EncodeChar_of_lt hc, mem_singleton] at hmem
      rw [utf8EncodeChar_of_lt hc, singleton_append, ← hmem,
        splitOn_cons_eq_if_modifyHead, if_pos (beq_self_eq_true sep)] at hpart
      rcases mem_cons.mp hpart with rfl | hpart
      · exact ⟨[], rfl⟩
      · exact ih hpart
    · rw [splitOn_append hmem] at hpart
      cases hparts : (encode cs).splitOn sep with
      | nil => simp [hparts] at hpart
      | cons first rest =>
        rw [hparts, modifyHead_cons, mem_cons] at hpart
        rcases hpart with rfl | hpart
        · obtain ⟨ds, rfl⟩ := ih (hparts ▸ mem_cons_self)
          exact ⟨c :: ds, rfl⟩
        · exact ih (hparts ▸ mem_cons_of_mem _ hpart)

end Utf8
