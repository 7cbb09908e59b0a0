/-
EmailService/CivilTime.lean

Civil time in the Gregorian calendar, and texts that render it in fields of
fixed width.

A reading of a wall clock is the number of nanoseconds since the midnight that
began year 1.  `civil` splits it into year, month, day, hour, minute, second
and nanosecond.  Each split is a division with remainder, so the order of the
readings is the lexicographic order of the fields (`fields_lt_fields`).  A
field in a fixed number of decimal digits keeps its order too, and so does a
layout of such fields with literals between them (`render_lt_render`): texts
of this kind sort as the clock reads.
-/
import Mathlib

namespace CivilTime

open List Nat

/-! ### Lexicographic order of lists -/

section Lex

variable {β : Type*} [LinearOrder β]

/-- The first difference decides, whatever follows. -/
theorem append_lt_append_of_lt {a b : List β} (hlen : a.length = b.length) (h : a < b)
    (c d : List β) : a ++ c < b ++ d := by
  induction a generalizing b with
  | nil =>
    rw [length_eq_zero_iff.mp hlen.symm] at h
    exact absurd h (lt_irrefl _)
  | cons x a ih =>
    rcases b with - | ⟨y, b⟩
    · cases hlen
    · rw [cons_append, cons_append, cons_lt_cons_iff]
      rcases cons_lt_cons_iff.mp h with hxy | ⟨hxy, hab⟩
      · exact .inl hxy
      · exact .inr ⟨hxy, ih (succ.inj hlen) hab⟩

theorem append_lt_append_left {c d : List β} (h : c < d) (a : List β) : a ++ c < a ++ d := by
  induction a with
  | nil => exact h
  | cons x a ih =>
    rw [cons_append, cons_append, cons_lt_cons_iff]
    exact .inr ⟨rfl, ih⟩

end Lex

/-! ### Decimal fields -/

/-- `n` in `w` decimal digits. -/
def pad : ℕ → ℕ → List Char
  | 0, _ => []
  | w + 1, n => pad w (n / 10) ++ [digitChar (n % 10)]

@[simp] theorem length_pad (w n : ℕ) : (pad w n).length = w := by
  induction w generalizing n with
  | zero => rfl
  | succ w ih => simp [pad, ih]

variable {m n w d d' : ℕ}

theorem digitChar_lt_digitChar (h : m < n) (hn : n < 10) : digitChar m < digitChar n := by
  have hall : ∀ i j : Fin 10, i < j → digitChar i < digitChar j := by decide
  exact hall ⟨m, h.trans hn⟩ ⟨n, hn⟩ h

/-- **Numbers of equally many digits sort as texts.** -/
theorem pad_lt_pad (h : m < n) (hn : n < 10 ^ w) : pad w m < pad w n := by
  induction w generalizing m n with
  | zero => omega
  | succ w ih =>
    have hn' : n / 10 < 10 ^ w := by
      rw [pow_succ] at hn
      omega
    rcases lt_or_ge (m / 10) (n / 10) with hlt | hge
    · apply append_lt_append_of_lt (by simp)
      exact ih hlt hn'
    · -- equal but for the last digit
      have heq : m / 10 = n / 10 := by omega
      have hdigit : m % 10 < n % 10 := by omega
      unfold pad
      rw [heq]
      apply append_lt_append_left
      rw [cons_lt_cons_iff]
      exact .inl (digitChar_lt_digitChar hdigit (mod_lt n (by decide)))

/-! ### Layouts -/

/-- Fields of the given widths, each followed by a literal. -/
def render : List (ℕ × List Char) → List ℕ → List Char
  | (w, literal) :: layout, n :: ns => pad w n ++ (literal ++ render layout ns)
  | _, _ => []

/-- Every value fits its field. -/
def Fits (layout : List (ℕ × List Char)) (ns : List ℕ) : Prop :=
  Forall₂ (fun l n => n < 10 ^ l.1) layout ns

theorem render_lt_render {layout : List (ℕ × List Char)} {ms ns : List ℕ}
    (hms : Fits layout ms) (hns : Fits layout ns) (h : ms < ns) :
    render layout ms < render layout ns := by
  induction hms generalizing ns with
  | nil =>
    cases hns
    exact absurd h (lt_irrefl _)
  | @cons l m layout ms hm _ ih =>
    cases hns with
    | @cons _ n _ ns hn hns =>
      obtain ⟨w, literal⟩ := l
      rcases cons_lt_cons_iff.mp h with hmn | ⟨rfl, hrest⟩
      · exact append_lt_append_of_lt (by simp) (pad_lt_pad hmn hn) _ _
      · apply append_lt_append_left
        apply append_lt_append_left
        exact ih hns hrest

/-! ### The Gregorian calendar -/

/-- Years come in cycles of 400, 100, 4 and 1 whose last member may be longer,
hence the bounds of three: from the days since year 1 began, the number of
whole years and the day of the year. -/
def yearDay (d : ℕ) : ℕ × ℕ :=
  let n400 := d / 146097
  let d := d % 146097
  let n100 := min (d / 36524) 3
  let d := d - 36524 * n100
  let n4 := d / 1461
  let d := d % 1461
  let n1 := min (d / 365) 3
  (400 * n400 + 100 * n100 + 4 * n4 + n1, d - 365 * n1)

def isLeap (year : ℕ) : Bool := year % 4 = 0 && (year % 100 ≠ 0 || year % 400 = 0)

def monthLengths (leap : Bool) : List ℕ :=
  [31, if leap then 29 else 28, 31, 30, 31, 30, 31, 31, 30, 31, 30, 31]

/-- The month and the day of the month; `m` is the month the lengths start
from. -/
def monthDay : List ℕ → ℕ → ℕ → ℕ × ℕ
  | [], m, d => (m, d + 1)
  | l :: ls, m, d => if d < l then (m, d + 1) else monthDay ls (m + 1) (d - l)

/-- Year, month and day. -/
def dateFields (d : ℕ) : List ℕ :=
  let (y, r) := yearDay d
  let (m, day) := monthDay (monthLengths (isLeap (y + 1))) 1 r
  [y + 1, m, day]

/-- The cycles of `yearDay`: how many of each, and what is left. -/
structure Cycles (d a b c e r : ℕ) : Prop where
  days : d = 146097 * a + 36524 * b + 1461 * c + 365 * e + r
  b_le : b ≤ 3
  c_le : c ≤ 24
  e_le : e ≤ 3
  r_le : r ≤ 365
  leap : r = 365 → e = 3 ∧ (c = 24 → b = 3)

theorem yearDay_cycles (d : ℕ) :
    ∃ a b c e r, yearDay d = (400 * a + 100 * b + 4 * c + e, r) ∧ Cycles d a b c e r := by
  refine ⟨_, _, _, _, _, rfl, ?_⟩
  -- one division after the other, each with its quotient and remainder named
  generalize ha : d / 146097 = a
  generalize hd₁ : d % 146097 = d₁
  generalize hb : min (d₁ / 36524) 3 = b
  generalize hd₂ : d₁ - 36524 * b = d₂
  generalize hc : d₂ / 1461 = c
  generalize hd₃ : d₂ % 1461 = d₃
  generalize he : min (d₃ / 365) 3 = e
  have h₁ : d = 146097 * a + d₁ ∧ d₁ < 146097 := by omega
  have h₂ : d₁ = 36524 * b + d₂ ∧ b ≤ 3 ∧ d₂ ≤ 36524 ∧ (d₂ = 36524 → b = 3) := by omega
  have h₃ : d₂ = 1461 * c + d₃ ∧ d₃ < 1461 ∧ c ≤ 24 := by omega
  have h₄ : d₃ = 365 * e + (d₃ - 365 * e) ∧ e ≤ 3 ∧ d₃ - 365 * e ≤ 365 ∧
      (d₃ - 365 * e = 365 → e = 3) := by omega
  generalize d₃ - 365 * e = r at h₄ ⊢
  clear ha hd₁ hb hd₂ hc hd₃ he
  obtain ⟨hd, -⟩ := h₁
  obtain ⟨hd₁, hb, hd₂, hb'⟩ := h₂
  obtain ⟨hd₂', -, hc⟩ := h₃
  obtain ⟨hd₃, he, hr, he'⟩ := h₄
  refine ⟨by omega, hb, hc, he, hr, fun h => ⟨he' h, fun hc => hb' ?_⟩⟩
  have := he' h
  omega

/-- A later day is in a later year, or later in the same year. -/
theorem yearDay_lt (h : d < d') :
    (yearDay d).1 < (yearDay d').1 ∨
      (yearDay d).1 = (yearDay d').1 ∧ (yearDay d).2 < (yearDay d').2 := by
  obtain ⟨a, b, c, e, r, hy, hc⟩ := yearDay_cycles d
  obtain ⟨a', b', c', e', r', hy', hc'⟩ := yearDay_cycles d'
  obtain ⟨hd, hb, hc, he, hr, hleap⟩ := hc
  obtain ⟨hd', hb', hc', he', hr', hleap'⟩ := hc'
  rw [hy, hy']
  dsimp only
  clear hy hy'
  rcases lt_trichotomy a a' with ha | rfl | ha
  · left; omega
  · rcases lt_trichotomy b b' with hb | rfl | hb
    · left; omega
    · rcases lt_trichotomy c c' with hc | rfl | hc
      · left; omega
      · rcases lt_trichotomy e e' with he | rfl | he
        · left; omega
        · right; omega
        · omega
      · omega
    · omega
  · omega

/-- The day of the year exists in that year. -/
theorem yearDay_snd_lt (d : ℕ) :
    (yearDay d).2 < (monthLengths (isLeap ((yearDay d).1 + 1))).sum := by
  have hsum : ∀ leap, (monthLengths leap).sum = if leap then 366 else 365 := by decide
  obtain ⟨a, b, c, e, r, hy, -, hb, hc, he, hr, hleap⟩ := yearDay_cycles d
  rw [hy, hsum]
  dsimp only
  rcases lt_or_ge r 365 with hlt | hge
  · split_ifs <;> omega
  · obtain ⟨rfl, hlast⟩ := hleap (by omega)
    have h4 : (400 * a + 100 * b + 4 * c + 3 + 1) % 4 = 0 := by omega
    have h100 : (400 * a + 100 * b + 4 * c + 3 + 1) % 100 = 0 →
        (400 * a + 100 * b + 4 * c + 3 + 1) % 400 = 0 := by
      intro h
      have hc24 : c = 24 := by omega
      have hb3 := hlast hc24
      omega
    have hisLeap : isLeap (400 * a + 100 * b + 4 * c + 3 + 1) = true := by
      simp only [isLeap, h4, Bool.and_eq_true, Bool.or_eq_true, decide_eq_true_eq]
      exact ⟨trivial, (Decidable.em _).symm.imp_right h100⟩
    rw [hisLeap, if_pos rfl]
    omega

theorem le_monthDay_fst (ls : List ℕ) (m d : ℕ) : m ≤ (monthDay ls m d).1 := by
  induction ls generalizing m d with
  | nil => exact le_rfl
  | cons l ls ih =>
    unfold monthDay
    split_ifs
    · exact le_rfl
    · exact (le_succ m).trans (ih (m + 1) (d - l))

theorem monthDay_lt (ls : List ℕ) (m : ℕ) (h : d < d') :
    (monthDay ls m d).1 < (monthDay ls m d').1 ∨
      (monthDay ls m d).1 = (monthDay ls m d').1 ∧
        (monthDay ls m d).2 < (monthDay ls m d').2 := by
  induction ls generalizing m d d' with
  | nil => exact .inr ⟨rfl, succ_lt_succ h⟩
  | cons l ls ih =>
    by_cases hd' : d' < l
    · -- both in the first month
      have hd : d < l := h.trans hd'
      simp only [monthDay, if_pos hd, if_pos hd']
      exact .inr ⟨trivial, succ_lt_succ h⟩
    · by_cases hd : d < l
      · simp only [monthDay, if_pos hd, if_neg hd']
        exact .inl (lt_of_succ_le (le_monthDay_fst ls (m + 1) (d' - l)))
      · simp only [monthDay, if_neg hd, if_neg hd']
        apply ih
        omega

theorem monthDay_le {ls : List ℕ} {k : ℕ} (hls : ∀ l ∈ ls, l ≤ k) (hd : d < ls.sum) :
    (monthDay ls m d).1 < m + ls.length ∧ (monthDay ls m d).2 ≤ k := by
  induction ls generalizing m d with
  | nil => exact absurd hd (not_lt_zero d)
  | cons l ls ih =>
    unfold monthDay
    split_ifs with h
    · have hl := hls l mem_cons_self
      exact ⟨by simp, h.trans_le hl⟩
    · have hd' : d - l < ls.sum := by
        rw [sum_cons] at hd
        omega
      obtain ⟨h₁, h₂⟩ := ih (m := m + 1) (fun l' hl' => hls l' (mem_cons_of_mem _ hl')) hd'
      exact ⟨by rw [length_cons]; omega, h₂⟩

theorem dateFields_lt_dateFields (h : d < d') : dateFields d < dateFields d' := by
  simp only [dateFields, cons_lt_cons_iff]
  rcases yearDay_lt h with hy | ⟨hy, hr⟩
  · exact .inl (succ_lt_succ hy)
  · refine .inr ⟨congrArg succ hy, ?_⟩
    rw [hy]
    rcases monthDay_lt (monthLengths (isLeap ((yearDay d').1 + 1))) 1 hr with
      hm | ⟨hm, hday⟩
    · exact .inl hm
    · exact .inr ⟨hm, .inl hday⟩

/-! ### Readings of a wall clock -/

/-- Hour, minute and second. -/
def timeFields (sec : ℕ) : List ℕ := [sec / 3600, sec % 3600 / 60, sec % 60]

theorem timeFields_lt_timeFields {sec sec' : ℕ} (h : sec < sec') :
    timeFields sec < timeFields sec' := by
  simp only [timeFields, cons_lt_cons_iff]
  omega

/-- The fields of a reading in nanoseconds. -/
def fields (w : ℕ) : List ℕ :=
  let sec := w / 1000000000
  dateFields (sec / 86400) ++ (timeFields (sec % 86400) ++ [w % 1000000000])

example : fields (63844847998 * 1000000000 + 42) = [2024, 2, 29, 23, 59, 58, 42] := by decide

/-- **Readings are ordered as their fields.** -/
theorem fields_lt_fields {w' : ℕ} (h : w < w') : fields w < fields w' := by
  unfold fields
  dsimp only
  generalize hs : w / 1000000000 = sec
  generalize hs' : w' / 1000000000 = sec'
  have hsec : sec < sec' ∨ sec = sec' ∧ w % 1000000000 < w' % 1000000000 := by omega
  rcases hsec with hsec | ⟨rfl, hnano⟩
  · rcases lt_or_ge (sec / 86400) (sec' / 86400) with hday | hday
    · apply append_lt_append_of_lt _ (dateFields_lt_dateFields hday)
      rfl
    · -- two times of the same day
      have hsame : sec / 86400 = sec' / 86400 := by omega
      have htime : sec % 86400 < sec' % 86400 := by omega
      rw [hsame]
      apply append_lt_append_left
      apply append_lt_append_of_lt _ (timeFields_lt_timeFields htime)
      rfl
  · apply append_lt_append_left
    apply append_lt_append_left
    rw [cons_lt_cons_iff]
    exact .inl hnano

/-- Readings whose year has four digits. -/
def maxReading : ℕ := 9999 * 365 * 86400 * 1000000000

theorem fits_dateFields (hday : d < 9999 * 365) (l₁ l₂ l₃ : List Char) :
    Fits [(4, l₁), (2, l₂), (2, l₃)] (dateFields d) := by
  have hyear : (yearDay d).1 + 1 < 10 ^ 4 := by
    obtain ⟨a, b, c, e, r, hy, hd, -⟩ := yearDay_cycles d
    rw [hy]
    dsimp only
    omega
  have hlengths : ∀ leap, (∀ l ∈ monthLengths leap, l ≤ 31) ∧ (monthLengths leap).length = 12 := by
    decide
  obtain ⟨hle, hlen⟩ := hlengths (isLeap ((yearDay d).1 + 1))
  obtain ⟨hm, hdm⟩ := monthDay_le (m := 1) hle (yearDay_snd_lt d)
  rw [hlen] at hm
  have hm' : (monthDay (monthLengths (isLeap ((yearDay d).1 + 1))) 1 (yearDay d).2).1 < 10 ^ 2 :=
    hm.trans (by decide)
  have hdm' : (monthDay (monthLengths (isLeap ((yearDay d).1 + 1))) 1 (yearDay d).2).2 < 10 ^ 2 :=
    hdm.trans_lt (by decide)
  exact .cons hyear (.cons hm' (.cons hdm' .nil))

/-- Widths for the fields of a reading, with any literals. -/
theorem fits_fields (hw : w < maxReading) (l₁ l₂ l₃ l₄ l₅ l₆ l₇ : List Char) :
    Fits [(4, l₁), (2, l₂), (2, l₃), (2, l₄), (2, l₅), (2, l₆), (9, l₇)] (fields w) := by
  unfold maxReading at hw
  have hnano : w % 1000000000 < 10 ^ 9 := mod_lt w (by decide)
  have hday : w / 1000000000 / 86400 < 9999 * 365 := by omega
  unfold fields
  dsimp only
  generalize w % 1000000000 = nano at hnano
  generalize w / 1000000000 = sec at hday
  have htime : sec % 86400 / 3600 < 10 ^ 2 ∧ sec % 86400 % 3600 / 60 < 10 ^ 2 ∧
      sec % 86400 % 60 < 10 ^ 2 := by omega
  generalize sec % 86400 = time at htime
  generalize sec / 86400 = d at hday
  exact rel_append (fits_dateFields hday l₁ l₂ l₃)
    (.cons htime.1 (.cons htime.2.1 (.cons htime.2.2 (.cons hnano .nil))))

end CivilTime
