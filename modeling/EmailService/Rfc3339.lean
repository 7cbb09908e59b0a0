/-
Rfc3339.lean

Instants as texts: the layout `2006-01-02T15:04:05.999999999Z07:00` of Go's
package `time`, written and read.

An instant is a number of nanoseconds since the midnight that began year 1, on
either side of it.  `format` writes it as a clock so many minutes east of
Greenwich shows it.  `parse` also reads what `format` does not write: an hour
of one digit, a comma before the fraction, more than nine digits in it.

`parse_format` is the round trip, for the years that have four digits.
-/
import EmailService.CivilTime
import EmailService.Utf8

namespace Rfc3339

open CivilTime Utf8 List Option Nat

/-! ### Dates on either side of year 1 -/

/-- Year, month and day; a cycle of the calendar has 400 years. -/
def date (d : ℤ) : ℤ × ℕ × ℕ :=
  let (y, r) := yearDay (d % 146097).toNat
  let (m, day) := monthDay (monthLengths (isLeap (y + 1))) 1 r
  (400 * (d / 146097) + y + 1, m, day)

/-- The days between the beginning of year 1 and that date. -/
def days (year month day : ℕ) : ℤ :=
  let y := (year : ℤ) - 1
  365 * y + y / 4 - y / 100 + y / 400 +
    ((monthLengths (isLeap year)).take (month - 1)).sum + day - 1

/-- `daysIn`. -/
def daysIn (year month : ℕ) : ℕ := (monthLengths (isLeap year)).getD (month - 1) 0

variable {month d k w n : ℕ} {x offset t : ℤ}

theorem daysIn_le (year : ℕ) (h : month ≤ 12) : daysIn year month ≤ 31 := by
  have hall : ∀ leap, ∀ i < 12, (monthLengths leap).getD i 0 ≤ 31 := by decide
  exact hall (isLeap year) (month - 1) (by omega)

theorem monthDay_spec {ls : List ℕ} (m : ℕ) (hd : d < ls.sum) :
    ∃ i day, monthDay ls m d = (m + i, day + 1) ∧ i < ls.length ∧ d = (ls.take i).sum + day ∧
      day < ls.getD i 0 := by
  induction ls generalizing m d with
  | nil => exact absurd hd (not_lt_zero d)
  | cons l ls ih =>
    by_cases h : d < l
    · exact ⟨0, d, by rw [monthDay, if_pos h]; rfl, succ_pos _, by simp, h⟩
    · have hd' : d - l < ls.sum := by
        rw [sum_cons] at hd
        omega
      obtain ⟨i, day, hmd, hi, hsum, hday⟩ := ih (m + 1) hd'
      refine ⟨i + 1, day, ?_, succ_lt_succ hi, ?_, hday⟩
      · rw [monthDay, if_neg h, hmd]
        exact congrArg (·, day + 1) (by omega)
      · rw [take_succ_cons, sum_cons]
        omega

/-- The leap years repeat with the cycle. -/
theorem isLeap_add (q y : ℕ) : isLeap (400 * q + y) = isLeap y := by
  have h4 : (400 * q + y) % 4 = y % 4 := by omega
  have h100 : (400 * q + y) % 100 = y % 100 := by omega
  have h400 : (400 * q + y) % 400 = y % 400 := by omega
  rw [isLeap, isLeap, h4, h100, h400]

/-- The days before a year of the first cycle. -/
theorem yearDay_days (d : ℕ) :
    (d : ℤ) = 365 * ((yearDay d).1 : ℤ) + ((yearDay d).1 : ℤ) / 4 - ((yearDay d).1 : ℤ) / 100 +
      ((yearDay d).1 : ℤ) / 400 + (yearDay d).2 := by
  obtain ⟨a, b, c, e, r, hy, hd, hb, hc, he, -, -⟩ := yearDay_cycles d
  rw [hy]
  dsimp only
  push_cast
  omega

theorem yearDay_fst_lt (h : d < 146097) : (yearDay d).1 < 400 := by
  obtain ⟨a, b, c, e, r, hy, hd, hb, hc, he, hr, hleap⟩ := yearDay_cycles d
  have ha : a = 0 := by omega
  rw [hy, ha]
  dsimp only
  omega

/-- **A date names its day**, and is one of the calendar. -/
theorem days_date {d : ℤ} {year : ℤ} {day : ℕ} (h : date d = (year, month, day))
    (hyear : 0 ≤ year) :
    days year.toNat month day = d ∧ 1 ≤ month ∧ month ≤ 12 ∧ 1 ≤ day ∧
      day ≤ daysIn year.toNat month := by
  have hlt : (d % 146097).toNat < 146097 := by omega
  have hfst := yearDay_fst_lt hlt
  have hsnd := yearDay_snd_lt (d % 146097).toNat
  have hdays := yearDay_days (d % 146097).toNat
  rw [date] at h
  generalize yearDay (d % 146097).toNat = yr at h hfst hsnd hdays
  obtain ⟨y, r⟩ := yr
  dsimp only at h hfst hsnd hdays
  obtain ⟨i, dd, hmd, hi, hsum, hdd⟩ := monthDay_spec 1 hsnd
  rw [hmd] at h
  simp only [Prod.mk.injEq] at h
  obtain ⟨rfl, rfl, rfl⟩ := h
  -- the year in its cycle, and the cycle
  generalize hq : d / 146097 = q at hyear ⊢
  have hleap : isLeap (400 * q + y + 1).toNat = isLeap (y + 1) := by
    rcases Int.lt_or_le q 0 with hneg | hpos
    · -- year 0 is the last of the cycle before
      have hq' : q = -1 := by omega
      have hy' : y = 399 := by omega
      subst hq' hy'
      rfl
    · obtain ⟨k, rfl⟩ := Int.eq_ofNat_of_zero_le hpos
      have : (400 * (k : ℤ) + y + 1).toNat = 400 * k + (y + 1) := by omega
      rw [this, isLeap_add]
  have hlen : (monthLengths (isLeap (y + 1))).length = 12 := by
    cases isLeap (y + 1) <;> rfl
  refine ⟨?_, by omega, by omega, by omega, ?_⟩
  · rw [days, hleap, Nat.add_sub_cancel_left]
    have hyear' : (((400 * q + y + 1).toNat : ℕ) : ℤ) - 1 = 400 * q + y := by omega
    have h4 : (400 * q + y) / 4 = 100 * q + y / 4 := by omega
    have h100 : (400 * q + y) / 100 = 4 * q + y / 100 := by omega
    have h400 : (400 * q + y) / 400 = q + y / 400 := by omega
    rw [hyear', h4, h100, h400]
    clear hyear' h4 h100 h400 hleap
    omega
  · rw [daysIn, hleap, Nat.add_sub_cancel_left]
    exact hdd

/-! ### Writing -/

/-- `n` in `w` decimal digits. -/
def field (w n : ℕ) : List UInt8 := (pad w n).map fun c => UInt8.ofNat c.toNat

/-- `appendInt`: at least `w` digits. -/
def appendInt (x : ℤ) (w : ℕ) : List UInt8 :=
  (if x < 0 then [45] else []) ++
    if x.natAbs < 10 ^ w then field w x.natAbs
    else (toDigits 10 x.natAbs).map fun c => UInt8.ofNat c.toNat

/-- `appendNano`: without the zeros at the end. -/
def appendNano (nano : ℕ) : List UInt8 :=
  match (field 9 nano).rdropWhile (· = 48) with
  | [] => []
  | ds => 46 :: ds

def appendZone (offset : ℤ) : List UInt8 :=
  if offset = 0 then [90]
  else (if offset < 0 then 45 else 43) ::
    (appendInt (offset.natAbs / 60 : ℕ) 2 ++ 58 :: appendInt (offset.natAbs % 60 : ℕ) 2)

/-- The date and the time a clock shows, `offset` minutes east of Greenwich. -/
structure Reading where
  year : ℤ
  month : ℕ
  day : ℕ
  /-- second of the day -/
  second : ℕ
  nano : ℕ

def reading (offset t : ℤ) : Reading :=
  let w := t + offset * 60000000000
  let sec := w / 1000000000
  let (year, month, day) := date (sec / 86400)
  ⟨year, month, day, (sec % 86400).toNat, (w % 1000000000).toNat⟩

/-- `appendFormatRFC3339`, with nanoseconds. -/
def format (offset t : ℤ) : List UInt8 :=
  let r := reading offset t
  appendInt r.year 4 ++ 45 :: (appendInt r.month 2 ++ 45 :: (appendInt r.day 2 ++ 84 ::
    (appendInt (r.second / 3600 : ℕ) 2 ++ 58 :: (appendInt (r.second % 3600 / 60 : ℕ) 2 ++ 58 ::
      (appendInt (r.second % 60 : ℕ) 2 ++ (appendNano r.nano ++ appendZone offset))))))

/-! ### Reading -/

def isDigit (b : UInt8) : Bool := 48 ≤ b.toNat && b.toNat ≤ 57

/-- `w` decimal digits, after a number. -/
def digitsFrom : ℕ → ℕ → List UInt8 → Option (ℕ × List UInt8)
  | 0, n, l => some (n, l)
  | _ + 1, _, [] => none
  | w + 1, n, b :: l => if isDigit b then digitsFrom w (10 * n + (b.toNat - 48)) l else none

/-- `getnum` of a fixed width, and the year. -/
def number (w : ℕ) (l : List UInt8) : Option (ℕ × List UInt8) := digitsFrom w 0 l

variable (l : List UInt8)

/-- `getnum` of one or two digits. -/
def hourNumber : Option (ℕ × List UInt8) := (number 2 l).or (number 1 l)

def skip (b : UInt8) : List UInt8 → Option (List UInt8)
  | [] => none
  | b' :: l => if b' = b then some l else none

/-- `parseNanoseconds`: the first nine digits. -/
def nanoseconds (ds : List UInt8) : ℕ :=
  ((ds ++ replicate 9 48).take 9).foldl (fun n (b : UInt8) => 10 * n + (b.toNat - 48)) 0

/-- The fraction of a second, if there is one. -/
def fraction : ℕ × List UInt8 :=
  match l with
  | c :: l' =>
    if (c = 46 ∨ c = 44) ∧ l'.takeWhile isDigit ≠ [] then
      (nanoseconds (l'.takeWhile isDigit), l'.dropWhile isDigit)
    else (0, l)
  | [] => (0, l)

/-- The zone, to the end of the text, in minutes. -/
def zone : Option ℤ :=
  if l = [90] then some 0
  else do
    let (sign, l) ← l.head?.map fun b => (b, l.tail)
    let (hours, l) ← number 2 l
    let l ← skip 58 l
    let (minutes, l) ← number 2 l
    if l ≠ [] ∨ 24 < hours ∨ 60 < minutes then none
    else if sign = 43 then some (60 * hours + minutes : ℕ)
    else if sign = 45 then some (-(60 * hours + minutes : ℕ))
    else none

/-- The numbers of a text. -/
structure Fields where
  year : ℕ
  month : ℕ
  day : ℕ
  hour : ℕ
  minute : ℕ
  second : ℕ
  nano : ℕ
  offset : ℤ

def read : Option Fields := do
  let (year, l) ← number 4 l
  let l ← skip 45 l
  let (month, l) ← number 2 l
  let l ← skip 45 l
  let (day, l) ← number 2 l
  let l ← skip 84 l
  let (hour, l) ← hourNumber l
  let l ← skip 58 l
  let (minute, l) ← number 2 l
  let l ← skip 58 l
  let (second, l) ← number 2 l
  let (nano, l) := fraction l
  let offset ← zone l
  some ⟨year, month, day, hour, minute, second, nano, offset⟩

/-- The numbers are a date and a time. -/
def Fields.InRange (f : Fields) : Prop :=
  1 ≤ f.month ∧ f.month ≤ 12 ∧ 1 ≤ f.day ∧ f.day ≤ daysIn f.year f.month ∧
    f.hour < 24 ∧ f.minute < 60 ∧ f.second < 60

instance (f : Fields) : Decidable f.InRange := by
  unfold Fields.InRange
  infer_instance

def Fields.instant (f : Fields) : ℤ :=
  (((days f.year f.month f.day * 86400 + f.hour * 3600 + f.minute * 60 + f.second) * 1000000000 +
    f.nano) - f.offset * 60000000000)

/-- `time.Parse` with this layout.  The fast path of the source accepts less
and agrees on what it accepts. -/
def parse : Option ℤ :=
  (read l).bind fun f => if f.InRange then some f.instant else none

/-! ### Round trip -/

theorem field_succ (w n : ℕ) :
    field (w + 1) n = field w (n / 10) ++ [UInt8.ofNat (48 + n % 10)] := by
  have hdigit : ∀ k : Fin 10, (digitChar k).toNat = 48 + k := by decide
  rw [field, pad, map_append, field]
  exact congrArg (fun b => _ ++ [UInt8.ofNat b]) (hdigit ⟨n % 10, mod_lt n (by decide)⟩)

theorem length_field (w n : ℕ) : (field w n).length = w := by
  rw [field, length_map, length_pad]

theorem toNat_digit (h : k < 10) : (UInt8.ofNat (48 + k)).toNat = 48 + k := by
  rw [UInt8.toNat_ofNat']
  omega

theorem isDigit_digit (h : k < 10) : isDigit (UInt8.ofNat (48 + k)) = true := by
  simp only [isDigit, toNat_digit h, Bool.and_eq_true, decide_eq_true_eq]
  omega

theorem isDigit_of_mem_field {b : UInt8} (h : b ∈ field w n) : isDigit b = true := by
  induction w generalizing n with
  | zero => cases h
  | succ w ih =>
    rw [field_succ, mem_append, mem_singleton] at h
    rcases h with h | rfl
    · exact ih h
    · exact isDigit_digit (mod_lt n (by decide))

theorem digitsFrom_succ (w n : ℕ) (l : List UInt8) :
    digitsFrom (w + 1) n l = (digitsFrom w n l).bind fun p => digitsFrom 1 p.1 p.2 := by
  induction w generalizing n l with
  | zero => rfl
  | succ w ih =>
    rcases l with - | ⟨b, l⟩
    · rfl
    · rw [digitsFrom, digitsFrom]
      split_ifs
      · exact ih _ l
      · rfl

theorem digitsFrom_field (k : ℕ) (h : n < 10 ^ w) (l : List UInt8) :
    digitsFrom w k (field w n ++ l) = some (k * 10 ^ w + n, l) := by
  induction w generalizing n l with
  | zero =>
    have hn : n = 0 := by omega
    rw [hn, pow_zero, mul_one]
    rfl
  | succ w ih =>
    have hdiv : n / 10 < 10 ^ w := by
      rw [pow_succ] at h
      omega
    have hmod : n % 10 < 10 := mod_lt n (by decide)
    rw [digitsFrom_succ, field_succ, append_assoc, ih hdiv, bind_some,
      singleton_append, digitsFrom, if_pos (isDigit_digit hmod), digitsFrom,
      toNat_digit hmod]
    refine congrArg (fun m => some (m, l)) ?_
    rw [pow_succ, ← mul_assoc]
    generalize k * 10 ^ w = p
    omega

theorem number_appendInt (hx : 0 ≤ x) (h : x.toNat < 10 ^ w) (l : List UInt8) :
    number w (appendInt x w ++ l) = some (x.toNat, l) := by
  obtain ⟨n, rfl⟩ := Int.eq_ofNat_of_zero_le hx
  rw [appendInt, if_neg (Int.not_lt.mpr hx), nil_append]
  rw [Int.toNat_natCast] at h ⊢
  rw [Int.natAbs_natCast, if_pos h, number, digitsFrom_field 0 h, zero_mul, zero_add]

theorem number_appendInt_nat (h : n < 10 ^ w) (l : List UInt8) :
    number w (appendInt (n : ℤ) w ++ l) = some (n, l) :=
  number_appendInt (Int.natCast_nonneg n) h l

theorem hourNumber_appendInt (h : n < 10 ^ 2) (l : List UInt8) :
    hourNumber (appendInt (n : ℤ) 2 ++ l) = some (n, l) := by
  rw [hourNumber, number_appendInt_nat h]
  rfl

theorem skip_cons (b : UInt8) (l : List UInt8) : skip b (b :: l) = some l := if_pos rfl

/-- The dropped digits are zeros. -/
theorem rdropWhile_append_replicate : ∃ k, l = l.rdropWhile (· = 48) ++ replicate k 48 := by
  refine ⟨(l.rtakeWhile (· = 48)).length, ?_⟩
  have hzeros : l.rtakeWhile (· = 48) = replicate (l.rtakeWhile (· = 48)).length 48 := by
    apply eq_replicate_of_mem
    intro b hb
    simpa using mem_rtakeWhile_imp hb
  rw [← hzeros, rdropWhile_append_rtakeWhile]

theorem foldl_field (h : n < 10 ^ w) :
    (field w n).foldl (fun n (b : UInt8) => 10 * n + (b.toNat - 48)) 0 = n := by
  induction w generalizing n with
  | zero => exact (lt_one_iff.mp h).symm
  | succ w ih =>
    have hdiv : n / 10 < 10 ^ w := by
      rw [pow_succ] at h
      omega
    rw [field_succ, foldl_append, ih hdiv, foldl_cons, foldl_nil,
      toNat_digit (mod_lt n (by decide))]
    omega

theorem nanoseconds_trimmed (h : n < 10 ^ 9) :
    nanoseconds ((field 9 n).rdropWhile (· = 48)) = n := by
  obtain ⟨k, hk⟩ := rdropWhile_append_replicate (field 9 n)
  have hlen := congrArg length hk
  rw [length_field, length_append, length_replicate] at hlen
  have hsplit : replicate 9 (48 : UInt8) =
      replicate k 48 ++ replicate (9 - k) 48 := by
    rw [replicate_append_replicate]
    exact congrArg (replicate · 48) (by omega)
  rw [nanoseconds, hsplit, ← append_assoc, ← hk, take_append_of_le_length,
    take_of_length_le, foldl_field h]
  · exact (length_field 9 n).le
  · exact (length_field 9 n).ge

/-- What follows the seconds does not go on with digits. -/
theorem fraction_appendNano (h : n < 10 ^ 9) (offset : ℤ) :
    fraction (appendNano n ++ appendZone offset) = (n, appendZone offset) := by
  obtain ⟨b, l, hzone, hb⟩ : ∃ b l, appendZone offset = b :: l ∧ isDigit b = false ∧
      ¬ (b = 46 ∨ b = 44) := by
    unfold appendZone
    split_ifs <;> exact ⟨_, _, rfl, by decide⟩
  have hnano := nanoseconds_trimmed h
  rw [appendNano]
  split
  · -- a whole second: the text goes on with the zone
    rename_i hnil
    rw [hnil] at hnano
    rw [nil_append, hzone, fraction, if_neg fun hc => hb.2 hc.1]
    exact congrArg (·, b :: l) hnano
  · rename_i ds hne
    have hdigits : ∀ d ∈ (field 9 n).rdropWhile (· = 48), isDigit d = true := fun d hd =>
      isDigit_of_mem_field (( rdropWhile_prefix _ _).subset hd)
    rw [cons_append, fraction, hzone, takeWhile_append_of_pos hdigits,
      dropWhile_append_of_pos hdigits, takeWhile_cons_of_neg (by simp [hb.1]),
      dropWhile_cons_of_neg (by simp [hb.1]), append_nil, hnano,
      if_pos ⟨.inl rfl, hne⟩]

theorem zone_appendZone (h : offset.natAbs < 1440) : zone (appendZone offset) = some offset := by
  by_cases h0 : offset = 0
  · rw [h0]
    rfl
  · have hhours : offset.natAbs / 60 < 10 ^ 2 := by omega
    have hminutes : offset.natAbs % 60 < 10 ^ 2 := by omega
    have hlast := number_appendInt_nat hminutes []
    rw [append_nil] at hlast
    rw [appendZone, if_neg h0, zone, if_neg (by split_ifs <;> simp)]
    simp only [head?_cons, map_some, tail_cons, bind_eq_bind,
      bind_some, number_appendInt_nat hhours, skip_cons, hlast]
    have hrange : ¬ (([] : List UInt8) ≠ [] ∨ 24 < offset.natAbs / 60 ∨
        60 < offset.natAbs % 60) := by
      simp only [ne_eq, not_true_eq_false, false_or]
      omega
    rw [if_neg hrange]
    split_ifs with hneg <;> first | contradiction | skip
    all_goals exact congrArg some (by omega)

/-- The year a clock shows has four digits. -/
def FourDigits (offset t : ℤ) : Prop :=
  0 ≤ (reading offset t).year ∧ (reading offset t).year ≤ 9999

instance (offset t : ℤ) : Decidable (FourDigits offset t) :=
  inferInstanceAs (Decidable (_ ∧ _))

/-- A reading is a date and a time, and names its instant. -/
structure Reading.Shows (r : Reading) (w : ℤ) : Prop where
  instant : (days r.year.toNat r.month r.day * 86400 + r.second) * 1000000000 + r.nano = w
  month_pos : 1 ≤ r.month
  month_le : r.month ≤ 12
  day_pos : 1 ≤ r.day
  day_le : r.day ≤ daysIn r.year.toNat r.month
  second_lt : r.second < 86400
  nano_lt : r.nano < 10 ^ 9

theorem reading_shows (hyear : FourDigits offset t) :
    (reading offset t).Shows (t + offset * 60000000000) := by
  have hlow := hyear.1
  unfold reading at hlow ⊢
  generalize t + offset * 60000000000 = w at hlow ⊢
  dsimp only at hlow ⊢
  rcases hdate : date (w / 1000000000 / 86400) with ⟨year, month, day⟩
  rw [hdate] at hlow
  obtain ⟨hdays, hm1, hm2, hd1, hd2⟩ := days_date hdate hlow
  refine ⟨?_, hm1, hm2, hd1, hd2, ?_, ?_⟩
  · dsimp only
    rw [hdays]
    omega
  · dsimp only
    omega
  · dsimp only
    omega

/-- **A text is read back as the instant it was written for.** -/
theorem parse_format (hzone : offset.natAbs < 1440) (hyear : FourDigits offset t) :
    parse (format offset t) = some t := by
  have hr := reading_shows hyear
  obtain ⟨hlow, hhigh⟩ := hyear
  rw [parse, read, format]
  generalize reading offset t = r at hr hlow hhigh ⊢
  obtain ⟨hinstant, hm1, hm2, hd1, hd2, hsecond, hnano⟩ := hr
  have hd31 : r.day ≤ 31 := hd2.trans (daysIn_le _ hm2)
  -- field by field, each as wide as it was written
  simp only [bind_eq_bind, bind_some, skip_cons,
    number_appendInt hlow (w := 4) (by omega),
    number_appendInt_nat (w := 2) (n := r.month) (by omega),
    number_appendInt_nat (w := 2) (n := r.day) (by omega),
    hourNumber_appendInt (n := r.second / 3600) (by omega),
    number_appendInt_nat (w := 2) (n := r.second % 3600 / 60) (by omega),
    number_appendInt_nat (w := 2) (n := r.second % 60) (by omega),
    fraction_appendNano hnano, zone_appendZone hzone]
  rw [if_pos]
  · rw [Fields.instant]
    dsimp only
    exact congrArg some (by omega)
  · refine ⟨hm1, hm2, hd1, hd2, ?_⟩
    dsimp only
    omega

/-! ### The shape of a text -/

/-- At most `n` bytes, all ASCII. -/
abbrev Short (n : ℕ) (l : List UInt8) : Prop := Within (fun b => b.toNat < 128) n l

theorem short_field (w n : ℕ) : Short w (field w n) := by
  refine ⟨(length_field w n).le, fun b hb => ?_⟩
  have h := isDigit_of_mem_field hb
  simp only [isDigit, Bool.and_eq_true, decide_eq_true_eq] at h
  omega

theorem short_appendInt (hx : 0 ≤ x) (h : x.toNat < 10 ^ w) : Short w (appendInt x w) := by
  have hnat : x.natAbs < 10 ^ w := by omega
  rw [appendInt, if_neg (Int.not_lt.mpr hx), nil_append, if_pos hnat]
  exact short_field w _

theorem short_appendInt_nat (h : n < 10 ^ w) : Short w (appendInt (n : ℤ) w) :=
  short_appendInt (Int.natCast_nonneg n) h

theorem short_appendNano (nano : ℕ) : Short 10 (appendNano nano) := by
  have hdigits : Short 9 ((field 9 nano).rdropWhile (· = 48)) :=
    ⟨( rdropWhile_prefix _ _).length_le.trans (short_field 9 nano).1, fun b hb =>
      (short_field 9 nano).2 b (( rdropWhile_prefix _ _).subset hb)⟩
  rw [appendNano]
  split
  · exact .nil
  · exact hdigits.cons (by decide)

theorem short_appendZone (h : offset.natAbs < 1440) : Short 6 (appendZone offset) := by
  unfold appendZone
  split_ifs
  · exact (Within.nil (n := 5)).cons (by decide)
  all_goals
    exact ((short_appendInt_nat (by omega)).append
      ((short_appendInt_nat (by omega)).cons (by decide))).cons (by decide)

theorem short_format (hzone : offset.natAbs < 1440) (hyear : FourDigits offset t) :
    Short 35 (format offset t) := by
  have hr := reading_shows hyear
  obtain ⟨hlow, hhigh⟩ := hyear
  rw [format]
  generalize reading offset t = r at hr hlow hhigh ⊢
  have hd31 : r.day ≤ 31 := hr.day_le.trans (daysIn_le _ hr.month_le)
  have hmonth := hr.month_le
  have hsecond := hr.second_lt
  have htail := (short_appendNano r.nano).append (short_appendZone hzone)
  have htime := (short_appendInt_nat (w := 2) (n := r.second / 3600) (by omega)).append
    (((short_appendInt_nat (w := 2) (n := r.second % 3600 / 60) (by omega)).append
      (((short_appendInt_nat (w := 2) (n := r.second % 60) (by omega)).append htail).cons
        (b := 58) (by decide))).cons (b := 58) (by decide))
  exact (short_appendInt hlow (w := 4) (by omega)).append
    (((short_appendInt_nat (w := 2) (n := r.month) (by omega)).append
      (((short_appendInt_nat (w := 2) (n := r.day) (by omega)).append
        (htime.cons (by decide))).cons (by decide))).cons (by decide))

end Rfc3339
