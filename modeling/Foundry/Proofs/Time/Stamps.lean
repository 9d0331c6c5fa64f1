import Foundry.Time.Stamp
import Mathlib.Data.List.TakeWhile
import Mathlib.Data.Nat.Digits.Lemmas
import Mathlib.Tactic.IntervalCases

/-!
# Stamps are read back

Every stamp that the calendar reaches is read from its text as it was written. The dates of
day numbers are those of the calendar: a day number is made of centuries, spans of four
years, years and days, counted from March on, and the leap day comes last.
-/

namespace Foundry

open List Duration Text

namespace Stamp

variable {x : DayOfEra} {a b : Stamp} {c : Char} {era : Int} {mp day n : Nat}

/-! ## The calendar -/

/-- A day of the four centuries after which the calendar repeats. -/
structure DayOfEra where
  century : Int
  span : Int
  year : Int
  day : Int
  century_le : 0 ≤ century ∧ century ≤ 3
  span_le : 0 ≤ span ∧ span ≤ 24
  year_le : 0 ≤ year ∧ year ≤ 3
  day_le : 0 ≤ day ∧ day ≤ 365
  /-- Only the last year of a span has a leap day, and of the last spans of centuries the last
  one. -/
  leap : day = 365 → year = 3 ∧ (span = 24 → century = 3)

namespace DayOfEra

def number (x : DayOfEra) : Int := 36524 * x.century + 1461 * x.span + 365 * x.year + x.day

def yearOfEra (x : DayOfEra) : Int := 100 * x.century + 4 * x.span + x.year

theorem exists_number {n : Int} (h : 0 ≤ n) (h' : n < 146097) : ∃ x : DayOfEra, x.number = n := by
  obtain ⟨c, hc, hc'⟩ : ∃ c, (0 ≤ c ∧ c ≤ 3) ∧ 0 ≤ n - 36524 * c ∧
      (n - 36524 * c ≤ 36523 ∨ c = 3 ∧ n - 36524 * c ≤ 36524) :=
    ⟨min (n / 36524) 3, by omega, by omega⟩
  obtain ⟨r, hr⟩ : ∃ r, r = n - 36524 * c := ⟨_, rfl⟩
  obtain ⟨u, hu, hu'⟩ : ∃ u, (0 ≤ u ∧ u ≤ 24) ∧ 0 ≤ r - 1461 * u ∧ r - 1461 * u ≤ 1460 ∧
      (u = 24 → r - 1461 * u = 1460 → c = 3) :=
    ⟨min (r / 1461) 24, by omega, by omega⟩
  obtain ⟨q, hq⟩ : ∃ q, q = r - 1461 * u := ⟨_, rfl⟩
  obtain ⟨v, hv, hv'⟩ : ∃ v, (0 ≤ v ∧ v ≤ 3) ∧ 0 ≤ q - 365 * v ∧ q - 365 * v ≤ 365 ∧
      (q - 365 * v = 365 → v = 3) :=
    ⟨min (q / 365) 3, by omega, by omega⟩
  refine ⟨⟨c, u, v, q - 365 * v, hc, hu, hv, ⟨hv'.1, hv'.2.1⟩, ?_⟩, ?_⟩
  · intro hday
    have hthree := hv'.2.2 hday
    exact ⟨hthree, fun hspan => hu'.2.2 hspan (by omega)⟩
  · simp only [number]
    omega

variable (x : DayOfEra)

/-- The year is told from the number. -/
theorem yearOfEra_eq : x.yearOfEra =
    (x.number - x.number / 1460 + x.number / 36524 - x.number / 146096) / 365 := by
  obtain ⟨c, u, v, w, hc, hu, hv, hw, hleap⟩ := x
  simp only [yearOfEra, number]
  have hcentury : (36524 * c + 1461 * u + 365 * v + w) / 36524 -
      (36524 * c + 1461 * u + 365 * v + w) / 146096 = c := by
    by_cases hlast : c = 3 ∧ u = 24 ∧ v = 3 ∧ w = 365
    · obtain ⟨rfl, rfl, rfl, rfl⟩ := hlast
      rfl
    have hfirst : (36524 * c + 1461 * u + 365 * v + w) / 36524 = c := by omega
    have hsecond : (36524 * c + 1461 * u + 365 * v + w) / 146096 = 0 := by omega
    rw [hfirst, hsecond, sub_zero]
  -- The days that were counted too many so far are at most one, and the year has that one.
  have hover : 0 ≤ w - (24 * c + u + 365 * v + w) / 1460 ∧ w - (24 * c + u + 365 * v + w) / 1460 ≤
      364 := by
    by_cases hday : w = 365
    · omega
    · omega
  have hspan : (36524 * c + 1461 * u + 365 * v + w) / 1460 = 25 * c + u + (24 * c + u + 365 * v + w)
      / 1460 := by
    omega
  rw [add_sub_assoc, hcentury, hspan]
  clear hcentury hspan
  generalize (24 * c + u + 365 * v + w) / 1460 = extra at hover
  omega

theorem day_eq : x.day = x.number - (365 * x.yearOfEra + x.yearOfEra / 4 - x.yearOfEra / 100) := by
  obtain ⟨c, u, v, w, hc, hu, hv, hw, hleap⟩ := x
  simp only [yearOfEra, number]
  omega

theorem yearOfEra_le : 0 ≤ x.yearOfEra ∧ x.yearOfEra ≤ 399 := by
  obtain ⟨c, u, v, w, hc, hu, hv, hw, hleap⟩ := x
  simp only [yearOfEra]
  omega

/-- Where the year has a leap day the next one, whose February it is, is a leap year. -/
theorem isLeapYear_succ (h : x.day = 365) (era : Int) :
    isLeapYear (x.yearOfEra + era * 400 + 1) = true := by
  obtain ⟨c, u, v, w, hc, hu, hv, hw, hleap⟩ := x
  obtain ⟨hyear, hlast⟩ := hleap h
  simp only [yearOfEra, isLeapYear, Bool.and_eq_true, Bool.or_eq_true, beq_iff_eq, bne_iff_ne]
  refine ⟨by omega, ?_⟩
  by_cases hspan : u = 24
  · right
    omega
  left
  omega

end DayOfEra

/-- A day of a year that is counted from March on: the month, counted so too, and the day in it. -/
theorem month_cases {w : Int} (h : 0 ≤ w) (h' : w ≤ 365) : ∃ mp day : Nat, mp ≤ 11 ∧
    (5 * w + 2) / 153 = mp ∧ w - (153 * (mp : Int) + 2) / 5 + 1 = day ∧ 1 ≤ day ∧ day ≤ 31 ∧
    (mp = 1 ∨ mp = 3 ∨ mp = 6 ∨ mp = 8 → day ≤ 30) ∧ (mp = 11 → day ≤ 28 ∨ day = 29 ∧ w = 365) := by
  obtain ⟨mp, hmp⟩ : ∃ mp : Nat, (5 * w + 2) / 153 = mp := ⟨((5 * w + 2) / 153).toNat, by omega⟩
  obtain ⟨day, hday⟩ : ∃ day : Nat, w - (153 * (mp : Int) + 2) / 5 + 1 = day :=
    ⟨(w - (153 * (mp : Int) + 2) / 5 + 1).toNat, by omega⟩
  have hlast : mp ≤ 11 := by omega
  refine ⟨mp, day, hlast, hmp, hday, by omega, ?_⟩
  interval_cases mp <;> refine ⟨by omega, fun _ => by omega, fun _ => by omega⟩

/-- The month of the calendar, of one that is counted from March on. -/
def monthOf (mp : Nat) : Nat := if mp < 10 then mp + 3 else mp - 9

theorem dateOf_eq {n : Int} (hx : n + 719468 = era * 146097 + x.number) (hmp : mp ≤ 11)
    (hmonth : (5 * x.day + 2) / 153 = mp) (hday : x.day - (153 * (mp : Int) + 2) / 5 + 1 = day)
    (hnumber : 0 ≤ x.number ∧ x.number < 146097) :
    dateOf n = (x.yearOfEra + era * 400 + (if mp < 10 then 0 else 1), monthOf mp, day) := by
  have hera : (n + 719468) / 146097 = era := by omega
  have hrest : n + 719468 - era * 146097 = x.number := by omega
  have hcast : (if (mp : Int) < 10 then (mp : Int) + 3 else mp - 9) = monthOf mp := by
    unfold monthOf
    split <;> split <;> omega
  have hshift : (if (monthOf mp : Int) ≤ 2 then (1 : Int) else 0) = if mp < 10 then 0 else 1 := by
    unfold monthOf
    split <;> split <;> omega
  unfold dateOf
  simp (disch := decide) only [Int.fdiv_eq_ediv_of_nonneg, hera, hrest, ← x.yearOfEra_eq,
    ← x.day_eq, hmonth, hday, hcast, hshift, Int.toNat_natCast]

/-- The number of a date, its month counted from March on. -/
theorem dayNumber_eq (hmp : mp ≤ 11) (hday : x.day - (153 * (mp : Int) + 2) / 5 + 1 = day) :
    dayNumber (x.yearOfEra + era * 400 + (if mp < 10 then 0 else 1)) (monthOf mp) day =
    era * 146097 + x.number - 719468 := by
  obtain ⟨hyoe, hyoe'⟩ := x.yearOfEra_le
  have hyear : (if monthOf mp ≤ 2 then x.yearOfEra + era * 400 + (if mp < 10 then 0 else 1) - 1
      else x.yearOfEra + era * 400 + (if mp < 10 then 0 else 1)) = x.yearOfEra + era * 400 := by
    unfold monthOf
    split <;> split <;> omega
  have hmonth : (monthOf mp : Int) + (if 2 < monthOf mp then -3 else 9) = mp := by
    unfold monthOf
    split <;> split <;> omega
  have hera : (x.yearOfEra + era * 400) / 400 = era := by omega
  have hrest : x.yearOfEra + era * 400 - era * 400 = x.yearOfEra := by omega
  have hdays := x.day_eq
  unfold dayNumber
  simp (disch := decide) only [Int.fdiv_eq_ediv_of_nonneg, hyear, hmonth, hera, hrest]
  omega

theorem le_daysInMonth (hmp : mp ≤ 11) (hday : day ≤ 31)
    (hshort : mp = 1 ∨ mp = 3 ∨ mp = 6 ∨ mp = 8 → day ≤ 30)
    (hlast : mp = 11 → day ≤ 28 ∨ day = 29 ∧ x.day = 365) :
    day ≤ daysInMonth (x.yearOfEra + era * 400 + (if mp < 10 then 0 else 1)) (monthOf mp) := by
  by_cases hfebruary : mp = 11
  · subst hfebruary
    rcases hlast rfl with hless | ⟨rfl, hleap⟩
    · have h28 : 28 ≤ daysInMonth (x.yearOfEra + era * 400 + (if 11 < 10 then 0 else 1))
          (monthOf 11) := by
        simp only [monthOf, daysInMonth, Nat.reduceLT, if_false, Nat.reduceSub, if_true]
        split <;> omega
      omega
    · have hyear := x.isLeapYear_succ hleap era
      simp [monthOf, daysInMonth, hyear]
  · unfold monthOf daysInMonth
    split <;> split <;> split <;> omega

/-- A date: what is written is a day of the calendar, and its number is found again. -/
theorem dateOf_spec (n : Int) : ∃ year month day, dateOf n = (year, month, day) ∧
    1 ≤ month ∧ month ≤ 12 ∧ 1 ≤ day ∧ day ≤ 31 ∧ day ≤ daysInMonth year month ∧
    dayNumber year month day = n := by
  obtain ⟨era, hera⟩ : ∃ era, era = (n + 719468) / 146097 := ⟨_, rfl⟩
  have hlow : 0 ≤ n + 719468 - era * 146097 := by omega
  have hhigh : n + 719468 - era * 146097 < 146097 := by omega
  obtain ⟨x, hx⟩ := DayOfEra.exists_number hlow hhigh
  obtain ⟨mp, day, hmp, hmonth, hday, hone, hdays, hshort, hlast⟩ :=
    month_cases x.day_le.1 x.day_le.2
  have hmonths : 1 ≤ monthOf mp ∧ monthOf mp ≤ 12 := by
    unfold monthOf
    split <;> omega
  have hsum : n + 719468 = era * 146097 + x.number := by omega
  refine ⟨_, _, _, dateOf_eq hsum hmp hmonth hday (by omega), hmonths.1, hmonths.2, hone, hdays,
    le_daysInMonth hmp hdays hshort hlast, ?_⟩
  rw [dayNumber_eq hmp hday]
  omega

/-! ## Digits -/

theorem digitsValue_padded (width n : Nat) : digitsValue (padded width n) = n := by
  have hzeros (k : Nat) : (List.replicate k '0').foldl (fun n c => 10 * n + (c.toNat - 48)) 0 =
      0 := by
    induction k with
    | zero => rfl
    | succ k ih =>
      exact ih
  have hdigits : (Nat.toDigits 10 n).foldl (fun n c => 10 * n + (c.toNat - 48)) 0 = n :=
    Nat.ofDigitChars_ten_toDigits
  rw [digitsValue, padded, foldl_append, hzeros, hdigits]

theorem isDigit_padded {width : Nat} (h : c ∈ padded width n) : c.isDigit = true := by
  rcases mem_append.mp h with hzero | hdigit
  · rw [eq_of_mem_replicate hzero]
    rfl
  · exact Nat.isDigit_of_mem_toDigits (by decide) (by decide) hdigit

theorem length_padded {width : Nat} (hwidth : 0 < width) (hn : n < 10 ^ width) :
    (padded width n).length = width := by
  have hlength := Nat.toDigits_length 10 n width hwidth hn
  rw [padded, length_append, length_replicate]
  omega

theorem padded_ne_nil (width n : Nat) : padded width n ≠ [] := by
  simp [padded]

/-- Digits are read up to their number, or up to something else. -/
theorem readDigits_append {max : Nat} {digits rest : List Char}
    (hdigits : ∀ c ∈ digits, c.isDigit = true) (hne : digits ≠ [])
    (hlength : digits.length = max ∨ digits.length ≤ max ∧ ∀ c ∈ rest.head?, c.isDigit = false) :
    readDigits max (digits ++ rest) = .ok (digits, rest) := by
  have htaken : ((digits ++ rest).take max).takeWhile Char.isDigit = digits := by
    rcases hlength with rfl | ⟨hle, hhead⟩
    · rw [take_left, takeWhile_eq_self_iff.mpr hdigits]
    rw [take_append, take_of_length_le hle, takeWhile_append_of_pos hdigits]
    cases rest with
    | nil => simp
    | cons c rest =>
      have hc : c.isDigit = false := hhead c rfl
      cases hmore : max - digits.length with
      | zero => simp
      | succ k => simp [hc]
  have hcons : digits ++ rest ≠ [] := by simp [hne]
  have hsome : digits.isEmpty = false := by simpa using hne
  unfold readDigits
  split
  · rename_i heq
    exact absurd heq hcons
  · simp [htaken, hsome]

theorem not_isBlank_of_isDigit (h : c.isDigit = true) : isBlank c = false := by
  have hrange : 48 ≤ c.toNat ∧ c.toNat ≤ 57 := by
    simp only [Char.isDigit, Bool.and_eq_true, decide_eq_true_eq, UInt32.le_iff_toNat_le] at h
    exact h
  have hnone : ∀ n, 48 ≤ n → n ≤ 57 →
      (blankRanges.any fun r => decide (r.1 ≤ n) && decide (n ≤ r.2)) = false := by
    intro n hlow hhigh
    interval_cases n <;> rfl
  exact hnone c.toNat hrange.1 hrange.2

theorem trimStartChars_cons (h : isBlank c = false) (rest : List Char) :
    trimStartChars (c :: rest) = c :: rest := by
  rw [trimStartChars, dropWhile_cons_of_neg (by simp [h])]

theorem trimStartChars_padded (width n : Nat) (rest : List Char) :
    trimStartChars (padded width n ++ rest) = padded width n ++ rest := by
  cases hpadded : padded width n with
  | nil => exact absurd hpadded (padded_ne_nil width n)
  | cons c more =>
    have hc : c.isDigit = true := isDigit_padded (hpadded ▸ mem_cons_self)
    exact trimStartChars_cons (not_isBlank_of_isDigit hc) (more ++ rest)

/-! ## Reading what is written -/

theorem readNumber_padded {low high : Nat} (hlow : low ≤ n) (hhigh : n ≤ high) (hn : n < 100)
    (rest : List Char) : readNumber low high (padded 2 n ++ rest) = .ok (n, rest) := by
  have hread : readDigits 2 (padded 2 n ++ rest) = .ok (padded 2 n, rest) :=
    readDigits_append (fun _ => isDigit_padded) (padded_ne_nil 2 n)
      (.inl (length_padded (by decide) hn))
  simp [readNumber, trimStartChars_padded, hread, digitsValue_padded, bind, Except.bind, hlow,
    hhigh]

theorem expect_cons (h : isBlank c = false) (rest : List Char) :
    expect c (c :: rest) = .ok rest := by
  rw [expect, trimStartChars_cons h]
  simp

/-- Years are read back. Those that need a sign may have any number of digits. -/
theorem readYear_yearText {year : Int} (hmin : minYear ≤ year) (hmax : year ≤ maxYear)
    (rest : List Char) : readYear (yearText year ++ '-' :: rest) = .ok (year, '-' :: rest) := by
  have hbounds : -0x80000000 ≤ year ∧ year < 0x80000000 := by
    unfold minYear at hmin
    unfold maxYear at hmax
    omega
  have hsigned (n : Nat) : readDigits (padded 4 n ++ '-' :: rest).length
      (padded 4 n ++ '-' :: rest) = .ok (padded 4 n, '-' :: rest) := by
    refine readDigits_append (fun _ => isDigit_padded) (padded_ne_nil 4 n) (.inr ⟨by simp, ?_⟩)
    simp
  unfold yearText
  split
  · obtain ⟨n, rfl⟩ : ∃ n : Nat, year = n := ⟨year.toNat, by omega⟩
    have hn : n < 10 ^ 4 := by omega
    have hread : readDigits 4 (padded 4 n ++ '-' :: rest) = .ok (padded 4 n, '-' :: rest) :=
      readDigits_append (fun _ => isDigit_padded) (padded_ne_nil 4 n)
        (.inl (length_padded (by decide) hn))
    have hsign (sign : Char) (more : List Char) (hcons : padded 4 n ++ '-' :: rest = sign :: more) :
        sign.isDigit = true := by
      cases hpadded : padded 4 n with
      | nil => exact absurd hpadded (padded_ne_nil 4 n)
      | cons c others =>
        rw [hpadded] at hcons
        cases hcons
        exact isDigit_padded (hpadded ▸ mem_cons_self)
    rw [Int.toNat_natCast, readYear, trimStartChars_padded]
    split
    · rename_i hcons
      exact absurd (hsign _ _ hcons) (by decide)
    · rename_i hcons
      exact absurd (hsign _ _ hcons) (by decide)
    · simp [hread, Except.map, digitsValue_padded, bind, Except.bind, hbounds]
  · have hblank : isBlank '-' = false ∧ isBlank '+' = false := ⟨rfl, rfl⟩
    by_cases hneg : year < 0
    · have habs : -((year.natAbs : Nat) : Int) = year := by omega
      simp only [hneg, if_true, cons_append, readYear, trimStartChars_cons hblank.1, hsigned,
        Except.map, digitsValue_padded, bind, Except.bind, habs, hbounds, and_self]
    · have habs : ((year.natAbs : Nat) : Int) = year := by omega
      simp only [hneg, if_false, cons_append, readYear, trimStartChars_cons hblank.2, hsigned,
        Except.map, digitsValue_padded, bind, Except.bind, habs, hbounds, and_self, if_true]

/-- Fractions are read back. -/
theorem readFraction_fractionText {nanos : Nat} (h : nanos < perSecond) :
    readFraction (fractionText nanos ++ ['Z']) = .ok (nanos, ['Z']) := by
  have hlong : nanos < 1000000000 := h
  have hread (width n : Nat) (hwidth : 0 < width) (hmax : width ≤ 9) (hn : n < 10 ^ width) :
      readFraction ('.' :: padded width n ++ ['Z']) = .ok (n * 10 ^ (9 - width), ['Z']) := by
    have hlength := length_padded hwidth hn
    have hdigits : readDigits 9 (padded width n ++ ['Z']) = .ok (padded width n, ['Z']) := by
      refine readDigits_append (fun _ => isDigit_padded) (padded_ne_nil width n)
        (.inr ⟨by omega, ?_⟩)
      simp
    have hrest : ['Z'].dropWhile Char.isDigit = ['Z'] := rfl
    simp only [cons_append, readFraction, hdigits, bind, Except.bind, digitsValue_padded, hlength,
      hrest]
    rfl
  unfold fractionText
  split
  · rename_i hzero
    rw [hzero]
    rfl
  · split
    · rw [hread 3 _ (by decide) (by decide) (by omega)]
      simp only [Except.ok.injEq, Prod.mk.injEq, and_true]
      omega
    · split
      · rw [hread 6 _ (by decide) (by decide) (by omega)]
        simp only [Except.ok.injEq, Prod.mk.injEq, and_true]
        omega
      · rw [hread 9 _ (by decide) (by decide) (by omega)]
        simp

/-- The year of a stamp. -/
def year (s : Stamp) : Int := (dateOf (s.seconds.fdiv perDay)).1

/-- A stamp of the calendar, in no leap second. -/
structure IsRegular (s : Stamp) : Prop where
  nanos_lt : s.nanos < Duration.perSecond
  min_le : minYear ≤ s.year
  le_max : s.year ≤ maxYear

/-- A stamp is read from its text as it was written. -/
theorem parse_text {s : Stamp} (h : s.IsRegular) : parse s.text = .ok s := by
  obtain ⟨hnanos, hmin, hmax⟩ := h
  obtain ⟨year, month, day, hdate, hmonth, hmonth', hday, hday', hdays, hnumber⟩ :=
    dateOf_spec (s.seconds.fdiv perDay)
  rw [Stamp.year, hdate] at hmin hmax
  obtain ⟨second, hsecond⟩ : ∃ second : Nat, s.seconds.fmod perDay = second := by
    refine ⟨(s.seconds.fmod perDay).toNat, ?_⟩
    have := Int.fmod_nonneg_of_pos s.seconds (by decide : (0 : Int) < (perDay : Int))
    omega
  have hlt : second < 86400 := by
    have := Int.fmod_lt_of_pos s.seconds (by decide : (0 : Int) < (perDay : Int))
    have hperDay : (perDay : Int) = 86400 := rfl
    omega
  have hextra : s.nanos / perSecond = 0 := Nat.div_eq_of_lt hnanos
  have hfraction : s.nanos % perSecond = s.nanos := Nat.mod_eq_of_lt hnanos
  have htext : s.text.toList = yearText year ++ '-' :: (padded 2 month ++ '-' :: (padded 2 day ++
      'T' :: (padded 2 (second / 3600) ++ ':' :: (padded 2 (second / 60 % 60) ++
      ':' :: (padded 2 (second % 60) ++ (fractionText s.nanos ++ ['Z'])))))) := by
    simp [text, localText, hdate, hsecond, hextra, hfraction]
  have hzone : readZone ['Z'] = .ok (0, []) := rfl
  have hdash : isBlank '-' = false := rfl
  have hcolon : isBlank ':' = false := rfl
  have hseparator (rest : List Char) : readSeparator ('T' :: rest) = .ok rest := rfl
  have hend : (trimStartChars []).isEmpty = true := rfl
  rw [parse, htext]
  simp only [readYear_yearText hmin hmax, expect_cons hdash, expect_cons hcolon, hseparator, bind,
    Except.bind, readNumber_padded hmonth hmonth' (by omega),
    readNumber_padded hday hday' (by omega),
    readNumber_padded (Nat.zero_le (second / 3600)) (by omega : second / 3600 ≤ 23) (by omega),
    readNumber_padded (Nat.zero_le (second / 60 % 60)) (by omega : second / 60 % 60 ≤ 59)
    (by omega),
    readNumber_padded (Nat.zero_le (second % 60)) (by omega : second % 60 ≤ 60) (by omega),
    readFraction_fractionText hnanos, hzone, hend]
  have hrange : ¬ (year < minYear ∨ maxYear < year ∨ daysInMonth year month < day) := by omega
  have hoffset : ¬ ((0 : Int) ≤ -(perDay : Int) ∨ (perDay : Int) ≤ 0) := by decide
  have hleap : ¬ second % 60 = 60 := by omega
  have hwhole : s.seconds.fdiv perDay * perDay + second = s.seconds := by
    rw [← hsecond, Int.mul_comm]
    exact Int.mul_fdiv_add_fmod _ _
  have hclock : second / 3600 * 3600 + second / 60 % 60 * 60 + (second % 60 - 0) = second := by
    omega
  simp only [Bool.not_true, Bool.false_eq_true, if_false, hrange, hoffset, hleap, hnumber]
  obtain ⟨seconds, nanos⟩ := s
  simp only [Except.ok.injEq, Stamp.mk.injEq]
  refine ⟨?_, by omega⟩
  dsimp only at hwhole
  omega

/-! ## Order and distance -/

theorem lt_iff :
    a.lt b = true ↔ a.seconds < b.seconds ∨ a.seconds = b.seconds ∧ a.nanos < b.nanos := by
  simp [lt]

theorem lt_trans {c : Stamp} (hab : a.lt b = true) (hbc : b.lt c = true) : a.lt c = true := by
  rw [lt_iff] at *
  omega

theorem lt_irrefl (a : Stamp) : a.lt a = false := by
  simp [lt]

theorem lt_asymm (hab : a.lt b = true) : b.lt a = false := by
  rw [← Bool.not_eq_true, lt_iff]
  rw [lt_iff] at hab
  omega

theorem lt_or_eq_or_lt (a b : Stamp) : a.lt b = true ∨ a = b ∨ b.lt a = true := by
  obtain ⟨seconds, nanos⟩ := a
  obtain ⟨seconds', nanos'⟩ := b
  simp only [lt_iff, Stamp.mk.injEq]
  omega

/-- The seconds and the nanoseconds of a later stamp make up the time that has passed. -/
theorem after_spec (a : Stamp) (n : Int) : (a.after n).nanos < perSecond ∧
    (a.after n).seconds * perSecond + (a.after n).nanos = a.seconds * perSecond + a.nanos + n := by
  unfold after
  dsimp only
  generalize a.seconds * (perSecond : Int) + a.nanos + n = total
  have hpos : (0 : Int) < (perSecond : Int) := by decide
  have hlt := Int.fmod_lt_of_pos total hpos
  have hnonneg := Int.fmod_nonneg_of_pos total hpos
  have hsum := Int.mul_fdiv_add_fmod total perSecond
  constructor
  · omega
  rw [Int.toNat_of_nonneg hnonneg, Int.mul_comm]
  exact hsum

theorem lt_after {m n : Int} (h : m < n) : (a.after m).lt (a.after n) = true := by
  obtain ⟨hm, hm'⟩ := after_spec a m
  obtain ⟨hn, hn'⟩ := after_spec a n
  have hsecond : perSecond = 1000000000 := rfl
  rw [hsecond] at hm hm' hn hn'
  rw [lt_iff]
  omega

theorem since_after (a : Stamp) (m n : Int) : (a.after n).since (a.after m) = n - m := by
  obtain ⟨-, hm'⟩ := after_spec a m
  obtain ⟨-, hn'⟩ := after_spec a n
  rw [since, Int.sub_mul]
  omega

end Stamp

end Foundry
