import Foundry.Number.Binary64
import Mathlib.Algebra.Order.Field.Power
import Mathlib.Algebra.Order.Field.Rat
import Mathlib.Algebra.Order.Ring.Nat
import Mathlib.Tactic.Linarith
import Mathlib.Tactic.Positivity
import Mathlib.Tactic.Ring

/-!
# Values of double-precision numbers

The absolute value of a finite number is a natural number of units `2^-1074`, so values are
compared without fractions. The order of the bits is the order of the values, and a ratio that
is a number of full precision is rounded to that number.
-/

namespace Foundry

namespace Binary64

variable {x y : Binary64} {q : Int} {den m num : Nat}

/-- The absolute value of a finite number in units of the least positive one. -/
def units (x : Binary64) : Nat :=
  if x.magnitude / fractionSize = 0 then x.magnitude % fractionSize
  else (fractionSize + x.magnitude % fractionSize) * 2 ^ (x.magnitude / fractionSize - 1)

/-- How many units make one. -/
def perOne : Nat := 2 ^ 1074

theorem perOne_pos : 0 < perOne := by
  unfold perOne
  exact pow_pos two_pos 1074

theorem units_lt_units (h : x.magnitude < y.magnitude) : x.units < y.units := by
  have hx := Nat.div_add_mod x.magnitude fractionSize
  have hy := Nat.div_add_mod y.magnitude fractionSize
  have hfraction := Nat.mod_lt x.magnitude (show 0 < fractionSize by decide)
  have hfield : x.magnitude / fractionSize ≤ y.magnitude / fractionSize := Nat.div_le_div_right h.le
  unfold units
  generalize x.magnitude / fractionSize = a, x.magnitude % fractionSize = r at *
  generalize y.magnitude / fractionSize = b, y.magnitude % fractionSize = t at *
  rcases hfield.eq_or_lt with rfl | hlt
  · -- in one binade the fractions decide
    have hrt : r < t := by omega
    split
    · exact hrt
    · exact Nat.mul_lt_mul_of_pos_right (by omega) (Nat.two_pow_pos _)
  · -- everything in a lower binade is below the least number of a higher one
    have hleast : fractionSize * 2 ^ (b - 1) ≤ (fractionSize + t) * 2 ^ (b - 1) :=
      Nat.mul_le_mul_right _ (Nat.le_add_right _ _)
    rw [if_neg (by omega : ¬ b = 0)]
    refine lt_of_lt_of_le ?_ hleast
    split
    · exact hfraction.trans_le (Nat.le_mul_of_pos_right _ (Nat.two_pow_pos _))
    calc (fractionSize + r) * 2 ^ (a - 1)
        < (fractionSize * 2) * 2 ^ (a - 1) :=
          Nat.mul_lt_mul_of_pos_right (by omega) (Nat.two_pow_pos _)
      _ = fractionSize * 2 ^ (a - 1 + 1) := by rw [pow_succ]; ring
      _ ≤ fractionSize * 2 ^ (b - 1) :=
          Nat.mul_le_mul_left _ (Nat.pow_le_pow_right (by decide) (by omega))

theorem units_le_iff : x.units ≤ y.units ↔ x.magnitude ≤ y.magnitude := by
  refine ⟨fun h => Nat.not_lt.mp fun hlt => Nat.not_le.mpr (units_lt_units hlt) h, fun h => ?_⟩
  rcases h.eq_or_lt with heq | hlt
  · rw [units, units, heq]
  · exact (units_lt_units hlt).le

/-- The denominator of a value is a power of two. -/
theorem fraction_snd_pos (m : Nat) (q : Int) : 0 < (fraction m q).2 := by
  cases q with
  | ofNat e => exact Nat.one_pos
  | negSucc e => exact Nat.two_pow_pos (e + 1)

theorem fraction_units (m : Nat) (hq : -1074 ≤ q) :
    (fraction m q).1 * perOne = m * 2 ^ (q + 1074).toNat * (fraction m q).2 := by
  unfold perOne
  cases q with
  | ofNat e =>
    have he : (Int.ofNat e + 1074).toNat = e + 1074 := rfl
    rw [he, fraction, Nat.pow_eq, mul_one, pow_add, mul_assoc]
  | negSucc e =>
    have he : (Int.negSucc e + 1074).toNat + (e + 1) = 1074 := by omega
    rw [fraction, Nat.pow_eq, mul_assoc, ← pow_add, he]

/-- A finite number has a value, of as many units as its bits say. -/
theorem exists_parts (h : x.magnitude < infinityMagnitude) :
    ∃ m q, x.parts = .finite x.isNegative m q ∧
    (fraction m q).1 * perOne = x.units * (fraction m q).2 := by
  have hfield : ¬ x.magnitude / fractionSize = 2047 := by
    intro hfull
    have := Nat.div_mul_le_self x.magnitude fractionSize
    rw [hfull] at this
    exact absurd h (Nat.not_lt.mpr this)
  unfold parts units
  generalize x.magnitude / fractionSize = a, x.magnitude % fractionSize = r at *
  by_cases hzero : a = 0
  · refine ⟨r, -1074, by simp only [hzero, if_true]; rfl, ?_⟩
    rw [fraction_units r (by decide), if_pos hzero]
    simp
  · have hexponent : (Int.ofNat a - 1075 + 1074).toNat = a - 1 := by
      rw [Int.ofNat_eq_natCast]
      omega
    have hleast : -1074 ≤ Int.ofNat a - 1075 := by
      rw [Int.ofNat_eq_natCast]
      omega
    refine ⟨fractionSize + r, Int.ofNat a - 1075, by simp [hfield, hzero], ?_⟩
    rw [fraction_units _ hleast, if_neg hzero, hexponent]

theorem mantissa_pos {negative : Bool} (hx : x.parts = .finite negative m q) (h : 0 < x.magnitude) :
    0 < m := by
  have hdivide := Nat.div_add_mod x.magnitude fractionSize
  dsimp only [parts] at hx
  split at hx
  · split at hx <;> cases hx
  split at hx
  · rename_i hzero
    cases hx
    rw [hzero, Nat.mul_zero, Nat.zero_add] at hdivide
    omega
  · cases hx
    exact Nat.add_pos_left (by decide) _

/-- A number of at least one has its leading bit. -/
theorem fractionSize_le {negative : Bool} (hx : x.parts = .finite negative m q)
    (hone : (fraction m q).2 ≤ (fraction m q).1) : fractionSize ≤ m := by
  have hmod : x.magnitude % fractionSize < fractionSize := Nat.mod_lt _ (by decide)
  have hsmall : ∀ e, 52 ≤ e → m < fractionSize → ¬ q = Int.negSucc e := by
    rintro e he hm rfl
    have hpow : 2 ^ 52 ≤ 2 ^ (e + 1) := Nat.pow_le_pow_right Nat.two_pos (by omega)
    exact absurd (hpow.trans hone) (Nat.not_le.mpr hm)
  dsimp only [parts] at hx
  split at hx
  · split at hx <;> cases hx
  split at hx
  · cases hx
    exact absurd rfl (hsmall 1073 (by decide) hmod)
  cases hx
  exact Nat.le_add_right _ _

/-! ## Comparisons -/

theorem pos_of_lt (h : (zero false).lt x = true) : x.isNegative = false ∧ 0 < x.magnitude := by
  have hkey : (zero false).key < x.key := by
    simp only [lt, Bool.and_eq_true, decide_eq_true_eq] at h
    exact h.2
  have hzero : (zero false).key = 0 := by decide
  rw [hzero] at hkey
  simp only [key, Int.ofNat_eq_natCast] at hkey
  cases hsign : x.isNegative with
  | true =>
    rw [hsign, if_pos rfl] at hkey
    omega
  | false =>
    exact ⟨rfl, by omega⟩

theorem magnitude_le_of_le (hx : x.isNegative = false) (hy : y.isNegative = false)
    (h : x.le y = true) : x.magnitude ≤ y.magnitude := by
  have hkey : x.key ≤ y.key := by
    simp only [le, Bool.and_eq_true, decide_eq_true_eq] at h
    exact h.2
  simp only [key, hx, hy, Bool.false_eq_true, if_false, Int.ofNat_eq_natCast] at hkey
  omega

/-- What is a number and not above another one is at most that. -/
theorem le_of_not_lt (hx : (zero false).lt x = true) (hy : (zero false).lt y = true)
    (h : x.lt y = false) : y.le x = true := by
  simp only [lt, le, Bool.and_eq_true, Bool.not_eq_true', decide_eq_true_eq,
    Bool.and_eq_false_iff, decide_eq_false_iff_not] at *
  obtain ⟨⟨-, hx⟩, -⟩ := hx
  obtain ⟨⟨-, hy⟩, -⟩ := hy
  refine ⟨⟨hy, hx⟩, ?_⟩
  rcases h with (h | h) | h
  · rw [hx] at h
    cases h
  · rw [hy] at h
    cases h
  · omega

protected theorem le_trans {z : Binary64} (h : x.le y = true) (h' : y.le z = true) :
    x.le z = true := by
  simp only [le, Bool.and_eq_true, decide_eq_true_eq] at *
  exact ⟨⟨h.1.1, h'.1.2⟩, h.2.trans h'.2⟩

/-! ## Rounding -/

theorem divRound_le {k : Nat} (hden : 0 < den) (h : num ≤ k * den) : divRound num den ≤ k := by
  have hdiv := Nat.div_add_mod num den
  have hq : num / den ≤ k := Nat.div_le_of_le_mul (by rwa [mul_comm])
  have hlast : num / den = k → num % den = 0 := by
    intro hk
    rw [hk, mul_comm] at hdiv
    omega
  unfold divRound
  dsimp only
  split
  · exact hq
  rcases hq.eq_or_lt with heq | hlt
  · omega
  · split <;> omega

theorem divRound_mul (k : Nat) (hden : 0 < den) : divRound (k * den) den = k := by
  simp [divRound, Nat.mul_div_cancel k hden, hden]

/-- Scaling a value by its own last place leaves the mantissa. -/
theorem inUnits_self (h : num * (fraction m q).2 = (fraction m q).1 * den) :
    (inUnits num den q).1 = m * (inUnits num den q).2 := by
  cases q with
  | ofNat e => simpa [inUnits, fraction, mul_assoc, mul_comm, mul_left_comm] using h
  | negSucc e => simpa [inUnits, fraction] using h

theorem inUnits_snd_pos (num : Nat) (hden : 0 < den) (q : Int) : 0 < (inUnits num den q).2 := by
  cases q with
  | ofNat e => exact Nat.mul_pos hden (Nat.two_pow_pos e)
  | negSucc e => exact hden

theorem inUnits_ratio (num den : Nat) (q : Int) :
    ((inUnits num den q).1 / (inUnits num den q).2 : ℚ) = num / den / 2 ^ q := by
  cases q with
  | ofNat e => simp [inUnits, div_div]
  | negSucc e => simp [inUnits, zpow_negSucc, mul_div_right_comm]

theorem fraction_ratio (m : Nat) (q : Int) :
    ((fraction m q).1 / (fraction m q).2 : ℚ) = m * 2 ^ q := by
  cases q with
  | ofNat e => simp [fraction]
  | negSucc e => simp [fraction, zpow_negSucc, div_eq_mul_inv]

/-- The place that 53 bits of a ratio end at, unless they go below the least place. -/
theorem lastPlace_bounds (hnum : 0 < num) (hden : 0 < den) :
    -1074 ≤ lastPlace num den ∧ (num / den : ℚ) < 2 ^ (lastPlace num den + 53) ∧
    (-1074 < lastPlace num den → (2 ^ (lastPlace num den + 52) : ℚ) ≤ num / den) := by
  have hden' : (0 : ℚ) < den := Nat.cast_pos.mpr hden
  have hlog {n : Nat} (hn : 0 < n) : (2 : ℚ) ^ (n.log2 : Int) ≤ n ∧
      (n : ℚ) < 2 ^ (n.log2 + 1 : Int) := by
    have := Nat.log2_self_le (Nat.pos_iff_ne_zero.mp hn)
    exact ⟨by exact_mod_cast this, by exact_mod_cast Nat.lt_log2_self⟩
  unfold lastPlace
  dsimp only
  generalize hg : (num.log2 : Int) - den.log2 - 52 = g
  have hlow : (2 : ℚ) ^ (g + 51) ≤ num / den := by
    rw [le_div_iff₀ hden']
    calc (2 : ℚ) ^ (g + 51) * den ≤ 2 ^ (g + 51) * 2 ^ (den.log2 + 1 : Int) := by
          gcongr
          exact (hlog hden).2.le
      _ = 2 ^ (num.log2 : Int) := by rw [← zpow_add₀ two_ne_zero]; congr 1; omega
      _ ≤ num := (hlog hnum).1
  have hhigh : (num / den : ℚ) < 2 ^ (g + 53) := by
    rw [div_lt_iff₀ hden']
    calc (num : ℚ) < 2 ^ (num.log2 + 1 : Int) := (hlog hnum).2
      _ = 2 ^ (g + 53) * 2 ^ (den.log2 : Int) := by rw [← zpow_add₀ two_ne_zero]; congr 1; omega
      _ ≤ 2 ^ (g + 53) * den := by gcongr; exact (hlog hden).1
  have hfull : (inUnits num den g).1 / (inUnits num den g).2 < fractionSize ↔
      (num / den : ℚ) < 2 ^ (g + 52) := by
    have hpos : (0 : ℚ) < (inUnits num den g).2 := Nat.cast_pos.mpr (inUnits_snd_pos num hden g)
    have hsize : (fractionSize : ℚ) = 2 ^ (52 : Int) := by norm_num [fractionSize]
    rw [Nat.div_lt_iff_lt_mul (inUnits_snd_pos num hden g), ← Nat.cast_lt (α := ℚ), Nat.cast_mul,
      ← div_lt_iff₀ hpos, inUnits_ratio, div_lt_iff₀ (by positivity), hsize,
      ← zpow_add₀ two_ne_zero, add_comm]
  have hmono {a b : Int} (h : a ≤ b) : (2 : ℚ) ^ a ≤ 2 ^ b := zpow_le_zpow_right₀ one_le_two h
  refine ⟨le_max_right _ _, ?_, ?_⟩ <;> split <;> rename_i h <;> rw [hfull] at h
  · exact h.trans_le (hmono (by omega))
  · exact hhigh.trans_le (hmono (by omega))
  · exact fun _ => (hmono (by omega)).trans hlow
  · exact fun _ => (hmono (by omega)).trans (not_lt.mp h)

/-- The last place of a ratio that is a number of full precision is the last place of that
number. -/
theorem lastPlace_eq (hm : fractionSize ≤ m) (hm' : m < 2 * fractionSize) (hq : -1074 ≤ q)
    (hnum : 0 < num)
    (hden : 0 < den) (h : (num / den : ℚ) = m * 2 ^ q) : lastPlace num den = q := by
  have hsize : (fractionSize : ℚ) = 2 ^ (52 : Int) := by norm_num [fractionSize]
  have hlow : (2 : ℚ) ^ (q + 52) ≤ num / den := by
    rw [h, add_comm, zpow_add₀ two_ne_zero, ← hsize]
    gcongr
  have hhigh : (num / den : ℚ) < 2 ^ (q + 53) := by
    rw [h, show q + 53 = 1 + 52 + q by ring, zpow_add₀ two_ne_zero, zpow_add₀ two_ne_zero, ← hsize,
      zpow_one]
    gcongr
    exact_mod_cast hm'
  have hlt {a b : Int} (h : (2 : ℚ) ^ a < 2 ^ b) : a < b :=
    (zpow_lt_zpow_iff_right₀ one_lt_two).mp h
  obtain ⟨-, hupper, hlower⟩ := lastPlace_bounds hnum hden
  have := hlt (hlow.trans_lt hupper)
  by_contra hne
  have := hlt ((hlower (by omega)).trans_lt hhigh)
  omega

/-- A ratio that is a number of full precision is rounded to that number. -/
theorem ofRatio_eq (hx : x.parts = .finite false m q) (hm : fractionSize ≤ m) (hden : 0 < den)
    (h : num * (fraction m q).2 = (fraction m q).1 * den) : ofRatio false num den = x := by
  have hsmall := Nat.mod_lt x.magnitude (show 0 < fractionSize by decide)
  have hdiv := Nat.div_add_mod x.magnitude fractionSize
  have hbits : x.magnitude < signBit := Nat.mod_lt _ (by decide)
  have hsize : fractionSize = 4503599627370496 := rfl
  have hsign : signBit = 9223372036854775808 := rfl
  have hvalue : x.isNegative = false → x.bits.toNat = x.magnitude := by
    intro hnegative
    have hlt : x.bits.toNat < signBit := by simpa [isNegative] using hnegative
    exact (Nat.mod_eq_of_lt hlt).symm
  unfold parts at hx
  dsimp only at hx
  generalize x.magnitude / fractionSize = a, x.magnitude % fractionSize = r at hx hsmall hdiv
  split at hx
  · split at hx <;> cases hx
  split at hx
  · -- a number below full precision
    injection hx with hnegative hmantissa hexponent
    omega
  · injection hx with hnegative hmantissa hexponent
    rw [Int.ofNat_eq_natCast] at hexponent
    have hmagnitude : (q + 1074).toNat * fractionSize + m = x.magnitude := by
      have hq : (q + 1074).toNat + 1 = a := by omega
      rw [← hdiv, ← hq, ← hmantissa]
      ring
    have hfinite : ¬ infinityMagnitude ≤ x.magnitude := by
      have hinfinity : infinityMagnitude = 2047 * 4503599627370496 := rfl
      rw [hsize] at hdiv
      omega
    have hnum : num ≠ 0 := by
      rintro rfl
      have hzero : (inUnits 0 den q).1 = 0 := by cases q <;> simp [inUnits]
      have hself := inUnits_self h
      have := Nat.mul_pos (show 0 < m by omega) (inUnits_snd_pos 0 hden q)
      omega
    have hratio : (num / den : ℚ) = m * 2 ^ q := by
      have := fraction_snd_pos m q
      rw [← fraction_ratio, div_eq_div_iff (by positivity) (by positivity)]
      exact_mod_cast h
    have hlast : lastPlace num den = q :=
      lastPlace_eq hm (by omega) (by omega) (Nat.pos_of_ne_zero hnum) hden hratio
    unfold ofRatio
    dsimp only
    rw [if_neg hnum, hlast, inUnits_self h, divRound_mul m (inUnits_snd_pos num hden q), hmagnitude,
      if_neg hfinite, ofMagnitude, if_neg Bool.false_ne_true, ← hvalue hnegative]
    exact congrArg Binary64.mk UInt64.ofNat_toNat

end Binary64

end Foundry
