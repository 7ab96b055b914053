import Mathlib.Tactic.FieldSimp
import Mathlib.Tactic.Linarith
import Reckoner.Proofs.Decimal.Shortest

/-! Rounding to a decimal, as a matter of rational numbers: how far the decimal is from the number,
where its leading digit is, and that rounding again where that digit says changes nothing. -/
namespace Reckoner

theorem abs_sub_roundHalfEven_le (num : Nat) {den : Nat} (hden : 0 < den) :
    2 * |(num : ℚ) / den - roundHalfEven num den| ≤ 1 := by
  have hpos : (0 : ℚ) < den := by exact_mod_cast hden
  have hle : (2 * (den * roundHalfEven num den) : ℚ) ≤ 2 * num + den := by
    exact_mod_cast mul_roundHalfEven_le num den
  have hge : (2 * num : ℚ) ≤ 2 * (den * roundHalfEven num den) + den := by
    exact_mod_cast le_mul_roundHalfEven num hden
  have hnum : (num : ℚ) / den * den = num := div_mul_cancel₀ _ hpos.ne'
  have habs : |(num : ℚ) / den - roundHalfEven num den| ≤ 1 / 2 := by
    rw [abs_le]
    constructor <;> nlinarith
  linarith

/-- At half a unit from the number, the rounded one is even. -/
theorem even_roundHalfEven (num : Nat) {den : Nat} (hden : 0 < den)
    (h : 2 * |(num : ℚ) / den - roundHalfEven num den| = 1) : roundHalfEven num den % 2 = 0 := by
  have hpos : (0 : ℚ) < den := by exact_mod_cast hden
  have hnum : (num : ℚ) / den * den = num := div_mul_cancel₀ _ hpos.ne'
  have hsplit := Nat.div_add_mod num den
  have hrest := Nat.mod_lt num hden
  have hle := div_le_roundHalfEven num den
  have hge := roundHalfEven_le num den
  apply even_roundHalfEven_of_half
  have hhalf : 2 * num = 2 * (den * roundHalfEven num den) + den ∨
      2 * num + den = 2 * (den * roundHalfEven num den) := by
    rcases abs_choice ((num : ℚ) / den - roundHalfEven num den) with habs | habs
    · left
      rw [habs] at h
      have : (2 * num : ℚ) = 2 * (den * roundHalfEven num den) + den := by nlinarith
      exact_mod_cast this
    · right
      rw [habs] at h
      have : (2 * num + den : ℚ) = 2 * (den * roundHalfEven num den) := by nlinarith
      exact_mod_cast this
  rcases Nat.eq_or_lt_of_le hle with heq | hlt
  · rw [← heq] at hhalf
    omega
  · rw [show roundHalfEven num den = num / den + 1 by omega, Nat.mul_add] at hhalf
    omega

theorem roundHalfEven_eq_of_abs_lt {num den n : Nat} (hden : 0 < den)
    (h : 2 * |(num : ℚ) / den - n| < 1) : roundHalfEven num den = n := by
  have hpos : (0 : ℚ) < den := by exact_mod_cast hden
  have hnum : (num : ℚ) / den * den = num := div_mul_cancel₀ _ hpos.ne'
  have habs : |(num : ℚ) / den - n| < 1 / 2 := by linarith
  rw [abs_lt] at habs
  have hlower : (2 * (den * n) : ℚ) < 2 * num + den := by nlinarith
  have hupper : (2 * num : ℚ) < 2 * (den * n) + den := by nlinarith
  have hlower' : 2 * (den * n) < 2 * num + den := by exact_mod_cast hlower
  have hupper' : 2 * num < 2 * (den * n) + den := by exact_mod_cast hupper
  exact roundHalfEven_eq hden hlower'.le hupper'.le (.inr ⟨hlower', hupper'⟩)

/-- `r` is the multiple of `step` nearest to `v`; halfway between two, the even one. -/
def IsNearestMultiple (step v r : ℚ) : Prop :=
  ∃ steps : ℤ, r = steps * step ∧ 2 * |v - r| ≤ step ∧ (2 * |v - r| = step → Even steps)

namespace IsNearestMultiple

variable {step v r r' : ℚ}

theorem neg (h : IsNearestMultiple step v r) : IsNearestMultiple step (-v) (-r) := by
  obtain ⟨steps, rfl, hnear, heven⟩ := h
  have habs : |-v - -(steps * step)| = |v - steps * step| := by
    rw [← abs_neg]
    congr 1
    ring
  refine ⟨-steps, by push_cast; ring, ?_⟩
  rw [habs]
  exact ⟨hnear, fun h => (heven h).neg⟩

/-- Of two multiples that are both half a step away at most, neither is greater: if they are next to
each other, the number is halfway between them, and only one of them is even. -/
theorem le (hstep : 0 < step) (h : IsNearestMultiple step v r)
    (h' : IsNearestMultiple step v r') : r ≤ r' := by
  obtain ⟨steps, rfl, hnear, heven⟩ := h
  obtain ⟨steps', rfl, hnear', heven'⟩ := h'
  apply mul_le_mul_of_nonneg_right _ hstep.le
  rw [Int.cast_le]
  by_contra hlt
  have hnext : (steps' : ℚ) + 1 ≤ steps := by exact_mod_cast not_le.mp hlt
  have habove := neg_le_abs (v - steps * step)
  have hbelow := le_abs_self (v - steps' * step)
  have hgap := mul_le_mul_of_nonneg_right hnext hstep.le
  rw [add_mul, one_mul] at hgap
  obtain ⟨m, hm⟩ := heven (le_antisymm hnear (by linarith))
  obtain ⟨m', hm'⟩ := heven' (le_antisymm hnear' (by linarith))
  have hle : (steps : ℚ) ≤ steps' + 1 := by
    apply le_of_mul_le_mul_right _ hstep
    linarith
  have hle' : steps ≤ steps' + 1 := by exact_mod_cast hle
  omega

theorem unique (hstep : 0 < step) (h : IsNearestMultiple step v r)
    (h' : IsNearestMultiple step v r') : r = r' :=
  le_antisymm (h.le hstep h') (h'.le hstep h)

theorem self (hstep : 0 < step) {n : ℤ} (h : v = n * step) : IsNearestMultiple step v v := by
  refine ⟨n, h, ?_⟩
  rw [sub_self, abs_zero, mul_zero]
  exact ⟨hstep.le, fun hzero => absurd hzero hstep.ne⟩

end IsNearestMultiple

/-- A distance from a number of steps, counted in steps. -/
theorem abs_sub_mul_step {step : ℚ} (hstep : 0 < step) (v n : ℚ) :
    |v - n * step| = |v / step - n| * step := by
  rw [← abs_of_pos hstep, ← abs_mul, abs_of_pos hstep, sub_mul, div_mul_cancel₀ _ hstep.ne']

namespace Decimal

theorem ten_zpow_pos (exponent : Int) : (0 : ℚ) < 10 ^ exponent :=
  zpow_pos (by norm_num) exponent

theorem eq_of_toRat_eq {d e : Decimal} (hexponent : d.exponent = e.exponent)
    (h : d.toRat = e.toRat) : d = e := by
  obtain ⟨coefficient, exponent⟩ := d
  obtain ⟨_, _⟩ := e
  obtain rfl := hexponent
  congr
  exact_mod_cast mul_right_cancel₀ (ten_zpow_pos exponent).ne' h

/-- The quotient in steps of a power of ten. -/
theorem scaled_eq_div (exponent : Int) (num den : Nat) :
    ((num * 10 ^ (-exponent).toNat : Nat) : ℚ) / (den * 10 ^ exponent.toNat : Nat) =
      num / den / 10 ^ exponent := by
  rw [zpow_eq_div]
  push_cast
  rw [div_div_div_eq]

theorem scaled_pos {den : Nat} (hden : 0 < den) (exponent : Int) :
    0 < den * 10 ^ exponent.toNat :=
  Nat.mul_pos hden (Nat.pow_pos (by decide))

variable {num den : Nat} (exponent : Int)

theorem abs_sub_mul_zpow (v n : ℚ) :
    |v - n * 10 ^ exponent| = |v / 10 ^ exponent - n| * 10 ^ exponent :=
  abs_sub_mul_step (ten_zpow_pos exponent) v n

/-- The rounded number is at most half a step from the exact one. -/
theorem abs_sub_toRat_roundAt_le (num : Nat) (hden : 0 < den) :
    2 * |(num : ℚ) / den - (roundAt exponent num den).toRat| ≤ 10 ^ exponent := by
  have hround := abs_sub_roundHalfEven_le (num * 10 ^ (-exponent).toNat) (scaled_pos hden exponent)
  rw [scaled_eq_div] at hround
  rw [toRat, abs_sub_mul_zpow, ← mul_assoc]
  exact (mul_le_mul_of_nonneg_right hround (ten_zpow_pos exponent).le).trans_eq (one_mul _)

theorem even_coefficient_roundAt (num : Nat) (hden : 0 < den)
    (h : 2 * |(num : ℚ) / den - (roundAt exponent num den).toRat| = 10 ^ exponent) :
    (roundAt exponent num den).coefficient % 2 = 0 := by
  apply even_roundHalfEven _ (scaled_pos hden exponent)
  rw [toRat, abs_sub_mul_zpow, ← mul_assoc] at h
  rw [scaled_eq_div]
  exact mul_right_cancel₀ (ten_zpow_pos exponent).ne' (h.trans (one_mul _).symm)

theorem isNearestMultiple_roundAt (num : Nat) (hden : 0 < den) :
    IsNearestMultiple (10 ^ exponent) (num / den) (roundAt exponent num den).toRat := by
  refine ⟨(roundAt exponent num den).coefficient, rfl,
    abs_sub_toRat_roundAt_le exponent num hden, fun hhalf => ?_⟩
  exact_mod_cast Nat.even_iff.mpr (even_coefficient_roundAt exponent num hden hhalf)

theorem roundAt_eq_of_abs_lt {n : Nat} (hden : 0 < den)
    (h : 2 * |(num : ℚ) / den - n * 10 ^ exponent| < 10 ^ exponent) :
    roundAt exponent num den = ⟨n, exponent⟩ := by
  rw [abs_sub_mul_zpow, ← mul_assoc] at h
  have hlt : 2 * |(num : ℚ) / den / 10 ^ exponent - n| < 1 :=
    lt_of_mul_lt_mul_right (h.trans_eq (one_mul _).symm) (ten_zpow_pos exponent).le
  rw [← scaled_eq_div] at hlt
  rw [roundAt, roundHalfEven_eq_of_abs_lt (scaled_pos hden exponent) hlt]

/-- A number that has no digits beyond the step is kept. -/
theorem roundAt_eq_of_eq {n : Nat} (hden : 0 < den) (h : (num : ℚ) / den = n * 10 ^ exponent) :
    roundAt exponent num den = ⟨n, exponent⟩ := by
  apply roundAt_eq_of_abs_lt exponent hden
  rw [h, sub_self, abs_zero, mul_zero]
  exact ten_zpow_pos exponent

theorem zpow_leadingOf_le (hnum : 0 < num) (hden : 0 < den) :
    (10 : ℚ) ^ leadingOf num den ≤ num / den ∧
      (num : ℚ) / den < 10 ^ (leadingOf num den + 1) := by
  obtain ⟨hlower, hupper⟩ := leadingOf_spec hnum hden
  have hscale := scaled_eq_div (leadingOf num den) num den
  have hden' : (0 : ℚ) < (den * 10 ^ (leadingOf num den).toNat : Nat) := by
    exact_mod_cast scaled_pos hden _
  have hpos := ten_zpow_pos (leadingOf num den)
  have hle : 1 ≤ (num : ℚ) / den / 10 ^ leadingOf num den := by
    rw [← hscale, le_div_iff₀ hden', one_mul]
    exact_mod_cast hlower
  have hlt : (num : ℚ) / den / 10 ^ leadingOf num den < 10 := by
    rw [Nat.mul_comm _ 10] at hupper
    rw [← hscale, div_lt_iff₀ hden']
    exact_mod_cast hupper
  rw [le_div_iff₀ hpos, one_mul] at hle
  rw [div_lt_iff₀ hpos, mul_comm] at hlt
  rw [zpow_add₀ (by norm_num), zpow_one]
  exact ⟨hle, hlt⟩

theorem zpow_leading_le {d : Decimal} (h : 0 < d.coefficient) :
    (10 : ℚ) ^ d.leading ≤ d.toRat ∧ d.toRat < 10 ^ (d.leading + 1) := by
  have hcount := digitCount_pos d.coefficient
  have hpos := ten_zpow_pos d.exponent
  have hlower : ((10 : ℚ) ^ (digitCount d.coefficient - 1 : Nat)) ≤ d.coefficient := by
    exact_mod_cast pow_digitCount_le h
  have hupper : (d.coefficient : ℚ) < 10 ^ (digitCount d.coefficient : Nat) := by
    exact_mod_cast lt_pow_digitCount d.coefficient
  have hleading : d.leading = (digitCount d.coefficient - 1 : Nat) + d.exponent := by
    unfold leading
    omega
  have hleading' : d.leading + 1 = (digitCount d.coefficient : Nat) + d.exponent := by
    unfold leading
    omega
  rw [hleading', hleading, zpow_add₀ (by norm_num), zpow_add₀ (by norm_num), zpow_natCast,
    zpow_natCast]
  exact ⟨mul_le_mul_of_nonneg_right hlower hpos.le, mul_lt_mul_of_pos_right hupper hpos⟩

variable {digits : Nat}

theorem coefficient_significant (hdigits : 0 < digits) (hnum : 0 < num) (hden : 0 < den) :
    10 ^ (digits - 1) ≤ (significant digits num den).coefficient ∧
      (significant digits num den).coefficient ≤ 10 ^ digits := by
  obtain ⟨hlower, hupper⟩ := leadingOf_sub_spec hnum hden (digits - 1)
    (show leadingOf num den - digits + 1 = leadingOf num den - (digits - 1 : Nat) by omega)
  rw [Nat.sub_add_cancel hdigits] at hupper
  exact ⟨le_roundHalfEven_of_mul_le (scaled_pos hden _) hlower,
    roundHalfEven_le_of_le_mul (scaled_pos hden _) hupper.le⟩

/-- The leading digit stays where it is, unless rounding carries out of it: then there is a one
before zeros. -/
theorem leading_significant (hdigits : 0 < digits) (hnum : 0 < num) (hden : 0 < den) :
    (significant digits num den).leading = leadingOf num den ∨
      ((significant digits num den).leading = leadingOf num den + 1 ∧
        (significant digits num den).coefficient = 10 ^ digits) := by
  obtain ⟨hlower, hupper⟩ := coefficient_significant hdigits hnum hden
  have hexponent : (significant digits num den).exponent = leadingOf num den - digits + 1 := rfl
  generalize significant digits num den = d at *
  have hcount := lt_pow_digitCount d.coefficient
  unfold leading
  rcases Nat.eq_or_lt_of_le hupper with hcarry | hlt
  · have hle := digitCount_le (Nat.succ_pos digits)
      (hcarry.trans_lt (Nat.pow_lt_pow_right (by decide) (Nat.lt_succ_self digits)))
    rw [hcarry, Nat.pow_lt_pow_iff_right (by decide)] at hcount
    rw [hcarry] at hle
    refine .inr ⟨?_, hcarry⟩
    rw [hexponent, hcarry]
    omega
  · have hle := digitCount_le hdigits hlt
    have hge := (Nat.pow_lt_pow_iff_right (by decide)).mp (hlower.trans_lt hcount)
    left
    omega

/-- Rounding anew where the digits end, when they begin with the leading digit of the rounded
number, gives the same number: after a carry the coarser step has it too. -/
theorem toRat_roundAt_leading (hdigits : 0 < digits) (hnum : 0 < num) (hden : 0 < den) :
    (roundAt ((significant digits num den).leading - digits + 1) num den).toRat =
      (significant digits num den).toRat := by
  rcases leading_significant hdigits hnum hden with hsame | ⟨hcarry, hpower⟩
  · rw [hsame]
    rfl
  · have hnear := abs_sub_toRat_roundAt_le (leadingOf num den - digits + 1) num hden
    have hpos := ten_zpow_pos (leadingOf num den - digits + 1)
    have hstep : (10 : ℚ) ^ (leadingOf num den + 1 - digits + 1) =
        10 * 10 ^ (leadingOf num den - digits + 1) := by
      rw [show leadingOf num den + 1 - digits + 1 = 1 + (leadingOf num den - digits + 1) by ring,
        zpow_add₀ (by norm_num), zpow_one]
    have hrounded : (significant digits num den).toRat =
        (10 ^ (digits - 1) : Nat) * 10 ^ (leadingOf num den + 1 - digits + 1) := by
      obtain ⟨k, rfl⟩ := Nat.exists_eq_add_one.mpr hdigits
      rw [toRat, hpower, hstep, Nat.add_sub_cancel, Nat.pow_succ]
      push_cast
      rw [mul_assoc]
      rfl
    change 2 * |(num : ℚ) / den - (significant digits num den).toRat| ≤ _ at hnear
    rw [hcarry, hrounded]
    rw [hrounded] at hnear
    rw [roundAt_eq_of_abs_lt (n := 10 ^ (digits - 1)) _ hden (by rw [hstep] at hnear ⊢; linarith)]
    rfl

end Decimal

end Reckoner
