import Mathlib.Data.Nat.Prime.Basic
import Reckoner.Decimal.Rounded
import Reckoner.Proofs.Binary64.Rounding

/-! Values rounded to ten places. The decimal that such a value has is found again from the value
that is nearest to it, or it is one that the same value is nearest to. -/
namespace Reckoner.Magnitude

attribute [local irreducible] one

/-- How many steps of `10 ^ (-10)` are nearest to the value. -/
def tenthPlaceSteps (x : Magnitude) : Nat :=
  roundHalfEven (x.units * 10 ^ 10) one

theorem coefficient_fixed_ten (x : Magnitude) :
    (Decimal.fixed 10 x.units one).coefficient = x.tenthPlaceSteps := by
  simp [Decimal.fixed, Decimal.roundAt, tenthPlaceSteps]

/-- No step of a binary exponent is as wide as a decimal one. -/
theorem mul_two_pow_ne_one (exponent : Nat) : 10 ^ 10 * 2 ^ exponent ≠ one := by
  have hnot (n : Nat) : ¬ 5 ∣ 2 ^ n := fun h =>
    absurd (Nat.prime_five.dvd_of_dvd_pow h) (by decide)
  intro h
  have hdvd : 5 ∣ one := h ▸ Dvd.dvd.mul_right (show 5 ∣ 10 ^ 10 by decide) _
  unfold one at hdvd
  exact hnot 1074 hdvd

/-- A whole number is kept. -/
theorem nearestUnits_tenthPlaceSteps_of_dvd {x : Magnitude} (h : one ∣ x.units) :
    nearestUnits (x.tenthPlaceSteps * one) (10 ^ 10) = x.units := by
  obtain ⟨n, hn⟩ := h
  have hsteps : x.tenthPlaceSteps * one = 10 ^ 10 * x.units := by
    rw [tenthPlaceSteps, hn, Nat.mul_assoc, roundHalfEven_mul_left _ one_pos]
    ring
  rw [hsteps]
  exact nearestUnits_mul_units (by decide) x

/-- Where the steps of the value are narrower than those of the tenth place, its decimal is the one
that it was rounded from. -/
theorem tenthPlaceSteps_eq {x : Magnitude} {k : Nat}
    (hx : nearestUnits (k * one) (10 ^ 10) = x.units)
    (hfine : 10 ^ 10 * 2 ^ scale (k * one) (10 ^ 10) < one) : x.tenthPlaceSteps = k := by
  have hunit : 0 < 10 ^ 10 * 2 ^ scale (k * one) (10 ^ 10) :=
    Nat.mul_pos (by decide) (Nat.two_pow_pos _)
  have hupper := mul_roundHalfEven_le (k * one) (10 ^ 10 * 2 ^ scale (k * one) (10 ^ 10))
  have hlower := le_mul_roundHalfEven (k * one) hunit
  have hnearest : 10 ^ 10 * 2 ^ scale (k * one) (10 ^ 10) *
      roundHalfEven (k * one) (10 ^ 10 * 2 ^ scale (k * one) (10 ^ 10)) = x.units * 10 ^ 10 := by
    rw [← hx, nearestUnits, nearestSignificand]
    ring
  rw [hnearest] at hupper hlower
  have hcomm := Nat.mul_comm one k
  generalize 10 ^ 10 * 2 ^ scale (k * one) (10 ^ 10) = unit at *
  apply roundHalfEven_eq one_pos
  · omega
  · omega
  · exact .inr (by omega)

/-- A power of two that large is a whole number. -/
theorem gapBelow_of_not_dvd {x : Magnitude} (hwhole : ¬ one ∣ x.units)
    (hcoarse : one < 10 ^ 10 * 2 ^ x.exponent) : x.gapBelow = 2 := by
  rw [gapBelow, if_neg]
  rintro ⟨hnarrow, -⟩
  apply hwhole
  have hexponent : 1074 < 34 + x.exponent := by
    apply (Nat.pow_lt_pow_iff_right (show 1 < 2 by decide)).mp
    calc 2 ^ 1074 < 10 ^ 10 * 2 ^ x.exponent := by unfold one at hcoarse; exact hcoarse
      _ ≤ 2 ^ 34 * 2 ^ x.exponent := Nat.mul_le_mul_right _ (by decide)
      _ = 2 ^ (34 + x.exponent) := (Nat.pow_add ..).symm
  refine ⟨2 ^ (52 + x.exponent - 1074), ?_⟩
  unfold one
  rw [units, hnarrow, ← Nat.pow_add, ← Nat.pow_add, Nat.add_sub_cancel' (by omega)]

/-- Where they are wider, the decimal is nearer to the value than any other value is. -/
theorem nearestUnits_tenthPlaceSteps_of_lt {x : Magnitude} (hwhole : ¬ one ∣ x.units)
    (hcoarse : one < 10 ^ 10 * 2 ^ x.exponent) :
    nearestUnits (x.tenthPlaceSteps * one) (10 ^ 10) = x.units := by
  have hgap := gapBelow_of_not_dvd hwhole hcoarse
  have hsignificand : 0 < x.significand := by
    apply Nat.pos_of_ne_zero
    intro hzero
    exact hwhole (by simp [units, hzero])
  have hunits : 10 ^ 10 * 2 ^ x.exponent * x.significand = x.units * 10 ^ 10 := by
    unfold units
    ring
  have hlower := lowerBound_mul hsignificand (10 ^ 10)
  have hupper := upperBound_mul x (10 ^ 10)
  rw [hunits, hgap] at hlower
  rw [hunits] at hupper
  have hround_le := mul_roundHalfEven_le (x.units * 10 ^ 10) one
  have hround_ge := le_mul_roundHalfEven (x.units * 10 ^ 10) one_pos
  rw [← tenthPlaceSteps, Nat.mul_comm one] at hround_le hround_ge
  apply nearestUnits_of_between (by decide)
  · omega
  · omega
  · exact .inr (by omega)

/-- A value that is nearest to a decimal of ten places is nearest to the one it is written with. -/
theorem nearestUnits_tenthPlaceSteps {x : Magnitude} {k : Nat}
    (hx : nearestUnits (k * one) (10 ^ 10) = x.units) :
    nearestUnits (x.tenthPlaceSteps * one) (10 ^ 10) = x.units := by
  -- which of the two grids is the finer one decides which of the two roundings loses nothing
  rcases Nat.lt_or_gt_of_ne (mul_two_pow_ne_one (scale (k * one) (10 ^ 10))) with hfine | hcoarse
  · rw [tenthPlaceSteps_eq hx hfine, hx]
  · by_cases hwhole : one ∣ x.units
    · exact nearestUnits_tenthPlaceSteps_of_dvd hwhole
    · apply nearestUnits_tenthPlaceSteps_of_lt hwhole
      have hscale := scale_le_exponent (show 0 < 10 ^ 10 by decide) hx
      exact hcoarse.trans_le (Nat.mul_le_mul_left _ (Nat.pow_le_pow_right (by decide) hscale))

end Reckoner.Magnitude
