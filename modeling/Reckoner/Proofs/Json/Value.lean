import Reckoner.Proofs.Json.Stored

/-! The value that is read from a stored number. Its digits and its power of ten are rounded
before their product or quotient is, which never leaves the finite values. -/
namespace Reckoner.Magnitude

attribute [local irreducible] one

theorem one_le_nearestUnits {num : Nat} (h : one ≤ num) : one ≤ nearestUnits num 1 := by
  have hone : nearestUnits one 1 = one := by
    have h := nearestUnits_mul_left Nat.one_pos (show 1 < 2 ^ 53 by decide) 1074
    rwa [show 1 * 2 ^ 1074 = one by unfold one; rw [Nat.one_mul], Nat.one_mul] at h
  calc one = nearestUnits one 1 := hone.symm
    _ ≤ nearestUnits num 1 := nearestUnits_mono Nat.one_pos h

end Reckoner.Magnitude

namespace Reckoner.Binary64

open Magnitude

attribute [local irreducible] Magnitude.one

theorem exists_mul {x y : Magnitude} (h : x.units * y.units ≤ one * largest.units) :
    ∃ z, (finite false x).mul (finite false y) = finite false z ∧
      z.units = nearestUnits (x.units * y.units) one :=
  exists_ofRatio false Magnitude.one_pos (nearestUnits_lt_limit Magnitude.one_pos h)

/-- A quotient by one or more is no larger than the value divided. -/
theorem exists_div (x : Magnitude) {y : Magnitude} (hy : one ≤ y.units) :
    ∃ z, (finite false x).div (finite false y) = finite false z ∧
      z.units = nearestUnits (x.units * one) y.units ∧ z.units ≤ x.units := by
  have hpos : 0 < y.units := Nat.lt_of_lt_of_le Magnitude.one_pos hy
  have hle : nearestUnits (x.units * one) y.units ≤ x.units := by
    apply nearestUnits_le hpos
    rw [Nat.mul_comm]
    exact Nat.mul_le_mul_right _ hy
  obtain ⟨z, hz, hunits⟩ := exists_ofRatio false hpos (Nat.lt_of_le_of_lt hle x.units_lt_limit)
  refine ⟨z, ?_, hunits, hunits ▸ hle⟩
  change (if y.isZero then _ else ofRatio false (x.units * one) y.units) = _
  rw [if_neg (by rw [isZero_iff]; omega)]
  exact hz

end Reckoner.Binary64

namespace Reckoner.Decimal

/-- The digits and the power of ten are rounded apart, and then their product or quotient. Below
`10 ^ (-308)` the quotient is taken in two steps. -/
def roundedApart (d : Decimal) : Binary64 :=
  let significand := Json.Number.ofNat d.coefficient
  if 0 ≤ d.exponent then significand.mul (Json.Number.powerOfTen d.exponent.toNat)
  else if -308 ≤ d.exponent then significand.div (Json.Number.powerOfTen (-d.exponent).toNat)
  else
    (significand.div (Json.Number.powerOfTen 308)).div
      (Json.Number.powerOfTen (-d.exponent - 308).toNat)

end Reckoner.Decimal

namespace Reckoner.Json.Number

open Binary64 Magnitude

attribute [local irreducible] Magnitude.one

theorem exists_ofNat {n : Nat} (h : n ≤ 10 ^ 17) :
    ∃ x, ofNat n = finite false x ∧ x.units = nearestUnits (n * one) 1 := by
  have hdecimal := ofDecimal_natCast false n (show 0 ≤ 310 by decide)
  rw [Nat.pow_zero, Nat.mul_one] at hdecimal
  unfold ofNat
  rw [show (0 : Int) = (0 : Nat) from rfl, hdecimal]
  apply exists_ofRatio false Nat.one_pos
  apply nearestUnits_lt_limit Nat.one_pos
  calc n * one ≤ 10 ^ 17 * one := Nat.mul_le_mul_right _ h
    _ ≤ 1 * largest.units := by decide +kernel

theorem exists_powerOfTen {n : Nat} (h : n ≤ maxPower) :
    ∃ x, powerOfTen n = finite false x ∧ x.units = nearestUnits (10 ^ n * one) 1 ∧
      one ≤ x.units := by
  have hdecimal := ofDecimal_natCast false 1 (show n ≤ 310 by unfold maxPower at h; omega)
  rw [Nat.one_mul] at hdecimal
  unfold powerOfTen
  rw [hdecimal]
  have hfits : nearestUnits (10 ^ n * one) 1 < unitsLimit := by
    apply nearestUnits_lt_limit Nat.one_pos
    calc 10 ^ n * one ≤ 10 ^ maxPower * one :=
          Nat.mul_le_mul_right _ (Nat.pow_le_pow_right (by decide) h)
      _ ≤ 1 * largest.units := by decide +kernel
  obtain ⟨x, hx, hunits⟩ := exists_ofRatio false Nat.one_pos hfits
  refine ⟨x, hx, hunits, ?_⟩
  rw [hunits]
  exact one_le_nearestUnits (Nat.le_mul_of_pos_left _ (Nat.pow_pos (by decide)))

theorem nearestUnits_mul_one {n : Nat} (h : n < 2 ^ 53) : nearestUnits (n * one) 1 = n * one := by
  have hexact := nearestUnits_mul_left Nat.one_pos h 1074
  rwa [Nat.one_mul, show n * 2 ^ 1074 = n * one by unfold one; rfl] at hexact

theorem nearestUnits_pow_mul_one {n : Nat} (h : n ≤ 22) :
    nearestUnits (10 ^ n * one) 1 = 10 ^ n * one := by
  have hpow : 5 ^ n < 2 ^ 53 :=
    Nat.lt_of_le_of_lt (Nat.pow_le_pow_right (by decide) h) (by decide)
  have hsplit : 10 ^ n * one = 5 ^ n * 2 ^ (n + 1074) := by
    rw [Nat.pow_add, ← Nat.mul_assoc, ← Nat.mul_pow]
    unfold one
    rfl
  rw [hsplit]
  have hexact := nearestUnits_mul_left Nat.one_pos hpow (n + 1074)
  simpa only [Nat.one_mul] using hexact

/-- Digits with a negative exponent stay finite. -/
theorem exists_roundedApart_of_neg {d : Decimal} (hcoefficient : d.coefficient ≤ 10 ^ 17)
    (hlower : -616 ≤ d.exponent) (hneg : d.exponent < 0) :
    ∃ x, d.roundedApart = finite false x := by
  obtain ⟨significand, hsignificand, -⟩ := exists_ofNat hcoefficient
  unfold Decimal.roundedApart
  rw [if_neg (by omega), hsignificand]
  split
  next =>
    obtain ⟨power, hpower, -, hone⟩ :=
      exists_powerOfTen (show (-d.exponent).toNat ≤ maxPower by unfold maxPower; omega)
    obtain ⟨x, hx, -⟩ := exists_div significand hone
    exact ⟨x, by rw [hpower, hx]⟩
  next =>
    obtain ⟨power, hpower, -, hone⟩ := exists_powerOfTen (show 308 ≤ maxPower by decide)
    obtain ⟨power', hpower', -, hone'⟩ :=
      exists_powerOfTen (show (-d.exponent - 308).toNat ≤ maxPower by unfold maxPower; omega)
    obtain ⟨x, hx, -⟩ := exists_div significand hone
    obtain ⟨y, hy, -⟩ := exists_div x hone'
    exact ⟨y, by rw [hpower, hx, hpower', hy]⟩

/-- A significand of up to 53 bits and a power of ten up to `10 ^ 22` are not rounded, so that the
one rounding left gives the nearest value. -/
theorem roundedApart_of_exact {d : Decimal} {x : Magnitude} (hx : x.identifiedBy d)
    (hcoefficient : d.coefficient < 2 ^ 53) (hexponent : d.exponent.natAbs ≤ 22) :
    d.roundedApart = finite false x := by
  obtain ⟨significand, hsignificand, hunits⟩ :=
    exists_ofNat (show d.coefficient ≤ 10 ^ 17 by omega)
  obtain ⟨power, hpower, hunits', hone⟩ :=
    exists_powerOfTen (show d.exponent.natAbs ≤ maxPower by unfold maxPower; omega)
  rw [nearestUnits_mul_one hcoefficient] at hunits
  rw [nearestUnits_pow_mul_one hexponent] at hunits'
  have hnearest := nearestUnits_of_identifiedBy hx Magnitude.one_pos
  unfold Decimal.roundedApart
  split
  next hnonneg =>
    rw [hsignificand, show d.exponent.toNat = d.exponent.natAbs by omega, hpower]
    apply ofRatio_eq false Magnitude.one_pos
    rw [hunits, hunits', ← hnearest, show (-d.exponent).toNat = 0 by omega,
      show d.exponent.toNat = d.exponent.natAbs by omega]
    congr 1 <;> ring
  next hneg =>
    have hpos : 0 < power.units := Nat.lt_of_lt_of_le Magnitude.one_pos hone
    rw [if_pos (by omega), hsignificand, show (-d.exponent).toNat = d.exponent.natAbs by omega,
      hpower]
    change (if power.isZero then _ else ofRatio false _ _) = _
    rw [if_neg (by rw [isZero_iff]; omega)]
    apply ofRatio_eq false hpos
    rw [hunits, hunits', ← hnearest, show (-d.exponent).toNat = d.exponent.natAbs by omega,
      show d.exponent.toNat = 0 by omega]
    congr 1
    ring

/-- Far downwards there are two steps, of which the first is the greatest. Zero stays zero, so
that it does not matter that it is left alone. -/
theorem scaled?_of_lt {significand : Magnitude} {steps : Nat} {exponent : Int}
    (hlower : -616 ≤ exponent) (hlt : exponent < -308) :
    scaled? (steps + 1) (finite false significand) exponent =
      some (((finite false significand).div (powerOfTen 308)).div
        (powerOfTen (-exponent - 308).toNat)) := by
  obtain ⟨power, hpower, -, hone⟩ := exists_powerOfTen (show 308 ≤ maxPower by decide)
  obtain ⟨power', hpower', -, hone'⟩ :=
    exists_powerOfTen (show (-exponent - 308).toNat ≤ maxPower by unfold maxPower; omega)
  obtain ⟨y, hy, -, hle⟩ := exists_div significand hone
  obtain ⟨z, hz, -, hle'⟩ := exists_div y hone'
  unfold scaled?
  rw [if_neg (by unfold maxPower; omega), hpower, hy, hpower', hz]
  split
  next hzero =>
    have hunits : significand.units = 0 := isZero_iff.mp hzero
    rw [units_injective (show significand.units = z.units by omega)]
  next =>
    simp only [show maxPower = 308 from rfl, hpower, hy]
    unfold scaled?
    rw [if_neg (by omega), if_pos (by unfold maxPower; omega), if_neg (by omega),
      show (exponent + (308 : Nat)).natAbs = (-exponent - 308).toNat by omega, hpower', hz]

/-- Scaling in steps is rounding apart, as long as it stays finite. -/
theorem scaled?_eq {d : Decimal} {x : Magnitude} (hcoefficient : d.coefficient ≤ 10 ^ 17)
    (hlower : -616 ≤ d.exponent) (hupper : d.exponent ≤ 308)
    (hx : d.roundedApart = finite false x) :
    scaled? (d.exponent.natAbs / maxPower) (ofNat d.coefficient) d.exponent =
      some (finite false x) := by
  unfold Decimal.roundedApart at hx
  simp only at hx
  split at hx
  next hnonneg =>
    unfold scaled?
    rw [if_pos (by unfold maxPower; omega), if_pos hnonneg,
      show d.exponent.natAbs = d.exponent.toNat by omega]
    simp [hx, isFinite]
  split at hx
  next hneg hsmall =>
    unfold scaled?
    rw [if_pos (by unfold maxPower; omega), if_neg hneg,
      show d.exponent.natAbs = (-d.exponent).toNat by omega, hx]
  next hneg hlarge =>
    obtain ⟨significand, hsignificand, -⟩ := exists_ofNat hcoefficient
    obtain ⟨steps, hsteps⟩ : ∃ steps, d.exponent.natAbs / maxPower = steps + 1 :=
      Nat.exists_eq_add_one.mpr (Nat.div_pos (by unfold maxPower; omega) (by decide))
    rw [hsignificand] at hx
    rw [hsteps, hsignificand, scaled?_of_lt hlower (by omega), hx]

end Reckoner.Json.Number

namespace Reckoner.Magnitude

open Binary64 Json.Number

attribute [local irreducible] one

/-- The decimal that stands in a file for a value. -/
def storedDecimal (x : Magnitude) : Decimal :=
  (ofDecimal false (x.shortest .toEven)).decimal

theorem identifiedBy_storedDecimal (x : Magnitude) : x.identifiedBy x.storedDecimal :=
  identifiedBy_congr (toRat_decimal_ofDecimal false _).symm (identifiedBy_shortest .toEven x)

theorem coefficient_storedDecimal_le (x : Magnitude) : x.storedDecimal.coefficient ≤ 10 ^ 17 :=
  coefficient_decimal_ofDecimal_le false (coefficient_shortest_le .toEven x)

theorem le_exponent_storedDecimal (x : Magnitude) : -340 ≤ x.storedDecimal.exponent := by
  have := le_exponent_decimal_ofDecimal false (x.shortest .toEven)
  have := le_exponent_shortest .toEven x
  unfold storedDecimal
  omega

/-- The values of stored decimals without a fraction are bounded like those they stand for. -/
theorem storedDecimal_mul_le (x : Magnitude) (h : 0 ≤ x.storedDecimal.exponent) :
    4 * (x.storedDecimal.coefficient * 10 ^ x.storedDecimal.exponent.toNat * one) ≤
      x.upperBound := by
  have hupper := (identifiedBy_iff.mp x.identifiedBy_storedDecimal).2.1
  rwa [show (-x.storedDecimal.exponent).toNat = 0 by omega, Nat.pow_zero, Nat.mul_one] at hupper

theorem coefficient_storedDecimal_pos {x : Magnitude} (hx : ¬ x.isZero) :
    0 < x.storedDecimal.coefficient := by
  have hlower := (identifiedBy_iff.mp x.identifiedBy_storedDecimal).1
  have hsignificand : 0 < x.significand := Nat.pos_of_mul_pos_right (units_pos hx)
  have hgap := x.gapBelow_le
  have hpos : 0 < x.lowerBound * 10 ^ (-x.storedDecimal.exponent).toNat := by
    rw [lowerBound_eq]
    exact Nat.mul_pos (Nat.mul_pos (by omega) (Nat.two_pow_pos _)) (Nat.pow_pos (by decide))
  by_contra hzero
  rw [show x.storedDecimal.coefficient = 0 by omega, Nat.zero_mul, Nat.zero_mul] at hlower
  omega

theorem exponent_storedDecimal_le (x : Magnitude) : x.storedDecimal.exponent ≤ 308 := by
  by_cases hx : x.isZero
  · rw [show x = zero from units_injective (isZero_iff.mp hx)]
    decide +kernel
  by_contra hlarge
  have hexponent : 309 ≤ x.storedDecimal.exponent.toNat := by omega
  apply absurd (x.storedDecimal_mul_le (by omega))
  apply Nat.not_le_of_lt
  calc x.upperBound ≤ 2 ^ 55 * 2 ^ 2045 :=
        Nat.mul_le_mul (by have := x.significand_lt; omega)
          (Nat.pow_le_pow_right (by decide) x.exponent_le)
    _ < 4 * (10 ^ 309 * one) := by decide +kernel
    _ ≤ 4 * (x.storedDecimal.coefficient * 10 ^ x.storedDecimal.exponent.toNat * one) := by
        gcongr
        apply le_mul_of_one_le_of_le (coefficient_storedDecimal_pos hx)
        gcongr
        decide

/-- The upper bound of the magnitude below the largest. -/
def upperBoundBelowLargest : Nat :=
  (4 * (2 ^ 53 - 1) - 2) * 2 ^ 2045

theorem upperBound_le {x : Magnitude} (hx : x ≠ largest) :
    x.upperBound ≤ upperBoundBelowLargest := by
  obtain ⟨significand, exponent, hsignificand, hnormal, hexponent⟩ := x
  rcases Nat.eq_or_lt_of_le hexponent with rfl | hlt
  · have hne : significand ≠ 2 ^ 53 - 1 := by
      rintro rfl
      exact hx rfl
    unfold upperBound upperBoundBelowLargest
    gcongr
    simp only
    omega
  · calc (4 * significand + 2) * 2 ^ exponent
        ≤ (4 * (2 ^ 53 - 1) + 2) * 2 ^ 2044 :=
          Nat.mul_le_mul (by omega) (Nat.pow_le_pow_right (by decide) (by omega))
      _ ≤ upperBoundBelowLargest := by decide +kernel

end Reckoner.Magnitude

namespace Reckoner.Json.Number

open Binary64 Magnitude

attribute [local irreducible] Magnitude.one

/-- Below the largest value the product of what has been rounded still is finite. The powers of
ten near the largest are tried one by one. -/
theorem nearestUnits_mul_le {coefficient exponent : Nat} (hcoefficient : coefficient ≤ 10 ^ 17)
    (hexponent : exponent ≤ 308)
    (h : 4 * (coefficient * 10 ^ exponent * one) ≤ upperBoundBelowLargest) :
    nearestUnits (coefficient * one) 1 * nearestUnits (10 ^ exponent * one) 1 ≤
      one * largest.units := by
  rcases Nat.lt_or_ge exponent 292 with hsmall | hlarge
  · calc nearestUnits (coefficient * one) 1 * nearestUnits (10 ^ exponent * one) 1
        ≤ nearestUnits (10 ^ 17 * one) 1 * nearestUnits (10 ^ 291 * one) 1 :=
          Nat.mul_le_mul
            (nearestUnits_mono Nat.one_pos (Nat.mul_le_mul_right _ hcoefficient))
            (nearestUnits_mono Nat.one_pos
              (Nat.mul_le_mul_right _ (Nat.pow_le_pow_right (by decide) (by omega))))
      _ ≤ one * largest.units := by decide +kernel
  · have htable : ∀ e < 17,
        nearestUnits (upperBoundBelowLargest / (4 * (10 ^ (292 + e) * one)) * one) 1 *
          nearestUnits (10 ^ (292 + e) * one) 1 ≤ one * largest.units := by decide +kernel
    obtain ⟨e, rfl⟩ := Nat.exists_eq_add_of_le hlarge
    have hle : coefficient ≤ upperBoundBelowLargest / (4 * (10 ^ (292 + e) * one)) := by
      rw [Nat.le_div_iff_mul_le
        (Nat.mul_pos (by decide) (Nat.mul_pos (Nat.pow_pos (by decide)) Magnitude.one_pos))]
      calc coefficient * (4 * (10 ^ (292 + e) * one))
          = 4 * (coefficient * 10 ^ (292 + e) * one) := by
            rw [Nat.mul_left_comm, Nat.mul_assoc]
        _ ≤ upperBoundBelowLargest := h
    calc nearestUnits (coefficient * one) 1 * nearestUnits (10 ^ (292 + e) * one) 1
        ≤ nearestUnits (upperBoundBelowLargest / (4 * (10 ^ (292 + e) * one)) * one) 1 *
            nearestUnits (10 ^ (292 + e) * one) 1 :=
          Nat.mul_le_mul_right _
            (nearestUnits_mono Nat.one_pos (Nat.mul_le_mul_right _ hle))
      _ ≤ one * largest.units := htable e (by omega)

theorem exists_roundedApart_storedDecimal (x : Magnitude) :
    ∃ y, x.storedDecimal.roundedApart = finite false y := by
  have hlower := x.le_exponent_storedDecimal
  have hupper := x.exponent_storedDecimal_le
  rcases lt_or_ge x.storedDecimal.exponent 0 with hneg | hnonneg
  · exact exists_roundedApart_of_neg x.coefficient_storedDecimal_le (by omega) hneg
  obtain ⟨significand, hsignificand, hunits⟩ := exists_ofNat x.coefficient_storedDecimal_le
  obtain ⟨power, hpower, hunits', -⟩ :=
    exists_powerOfTen (show x.storedDecimal.exponent.toNat ≤ maxPower by unfold maxPower; omega)
  have hproduct : significand.units * power.units ≤ one * largest.units := by
    rw [hunits, hunits']
    by_cases hx : x = largest
    · subst hx
      decide +kernel
    · exact nearestUnits_mul_le x.coefficient_storedDecimal_le (by omega)
        ((x.storedDecimal_mul_le hnonneg).trans (upperBound_le hx))
  obtain ⟨y, hy, -⟩ := exists_mul hproduct
  refine ⟨y, ?_⟩
  unfold Decimal.roundedApart
  rw [if_pos hnonneg, hsignificand, hpower]
  exact hy

theorem decimal_ofDecimal (negative : Bool) (d : Decimal) :
    (ofDecimal negative d).decimal = (ofDecimal false d).decimal := by
  unfold ofDecimal
  split <;> rfl

theorem value?_ofDecimal (negative : Bool) (x : Magnitude) :
    (ofDecimal negative (x.shortest .toEven)).value? =
      some (if negative then x.storedDecimal.roundedApart.neg
        else x.storedDecimal.roundedApart) := by
  have hdecimal : (ofDecimal negative (x.shortest .toEven)).decimal = x.storedDecimal :=
    decimal_ofDecimal negative _
  have hcoefficient := x.coefficient_storedDecimal_le
  have hlower := x.le_exponent_storedDecimal
  obtain ⟨y, hy⟩ := exists_roundedApart_storedDecimal x
  rw [value?_eq, hdecimal, negative_ofDecimal,
    scaled?_eq hcoefficient (by omega) x.exponent_storedDecimal_le hy, hy]
  · rfl
  · rw [hdecimal]
    exact Nat.lt_of_le_of_lt hcoefficient (by decide)

end Reckoner.Json.Number
