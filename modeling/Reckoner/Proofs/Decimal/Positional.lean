import Reckoner.Proofs.Decimal.Digits
import Reckoner.Proofs.Decimal.Value

/-! The digits of a decimal before and after its point, and what they are worth. -/
namespace Reckoner.Decimal

theorem fraction_of_nonneg {d : Decimal} (h : 0 ≤ d.exponent) : d.fraction = ['0'] := by
  unfold fraction
  rw [show (-d.exponent).toNat = 0 by omega]
  simp only [Nat.pow_zero, Nat.mod_one]
  decide

theorem whole_of_nonneg {d : Decimal} (h : 0 ≤ d.exponent) :
    d.whole = d.coefficient * 10 ^ d.exponent.toNat := by
  unfold whole
  rw [show (-d.exponent).toNat = 0 by omega, Nat.pow_zero, Nat.div_one]

theorem whole_of_neg {d : Decimal} (h : d.exponent < 0) :
    d.whole = d.coefficient / 10 ^ (-d.exponent).toNat := by
  unfold whole
  rw [show d.exponent.toNat = 0 by omega, Nat.pow_zero, Nat.mul_one]

theorem fraction_of_neg {d : Decimal} (h : d.exponent < 0) :
    d.fraction = paddedDigits (-d.exponent).toNat
      (d.coefficient % 10 ^ (-d.exponent).toNat) := by
  unfold fraction
  rw [show d.exponent.toNat = 0 by omega, Nat.pow_zero, Nat.mul_one]

theorem length_fraction_of_neg {d : Decimal} (h : d.exponent < 0) :
    d.fraction.length = (-d.exponent).toNat := by
  rw [fraction_of_neg h]
  exact length_paddedDigits (by omega) (Nat.mod_lt _ (Nat.pow_pos (by decide)))

/-- The digits on both sides of the point are those of the coefficient. -/
theorem ofDigitChars_positional_of_neg {d : Decimal} (h : d.exponent < 0) :
    Nat.ofDigitChars 10 (Nat.toDigits 10 d.whole ++ d.fraction) 0 = d.coefficient := by
  rw [Nat.ofDigitChars_append, Nat.ofDigitChars_ten_toDigits,
    Nat.ofDigitChars_eq_ofDigitChars_zero, length_fraction_of_neg h, fraction_of_neg h,
    ofDigitChars_paddedDigits, whole_of_neg h]
  exact Nat.div_add_mod _ _

theorem isDigit_of_mem_fraction (d : Decimal) : ∀ c ∈ d.fraction, c.isDigit :=
  fun _ hc => isDigit_of_mem_paddedDigits hc

/-- The decimal has no more digits before its point than up to its leading one. -/
theorem whole_lt {d : Decimal} {n : Nat} (h : d.leading < n) : d.whole < 10 ^ n := by
  have hcoefficient := lt_pow_digitCount d.coefficient
  unfold leading at h
  rcases Int.lt_or_le d.exponent 0 with hneg | hnonneg
  · rw [whole_of_neg hneg, Nat.div_lt_iff_lt_mul (Nat.pow_pos (by decide)), ← Nat.pow_add]
    exact Nat.lt_of_lt_of_le hcoefficient (Nat.pow_le_pow_right (by decide) (by omega))
  · rw [whole_of_nonneg hnonneg]
    calc d.coefficient * 10 ^ d.exponent.toNat
        < 10 ^ digitCount d.coefficient * 10 ^ d.exponent.toNat :=
          Nat.mul_lt_mul_of_pos_right hcoefficient (Nat.pow_pos (by decide))
      _ = 10 ^ (digitCount d.coefficient + d.exponent.toNat) := (Nat.pow_add ..).symm
      _ ≤ 10 ^ n := Nat.pow_le_pow_right (by decide) (by omega)

/-- A fraction that ends in zeros is worth as much without them. -/
theorem toRat_dropTrailingZeros (whole digits : List Char) (exponent : Int) :
    toRat ⟨Nat.ofDigitChars 10 (whole ++ dropTrailingZeros digits) 0,
        exponent - (dropTrailingZeros digits).length⟩ =
      toRat ⟨Nat.ofDigitChars 10 (whole ++ digits) 0, exponent - digits.length⟩ := by
  obtain ⟨k, hk⟩ := exists_dropTrailingZeros_append digits
  have hlength := congrArg List.length hk
  rw [List.length_append, List.length_replicate] at hlength
  conv_rhs => rw [hk, ← List.append_assoc, ofDigitChars_append_replicate_zero, ← hk]
  rw [toRat_mul_pow, hlength]
  congr 2
  push_cast
  omega

/-- The digits on both sides of the point are worth the decimal. -/
theorem toRat_whole_fraction (d : Decimal) :
    toRat ⟨Nat.ofDigitChars 10 (Nat.toDigits 10 d.whole ++ d.fraction) 0,
      0 - d.fraction.length⟩ = d.toRat := by
  rcases Int.lt_or_le d.exponent 0 with hneg | hnonneg
  · rw [ofDigitChars_positional_of_neg hneg, length_fraction_of_neg hneg,
      show (0 : Int) - (-d.exponent).toNat = d.exponent by omega]
  · rw [fraction_of_nonneg hnonneg, whole_of_nonneg hnonneg, ← toRat_dropTrailingZeros,
      show dropTrailingZeros ['0'] = [] by decide, List.append_nil,
      Nat.ofDigitChars_ten_toDigits, toRat_mul_pow]
    congr 2
    simp
    omega

/-- The digits of the coefficient, with the point after the first of them, are worth the decimal
together with the leading exponent. -/
theorem toRat_leading (d : Decimal) :
    toRat ⟨d.coefficient, d.leading - (digitCount d.coefficient - 1 : Nat)⟩ = d.toRat := by
  have hcount := digitCount_pos d.coefficient
  congr 2
  unfold leading
  omega

end Reckoner.Decimal
