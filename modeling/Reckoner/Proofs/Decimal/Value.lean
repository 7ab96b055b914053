import Mathlib.Algebra.Order.Field.Power
import Mathlib.Data.Rat.Cast.Order
import Mathlib.Tactic.NormNum
import Mathlib.Tactic.Positivity
import Mathlib.Tactic.Ring
import Reckoner.Decimal.Basic

/-! The rational number that a decimal is. -/
namespace Reckoner.Decimal

def toRat (d : Decimal) : ℚ :=
  d.coefficient * 10 ^ d.exponent

theorem zpow_eq_div (exponent : Int) :
    (10 : ℚ) ^ exponent = 10 ^ exponent.toNat / 10 ^ (-exponent).toNat := by
  cases exponent with
  | ofNat e => simp
  | negSucc e => simp [zpow_negSucc]

theorem toRat_eq_div (d : Decimal) :
    d.toRat = (d.coefficient * 10 ^ d.exponent.toNat : Nat) / (10 ^ (-d.exponent).toNat : Nat) := by
  rw [toRat, zpow_eq_div]
  push_cast
  ring

theorem le_mul_toRat_iff (d : Decimal) (n k : Nat) :
    (n : ℚ) ≤ k * d.toRat ↔
      n * 10 ^ (-d.exponent).toNat ≤ k * (d.coefficient * 10 ^ d.exponent.toNat) := by
  rw [toRat_eq_div, mul_div_assoc', le_div_iff₀ (by positivity)]
  norm_cast

theorem mul_toRat_le_iff (d : Decimal) (n k : Nat) :
    k * d.toRat ≤ n ↔
      k * (d.coefficient * 10 ^ d.exponent.toNat) ≤ n * 10 ^ (-d.exponent).toNat := by
  rw [toRat_eq_div, mul_div_assoc', div_le_iff₀ (by positivity)]
  norm_cast

/-- Zeros at the end of a coefficient are worth as much in the exponent. -/
theorem toRat_mul_pow (coefficient k : Nat) (exponent : Int) :
    toRat ⟨coefficient * 10 ^ k, exponent⟩ = toRat ⟨coefficient, exponent + k⟩ := by
  simp only [toRat]
  push_cast
  rw [zpow_add₀ (by norm_num), zpow_natCast]
  ring

end Reckoner.Decimal
