import Reckoner.HalfEven
import Reckoner.Decimal.Basic

/-! Rounding a quotient to a decimal: with a fixed number of places, or with a fixed number of
significant digits. Halves go to the even neighbour. -/
namespace Reckoner.Decimal

/-- The exponent of the leading digit of `num / den`, which is not zero. -/
def leadingOf (num den : Nat) : Int :=
  if den ≤ num then (digitCount (num / den) : Int) - 1
  else -(digitCount ((den - 1) / num) : Int)

/-- The multiple of `10 ^ exponent` nearest to `num / den`. -/
def roundAt (exponent : Int) (num den : Nat) : Decimal where
  coefficient := roundHalfEven (num * 10 ^ (-exponent).toNat) (den * 10 ^ exponent.toNat)
  exponent := exponent

/-- The decimal with `places` digits after the point nearest to `num / den`. -/
def fixed (places num den : Nat) : Decimal :=
  roundAt (-(places : Int)) num den

/-- The decimal with `digits` significant digits nearest to `num / den`, which is not zero. A
carry out of the leading digit leaves a power of ten with one zero more. -/
def significant (digits num den : Nat) : Decimal :=
  roundAt (leadingOf num den - digits + 1) num den

end Reckoner.Decimal
