import Reckoner.HalfEven
import Reckoner.Binary64.Basic

/-! Rounding an exact value to the nearest binary64 value, ties to an even significand. The
arithmetic and the reading of decimals both end here. -/
namespace Reckoner

namespace Magnitude

/-- The exponent that leaves 53 bits of `num / den`, or the least one. -/
def scale (num den : Nat) : Nat :=
  (num / den).log2 - 52

/-- The magnitude nearest to `num / den` units, or `none` where that is beyond the largest. -/
def ofRatio? (num den : Nat) : Option Magnitude :=
  let exponent := scale num den
  let significand := roundHalfEven num (den * 2 ^ exponent)
  if significand = 2 ^ 53 then ofParts? (2 ^ 52) (exponent + 1)
  else ofParts? significand exponent

end Magnitude

namespace Binary64

/-- The value nearest to `num / den` units with the given sign; infinite beyond the largest. -/
def ofRatio (negative : Bool) (num den : Nat) : Binary64 :=
  match Magnitude.ofRatio? num den with
  | some x => finite negative x
  | none => infinite negative

/-- The value nearest to `digits * 10 ^ exponent`. Beyond the two bounds the nearest value is
known without the power of ten, which keeps the work in proportion to the digits. -/
def ofDecimal (negative : Bool) (digits : Nat) (exponent : Int) : Binary64 :=
  if digits = 0 ∨ exponent < -((digits.log2 : Int) + 330) then zero negative
  else if 310 < exponent then infinite negative
  else match exponent with
    | .ofNat e => ofRatio negative (digits * 10 ^ e * Magnitude.one) 1
    | .negSucc e => ofRatio negative (digits * Magnitude.one) (10 ^ (e + 1))

end Binary64

end Reckoner
