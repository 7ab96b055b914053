import Reckoner.Binary64.Basic
import Reckoner.Decimal.Rounded

/-! The fewest decimal digits that identify a binary64 value among all binary64 values, and the
styles in which such digits are written out. -/
namespace Reckoner

namespace Magnitude

/-- The least real that rounds to `x`, in quarters of a unit. Below a power of two the
neighbours are half as far apart. -/
def lowerBound (x : Magnitude) : Nat :=
  if x.significand = 2 ^ 52 ∧ 0 < x.exponent then (4 * x.significand - 1) * 2 ^ x.exponent
  else (4 * x.significand - 2) * 2 ^ x.exponent

/-- The greatest real that rounds to `x`, in quarters of a unit. -/
def upperBound (x : Magnitude) : Nat :=
  (4 * x.significand + 2) * 2 ^ x.exponent

/-- Whether `d` lies between the bounds. The bounds themselves round to an even significand. -/
def identifiedBy (x : Magnitude) (d : Decimal) : Bool :=
  let value := 4 * d.coefficient * 10 ^ d.exponent.toNat * one
  let scale := 10 ^ (-d.exponent).toNat
  if x.significand % 2 = 0 then
    decide (x.lowerBound * scale ≤ value ∧ value ≤ x.upperBound * scale)
  else
    decide (x.lowerBound * scale < value ∧ value < x.upperBound * scale)

/-- Which of two equally near decimals is written. -/
inductive Tie where
  | toEven
  | up
deriving DecidableEq

/-- The decimal on the grid of `10 ^ exponent` that identifies `x`; of two the nearer. -/
def onGrid? (tie : Tie) (x : Magnitude) (exponent : Int) : Option Decimal :=
  let num := x.units * 10 ^ (-exponent).toNat
  let den := one * 10 ^ exponent.toNat
  let below : Decimal := ⟨num / den, exponent⟩
  let above : Decimal := ⟨num / den + 1, exponent⟩
  let nearer : Decimal :=
    match tie with
    | .toEven => ⟨roundHalfEven num den, exponent⟩
    | .up => if 2 * (num % den) < den then below else above
  match x.identifiedBy below, x.identifiedBy above with
  | true, true => some nearer
  | true, false => some below
  | false, true => some above
  | false, false => none

/-- The decimal of fewest digits that identifies `x`, at most 17 of them; of those the nearest. -/
def shortest (tie : Tie) (x : Magnitude) : Decimal :=
  if x.isZero then ⟨0, 0⟩
  else
    let leading := Decimal.leadingOf x.units one
    ((List.range 17).findSome? fun (n : Nat) => onGrid? tie x (leading - n)).getD
      (Decimal.significant 17 x.units one)

end Magnitude

structure DigitStyle where
  tie : Magnitude.Tie
  /-- Leading exponents that are written positionally. -/
  isPositional : Int → Bool
  /-- Whether a whole number gets a zero after its point. -/
  pointZero : Bool
  plusSign : Bool

namespace DigitStyle

/-- The digits of `x` in this style, without a sign. -/
def render (style : DigitStyle) (x : Magnitude) : List Char :=
  let d := x.shortest style.tie
  if style.isPositional d.leading then
    if style.pointZero && (fractionText d.fraction).isEmpty then d.positional ++ ['.', '0']
    else d.positional
  else
    let sign := if d.leading < 0 then ['-'] else if style.plusSign then ['+'] else []
    d.mantissa ++ 'e' :: sign ++ Nat.toDigits 10 d.leading.natAbs

/-- Plain digits however long, as in a literal. -/
def literal : DigitStyle where
  tie := .up
  isPositional := fun _ => true
  pointZero := false
  plusSign := false

/-- The form in which a value is searched for: an exponent from `10 ^ 16` on and below
`10 ^ (-4)`. -/
def searched : DigitStyle where
  tie := .up
  isPositional := fun e => decide (-4 ≤ e ∧ e < 16)
  pointZero := true
  plusSign := false

/-- The form in which a value is stored in a file: an exponent from `10 ^ 16` on and below
`10 ^ (-5)`, with its sign. -/
def stored : DigitStyle where
  tie := .toEven
  isPositional := fun e => decide (-5 ≤ e ∧ e < 16)
  pointZero := true
  plusSign := true

/-- A value in this style; infinities and NaN have names. -/
def write (style : DigitStyle) : Binary64 → List Char
  | .nan => "NaN".toList
  | .infinite negative => if negative then "-inf".toList else "inf".toList
  | .finite negative x => if negative then '-' :: style.render x else style.render x

end DigitStyle

end Reckoner
