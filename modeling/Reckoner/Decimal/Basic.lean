import Reckoner.Power

/-! Exact decimals and their two written forms, positional and scientific. -/
namespace Reckoner

/-- The decimal `coefficient * 10 ^ exponent`. -/
structure Decimal where
  coefficient : Nat
  exponent : Int
deriving DecidableEq

def digitCount (n : Nat) : Nat :=
  (Nat.toDigits 10 n).length

/-- The digits of `n` with zeros before them up to `width`. -/
def paddedDigits (width n : Nat) : List Char :=
  (Nat.toDigits 10 n).leftpad width '0'

/-- A list of digits without the zeros at its end. -/
def dropTrailingZeros (digits : List Char) : List Char :=
  (digits.reverse.dropWhile (· == '0')).reverse

/-- Digits after a point, without zeros at the end; no point where no digit is left. -/
def fractionText (digits : List Char) : List Char :=
  match dropTrailingZeros digits with
  | [] => []
  | digit :: rest => '.' :: digit :: rest

namespace Decimal

def leading (d : Decimal) : Int :=
  d.exponent + digitCount d.coefficient - 1

def whole (d : Decimal) : Nat :=
  d.coefficient * 10 ^ d.exponent.toNat / 10 ^ (-d.exponent).toNat

/-- The digits after the point, as many as the exponent asks for. -/
def fraction (d : Decimal) : List Char :=
  let places := (-d.exponent).toNat
  paddedDigits places (d.coefficient * 10 ^ d.exponent.toNat % 10 ^ places)

def positional (d : Decimal) : List Char :=
  Nat.toDigits 10 d.whole ++ fractionText d.fraction

/-- One digit before the point and the rest behind it; the exponent is the leading one. -/
def mantissa (d : Decimal) : List Char :=
  match Nat.toDigits 10 d.coefficient with
  | [] => []
  | digit :: rest => digit :: fractionText rest

end Decimal

end Reckoner
