import Reckoner.Power

/-! Binary floating point with 53 significant bits, as exact data. Every finite value is a
whole number of units of `2 ^ (-1074)`, and each value has one form, so that equality of data
is equality of bits (all NaNs are one). -/
namespace Reckoner

/-- The size of a finite value, `significand * 2 ^ exponent` units. A significand of fewer than
53 bits goes with the least exponent only. -/
structure Magnitude where
  significand : Nat
  exponent : Nat
  significand_lt : significand < 2 ^ 53
  normal : exponent = 0 ∨ 2 ^ 52 ≤ significand
  exponent_le : exponent ≤ 2045
deriving DecidableEq

inductive Binary64 where
  | nan
  | infinite (negative : Bool)
  | finite (negative : Bool) (magnitude : Magnitude)
deriving DecidableEq

namespace Magnitude

/-- How many units make one. -/
def one : Nat := 2 ^ 1074

def units (x : Magnitude) : Nat :=
  x.significand * 2 ^ x.exponent

def zero : Magnitude where
  significand := 0
  exponent := 0
  significand_lt := by decide
  normal := .inl rfl
  exponent_le := by decide

def isZero (x : Magnitude) : Bool :=
  x.significand == 0

/-- The magnitude with these parts, if they are in the one form a value has. -/
def ofParts? (significand exponent : Nat) : Option Magnitude :=
  if h : significand < 2 ^ 53 ∧ (exponent = 0 ∨ 2 ^ 52 ≤ significand) ∧ exponent ≤ 2045 then
    some ⟨significand, exponent, h.1, h.2.1, h.2.2⟩
  else none

theorem isZero_iff {x : Magnitude} : x.isZero ↔ x.units = 0 := by
  rw [isZero, beq_iff_eq, units, Nat.mul_eq_zero,
    or_iff_left (Nat.ne_of_gt (Nat.two_pow_pos _))]

end Magnitude

namespace Binary64

def zero (negative : Bool) : Binary64 :=
  finite negative .zero

def isFinite : Binary64 → Bool
  | finite _ _ => true
  | _ => false

def isInfinite : Binary64 → Bool
  | infinite _ => true
  | _ => false

def isZero : Binary64 → Bool
  | finite _ x => x.isZero
  | _ => false

/-- The sign bit; the one NaN has none. -/
def isNegative : Binary64 → Bool
  | nan => false
  | infinite negative => negative
  | finite negative _ => negative

def neg : Binary64 → Binary64
  | nan => nan
  | infinite negative => infinite !negative
  | finite negative x => finite (!negative) x

/-- The interchange format: a sign bit, 11 exponent bits and 52 significand bits. The one NaN
is written with the quiet bit. -/
def toBits : Binary64 → Nat
  | nan => 2047 * 2 ^ 52 + 2 ^ 51
  | infinite negative => negative.toNat * 2 ^ 63 + 2047 * 2 ^ 52
  | finite negative x => negative.toNat * 2 ^ 63 + x.exponent * 2 ^ 52 + x.significand

/-- The value whose interchange format is the low 64 bits of `bits`. -/
def ofBits (bits : Nat) : Binary64 :=
  let negative := bits.testBit 63
  let field := bits / 2 ^ 52 % 2 ^ 11
  let fraction := bits % 2 ^ 52
  if field = 2047 then
    if fraction = 0 then infinite negative else nan
  else
    let parts := if field = 0 then (fraction, 0) else (2 ^ 52 + fraction, field - 1)
    match Magnitude.ofParts? parts.1 parts.2 with
    | some x => finite negative x
    | none => nan

end Binary64

end Reckoner
