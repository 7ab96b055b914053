import Reckoner.Binary64.Arithmetic

/-! Numbers as JSON writes them, and the value that is read from one: the significand as far as
it fits in 64 bits, multiplied or divided by a power of ten. This rounds more than once, so that
the value is not always the nearest one. -/
namespace Reckoner.Json

/-- A number as it is written. There is at least one digit before the point, and after the point
and the exponent mark if these are there. -/
structure Number where
  negative : Bool
  whole : List Char
  fraction : List Char
  exponent : Option Int
deriving DecidableEq

namespace Number

/-- How many significands there are. -/
def significandLimit : Nat := 2 ^ 64

/-- Adds digits to a significand while it fits. The digits left over come second. -/
def accumulate (significand : Nat) : List Char → Nat × List Char
  | [] => (significand, [])
  | c :: rest =>
    let next := significand * 10 + (c.toNat - '0'.toNat)
    if next < significandLimit then accumulate next rest else (significand, c :: rest)

def ofNat (n : Nat) : Binary64 :=
  .ofDecimal false n 0

def powerOfTen (n : Nat) : Binary64 :=
  .ofDecimal false 1 n

/-- The greatest power of ten that is finite. -/
def maxPower : Nat := 308

/-- Multiplies by a power of ten, in one step or, downwards, in steps of the greatest one. Each
step but the last is counted by `steps`. Beyond the largest value there is none. -/
def scaled? : Nat → Binary64 → Int → Option Binary64
  | steps, x, exponent =>
    if exponent.natAbs ≤ maxPower then
      if 0 ≤ exponent then
        let product := x.mul (powerOfTen exponent.natAbs)
        if product.isFinite then some product else none
      else some (x.div (powerOfTen exponent.natAbs))
    else if x.isZero then some x
    else if 0 ≤ exponent then none
    else
      match steps with
      | 0 => none
      | steps + 1 => scaled? steps (x.div (powerOfTen maxPower)) (exponent + maxPower)

def value? (n : Number) : Option Binary64 :=
  let (whole, dropped) := accumulate 0 n.whole
  let (significand, ignored) := accumulate whole n.fraction
  let exponent : Int :=
    n.exponent.getD 0 + dropped.length - (n.fraction.length - ignored.length : Nat)
  (scaled? (exponent.natAbs / maxPower) (ofNat significand) exponent).map fun x =>
    if n.negative then x.neg else x

/-- The number as a count, if it is written as one and fits in 64 bits. -/
def count? (n : Number) : Option Nat :=
  match accumulate 0 n.whole with
  | (count, []) =>
    if !n.negative && n.fraction.isEmpty && n.exponent.isNone then some count else none
  | _ => none

/-- The exponent after its mark: an optional sign and digits. -/
def readExponent? (text : List Char) : Option (Int × List Char) :=
  let (negative, text) :=
    match text with
    | '-' :: rest => (true, rest)
    | '+' :: rest => (false, rest)
    | rest => (false, rest)
  let digits := text.takeWhile Char.isDigit
  if digits = [] then none
  else
    let size : Int := Nat.ofDigitChars 10 digits 0
    some (if negative then -size else size, text.dropWhile Char.isDigit)

/-- The digits before a point: one zero, or digits that do not begin with one. -/
def readWhole? (text : List Char) : Option (List Char × List Char) :=
  match text.takeWhile Char.isDigit with
  | [] => none
  | '0' :: _ :: _ => none
  | digits => some (digits, text.dropWhile Char.isDigit)

/-- The digits after a point, of which there must be one; none where no point comes first. -/
def readFraction? : List Char → Option (List Char × List Char)
  | '.' :: rest =>
    match rest.takeWhile Char.isDigit with
    | [] => none
    | digits => some (digits, rest.dropWhile Char.isDigit)
  | text => some ([], text)

/-- The number at the start of a text, and the text after it. -/
def read? (text : List Char) : Option (Number × List Char) := do
  let (negative, text) :=
    match text with
    | '-' :: rest => (true, rest)
    | rest => (false, rest)
  let (whole, text) ← readWhole? text
  let (fraction, text) ← readFraction? text
  match text with
  | 'e' :: rest | 'E' :: rest =>
    let (exponent, rest) ← readExponent? rest
    return (⟨negative, whole, fraction, some exponent⟩, rest)
  | _ => return (⟨negative, whole, fraction, none⟩, text)

end Number

end Reckoner.Json
