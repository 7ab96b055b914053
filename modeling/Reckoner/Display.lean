import Reckoner.Binary64.Basic
import Reckoner.Decimal.Rounded
import Reckoner.Text.Bytes

/-! How values are shown: with a number of significant digits, in plain digits to copy from,
and with the thousands apart. -/
namespace Reckoner.Display

/-- Puts a minus sign before the text of a negative value. -/
def signed (negative : Bool) (text : List Char) : List Char :=
  if negative then '-' :: text else text

/-- The exponent of the scientific form: a sign and at least two digits. -/
def exponentText (exponent : Int) : List Char :=
  (if exponent < 0 then '-' else '+') :: paddedDigits 2 exponent.natAbs

/-- More digits than any value has: the first stands at the place of `10 ^ 308` at most, the last
at that of `10 ^ (-1074)` at least. -/
def digitLimit : Nat := 1400

/-- The significant digits that are worked out: one at least. Digits beyond the last one of the
value would be zeros, which are not shown. -/
def workedDigits (digits : Nat) : Nat :=
  min (max digits 1) digitLimit

/-- The decimal of the scientific form. -/
def rounded (digits : Nat) (x : Magnitude) : Decimal :=
  .significant (workedDigits digits) x.units Magnitude.one

/-- Whether a decimal is shown positionally when it has been rounded to `digits` digits: not
below `10 ^ (-4)`, and with no digit before the point that rounding has taken away. -/
def isPositional (digits : Nat) (d : Decimal) : Bool :=
  let leading := d.leading
  decide (-4 ≤ leading ∧ leading < (max digits 1 : Nat))

/-- The decimal of the positional form: the value, rounded once more, at the place where the digits
end when the first of them stands where the scientific form has it. -/
def roundedAgain (digits : Nat) (x : Magnitude) : Decimal :=
  let places := (workedDigits digits : Int) - 1 - (rounded digits x).leading
  .fixed places.toNat x.units Magnitude.one

/-- The value rounded to `digits` significant digits, positionally or with an exponent, without
zeros at the end. -/
def significant (digits : Nat) : Binary64 → List Char
  | .nan => "nan".toList
  | .infinite negative => signed negative "inf".toList
  | .finite negative x =>
    if x.isZero then ['0']
    else
      let d := rounded digits x
      signed negative <|
        if isPositional digits d then (roundedAgain digits x).positional
        else d.mantissa ++ 'e' :: exponentText d.leading

/-- The value rounded to ten places, in digits that an expression can hold; zero has no sign. -/
def plain : Binary64 → List Char
  | .nan => "NaN".toList
  | .infinite negative => signed negative "inf".toList
  | .finite negative x =>
    signed (negative && !x.isZero) (Decimal.fixed 10 x.units Magnitude.one).positional

/-- The digits with a comma before each that has a multiple of three bytes from it to the end. -/
def separated (bytes : Nat) (position : Nat) : List Char → List Char
  | [] => []
  | c :: rest =>
    if 0 < position ∧ (bytes - position) % 3 = 0 then
      ',' :: c :: separated bytes (position + 1) rest
    else c :: separated bytes (position + 1) rest

/-- A positional text with the thousands of its whole part apart. A text with one of the letters
of an exponent, an infinity or NaN is left alone. -/
def groupThousands (text : List Char) : List Char :=
  if text.any (· ∈ ['e', 'n', 'i']) then text
  else
    let (sign, unsigned) :=
      match text with
      | '-' :: rest => (['-'], rest)
      | rest => ([], rest)
    let whole := unsigned.takeWhile (· ≠ '.')
    let fraction := unsigned.dropWhile (· ≠ '.')
    sign ++ separated (byteCount whole) 0 whole ++ fraction

def grouped (value : Binary64) : List Char :=
  groupThousands (plain value)

/-- The name of a value that cannot be shown as a result. -/
def nonFiniteName? : Binary64 → Option (List Char)
  | .nan => some "Not a Number".toList
  | .infinite negative => some (if negative then "-Infinity".toList else "Infinity".toList)
  | .finite _ _ => none

/-- The number of significant digits where none is asked for. -/
def defaultDigits : Nat := 10

/-- The greatest number of places a text can be laid out with before its zeros are dropped. -/
def maxPlaces : Nat := 65535

/-- What cannot be laid out: a value with as many places as its digits ask for, and a date out of
range, which the clocks on the wall may show. -/
inductive Refusal where
  | tooManyPlaces
  | dateOutOfRange
deriving DecidableEq

/-- Whether the positional form of `digits` significant digits has too many places, as it can
for a value below one. -/
def exceedsPlaces (digits : Nat) (d : Decimal) : Bool :=
  isPositional digits d && decide ((maxPlaces : Int) < (max digits 1 : Nat) - 1 - d.leading)

/-- Whether `digits` significant digits of a value cannot be laid out. The scientific form comes
first and has one place fewer than digits. -/
def refuses (digits : Nat) : Binary64 → Bool
  | .finite _ x =>
    !x.isZero && (decide (maxPlaces < digits - 1) || exceedsPlaces digits (rounded digits x))
  | _ => false

/-- What the user chooses about results. -/
structure Options where
  precision : Nat := defaultDigits
  thousandsSeparators : Bool := false
deriving DecidableEq

namespace Options

def format (options : Options) (value : Binary64) : Except Refusal (List Char) :=
  if refuses options.precision value then .error .tooManyPlaces
  else
    let text := significant options.precision value
    .ok (if options.thousandsSeparators then groupThousands text else text)

end Options

end Reckoner.Display
