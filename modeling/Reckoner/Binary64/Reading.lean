import Reckoner.Binary64.Rounding

/-! Reading a binary64 value from text: an optional sign, then digits with an optional point and
an optional exponent, or the name of an infinity or of NaN. -/
namespace Reckoner.Binary64

/-- The exponent after a mantissa: nothing, or `e`, an optional sign and digits. -/
def readExponent? : List Char → Option Int
  | [] => some 0
  | mark :: rest =>
    if mark = 'e' ∨ mark = 'E' then
      let digits :=
        match rest with
        | '-' :: digits => digits
        | '+' :: digits => digits
        | digits => digits
      if digits = [] ∨ !digits.all Char.isDigit then none
      else
        let size : Int := Nat.ofDigitChars 10 digits 0
        some (if rest.head? = some '-' then -size else size)
    else none

/-- The digits a text begins with, and the text after them. -/
def splitDigits (text : List Char) : List Char × List Char :=
  (text.takeWhile Char.isDigit, text.dropWhile Char.isDigit)

/-- The digits after a point, and the text after them; no digits where no point comes first. -/
def splitFraction : List Char → List Char × List Char
  | '.' :: rest => splitDigits rest
  | text => ([], text)

def readDigits? (negative : Bool) (text : List Char) : Option Binary64 :=
  let (whole, afterWhole) := splitDigits text
  let (fraction, tail) := splitFraction afterWhole
  if whole = [] ∧ fraction = [] then none
  else (readExponent? tail).map fun exponent =>
    ofDecimal negative (Nat.ofDigitChars 10 (whole ++ fraction) 0) (exponent - fraction.length)

/-- A value without its sign. Names are read in any case. -/
def readUnsigned? (negative : Bool) (text : List Char) : Option Binary64 :=
  let name := text.map Char.toLower
  if name = "inf".toList ∨ name = "infinity".toList then some (infinite negative)
  else if name = "nan".toList then some nan
  else readDigits? negative text

def read? : List Char → Option Binary64
  | '-' :: text => readUnsigned? true text
  | '+' :: text => readUnsigned? false text
  | text => readUnsigned? false text

end Reckoner.Binary64
