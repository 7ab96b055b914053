import Reckoner.Binary64.Reading
import Reckoner.Instant.Date
import Reckoner.Toml.Basic
import Reckoner.Toml.Quoted

/-! Numbers, booleans and dates of TOML: the words that stand without quotes. -/
namespace Reckoner.Toml

/-- Digits, with single underscores between some of them. -/
def isDigitRun (isDigit : Char → Bool) : List Char → Bool
  | [] => false
  | [c] => isDigit c
  | c :: '_' :: rest => isDigit c && isDigitRun isDigit rest
  | c :: rest => isDigit c && isDigitRun isDigit rest

def numberOf (base : Nat) (digits : List Char) : Nat :=
  digits.foldl (fun n c => if c = '_' then n else base * n + (hexValue? c).getD 0) 0

/-- Decimal digits without a zero before others. -/
def isWholeRun (text : List Char) : Bool :=
  isDigitRun Char.isDigit text && (text.head? ≠ some '0' || text.length = 1)

/-- A word without its sign, and whether that is a minus sign. -/
def splitSign : List Char → Bool × List Char
  | '-' :: rest => (true, rest)
  | '+' :: rest => (false, rest)
  | text => (false, text)

def isSigned (word : List Char) : Bool :=
  word.head?.any fun c => c = '-' || c = '+'

/-- A digit of a number in some base up to 16. -/
def isDigitIn (base : Nat) (c : Char) : Bool :=
  match hexValue? c with
  | some n => n < base
  | none => false

/-- Whether each underscore in a text stands between two digits; what comes before the text counts
as one where `afterDigit` says so. -/
def areUnderscoresBetween (isDigit : Char → Bool) : Bool → List Char → Bool
  | _, [] => true
  | afterDigit, '_' :: rest =>
    afterDigit && rest.head?.any isDigit && areUnderscoresBetween isDigit false rest
  | _, c :: rest => areUnderscoresBetween isDigit (isDigit c) rest

/-- Whether a word without its sign is a whole number in decimal. One with underscores is known by
the digits before the first of them; behind that only the neighbours of underscores are looked at.
The first may come right after a sign. -/
def isDecimal (signed : Bool) (unsigned : List Char) : Bool :=
  match unsigned.dropWhile Char.isDigit with
  | [] => isWholeRun unsigned
  | '_' :: rest =>
    unsigned.head? ≠ some '0' && !rest.any (· ∈ ['.', 'e', 'E']) &&
      areUnderscoresBetween (isDigitIn 16) signed unsigned
  | _ => false

/-- The least whole number: signed ones have 128 bits. -/
def minInteger : Int := -2 ^ 127

/-- The least whole number too large for 128 bits. -/
def integerLimit : Int := 2 ^ 128

def ofDigits (negative : Bool) (base : Nat) (digits : List Char) : Toml :=
  let size : Int := numberOf base digits
  let n := if negative then -size else size
  if digits ≠ [] ∧ digits.all (fun c => c = '_' || isDigitIn base c) ∧ minInteger ≤ n ∧
      n < integerLimit then .integer n
  else .unreadable

/-- A whole number: decimal with or without a sign, or in another base without one. A base may
stand without digits. -/
def integer? (word : List Char) : Option Toml :=
  let inBase (base : Nat) (digits : List Char) : Option Toml :=
    if digits = [] ∨ isDigitRun (isDigitIn base) digits then some (ofDigits false base digits)
    else none
  match word with
  | '0' :: 'x' :: digits => inBase 16 digits
  | '0' :: 'o' :: digits => inBase 8 digits
  | '0' :: 'b' :: digits => inBase 2 digits
  | _ =>
    let (negative, digits) := splitSign word
    if isDecimal (isSigned word) digits then some (ofDigits negative 10 digits) else none

/-- What may come after the digits of a number with an exponent. -/
def isExponentDigits (text : List Char) : Bool :=
  isDigitRun Char.isDigit (splitSign text).2

/-- Digits after an underscore, as they may come right after a sign. -/
def isLateRun : List Char → Bool
  | '_' :: digits => isDigitRun Char.isDigit digits
  | _ => false

/-- A number with a fraction, an exponent or both, or the name of an infinity or of NaN. -/
def isFloat (word : List Char) : Bool :=
  let unsigned := (splitSign word).2
  let isRunChar (c : Char) : Bool := c.isDigit || c = '_'
  let whole := unsigned.takeWhile isRunChar
  unsigned = "inf".toList || unsigned = "nan".toList ||
    ((isWholeRun whole || (isSigned word && isLateRun whole)) &&
      match unsigned.drop whole.length with
      | '.' :: rest =>
        let fraction := rest.takeWhile isRunChar
        isDigitRun Char.isDigit fraction &&
          match rest.drop fraction.length with
          | [] => true
          | 'e' :: digits | 'E' :: digits => isExponentDigits digits
          | _ => false
      | 'e' :: digits | 'E' :: digits => isExponentDigits digits
      | _ => false)

/-- Whether a number with a fraction or an exponent is in the range of binary64. Only by its name
is one infinite. -/
def isFloatInRange (word : List Char) : Bool :=
  let digits := word.filter (· ≠ '_')
  (splitSign word).2 = "inf".toList || (Binary64.read? digits).any (!Binary64.isInfinite ·)

/-- The number of two digits, if both are. -/
def twoDigits? (a b : Char) : Option Nat :=
  if a.isDigit && b.isDigit then some (Nat.ofDigitChars 10 [a, b] 0) else none

/-- Whether a text is an offset from universal time, or is empty. -/
def isOffset : List Char → Bool
  | [] => true
  | ['Z'] | ['z'] => true
  | [sign, h, h', ':', m, m'] =>
    (sign = '+' || sign = '-') && (twoDigits? h h').any (· < 24) && (twoDigits? m m').any (· < 60)
  | _ => false

/-- Whether a text is a time of day, with seconds and their fraction left out at will, and with
an offset after it where that may be. -/
def isTime (withOffset : Bool) : List Char → Bool
  | h :: h' :: ':' :: m :: m' :: rest =>
    let isEnd (text : List Char) : Bool := text.isEmpty || (withOffset && isOffset text)
    (twoDigits? h h').any (· < 24) && (twoDigits? m m').any (· < 60) &&
      match rest with
      | ':' :: s :: s' :: '.' :: rest =>
        let digits := rest.takeWhile Char.isDigit
        (twoDigits? s s').any (· ≤ 60) && !digits.isEmpty && isEnd (rest.drop digits.length)
      | ':' :: s :: s' :: rest => (twoDigits? s s').any (· ≤ 60) && isEnd rest
      | rest => isEnd rest
  | _ => false

def isDate : List Char → Bool
  | [a, b, c, d, '-', m, m', '-', n, n'] =>
    [a, b, c, d].all Char.isDigit &&
      match twoDigits? m m', twoDigits? n n' with
      | some month, some day => (Date.ofParts? (Nat.ofDigitChars 10 [a, b, c, d] 0) month day).isSome
      | _, _ => false
  | _ => false

/-- Whether a word is a date, a time of day or both with a separator between. -/
def isDateTime (word : List Char) : Bool :=
  isTime false word || isDate word ||
    (isDate (word.take 10) &&
      match word.drop 10 with
      | 'T' :: time | 't' :: time | ' ' :: time => isTime true time
      | _ => false)

def isWordEnd (c : Char) : Bool :=
  c ∈ [' ', '\t', '\n', '\r', ',', ']', '\x7d', '#', '=', '[', '\x7b', '"', '\'']

/-- The word at the start of a text, and the text after it. A date and a time may have a space
between them. -/
def splitWord (text : List Char) : List Char × List Char :=
  let word := text.takeWhile (!isWordEnd ·)
  let rest := text.drop word.length
  match rest with
  | ' ' :: c :: tail =>
    if isDate word && c.isDigit then
      let time := (c :: tail).takeWhile (!isWordEnd ·)
      (word ++ ' ' :: time, (c :: tail).drop time.length)
    else (word, rest)
  | _ => (word, rest)

def ofWord? (word : List Char) : Option Toml :=
  if word = "true".toList then some (.boolean true)
  else if word = "false".toList then some (.boolean false)
  else
    match integer? word with
    | some value => some value
    | none =>
      if isFloat word then some (if isFloatInRange word then .float else .unreadable)
      else if isDateTime word then some .dateTime
      else none

end Reckoner.Toml
