import Reckoner.Decimal.Basic
import Reckoner.Instant.Zone
import Reckoner.Text.Blank

/-! The text of an instant: `2024-05-17T08:00:00.5-05:00`. It is written as the clocks on the wall
show it, with as many digits of a second as are needed in steps of three, and with their offset to
the minute. It is read with any offset, and with white space before numbers and signs. -/
namespace Reckoner

namespace WallClock

/-- A year in at least four digits, with a sign where four do not do. -/
def yearText (year : Int) : List Char :=
  let digits := paddedDigits 4 year.natAbs
  if year < 0 then '-' :: digits else if 9999 < year then '+' :: digits else digits

/-- The part of a second with its point, in three, six or nine digits; nothing if it is zero. -/
def fractionOfSecond (nanosecond : Nat) : List Char :=
  if nanosecond = 0 then []
  else if nanosecond % 10 ^ 6 = 0 then '.' :: paddedDigits 3 (nanosecond / 10 ^ 6)
  else if nanosecond % 10 ^ 3 = 0 then '.' :: paddedDigits 6 (nanosecond / 10 ^ 3)
  else '.' :: paddedDigits 9 nanosecond

def timeOfDay (w : WallClock) : List Char :=
  paddedDigits 2 w.hour ++ ':' :: paddedDigits 2 w.minute ++ ':' ::
    paddedDigits 2 w.secondOfMinute

def text (w : WallClock) : List Char :=
  yearText w.date.year ++ '-' :: paddedDigits 2 w.date.month ++ '-' ::
    paddedDigits 2 w.date.day ++ 'T' :: timeOfDay w ++
    fractionOfSecond (w.nanosecond % nanosPerSecond)

end WallClock

namespace Zone

/-- An offset in hours and minutes, of which the seconds are rounded away. -/
def offsetText (seconds : Int) : List Char :=
  if seconds = 0 then ['Z']
  else
    let minutes := (seconds.natAbs + 30) / 60
    (if seconds < 0 then '-' else '+') :: paddedDigits 2 (minutes / 60) ++ ':' ::
      paddedDigits 2 (minutes % 60)

/-- The text of an instant; there is none where the clocks show a date out of range. -/
def timestamp? (zone : Zone) (t : Instant) : Option (List Char) :=
  let w := zone.wallClock t
  if w.date.isInRange then some (w.text ++ offsetText (zone.offset t)) else none

end Zone

namespace Instant

/-- A number of at most `width` digits at the start of a text, and the text after it. -/
def readNumber? (width : Nat) (text : List Char) : Option (Nat × List Char) :=
  let digits := (text.take width).takeWhile Char.isDigit
  if digits = [] then none
  else some (Nat.ofDigitChars 10 digits 0, text.drop digits.length)

/-- A year: up to four digits, or a sign and any number of them. -/
def readYear? (text : List Char) : Option (Int × List Char) :=
  match trimLeft text with
  | '-' :: rest => (readNumber? rest.length rest).map fun (n, rest) => (-(n : Int), rest)
  | '+' :: rest => (readNumber? rest.length rest).map fun (n, rest) => ((n : Int), rest)
  | text => (readNumber? 4 text).map fun (n, rest) => ((n : Int), rest)

/-- A number of one or two digits after white space. -/
def readTwoDigits? (text : List Char) : Option (Nat × List Char) :=
  readNumber? 2 (trimLeft text)

/-- The text after the separator `c`, which may have white space before it. -/
def readSeparator? (c : Char) (text : List Char) : Option (List Char) :=
  match trimLeft text with
  | d :: rest => if d = c then some rest else none
  | [] => none

/-- The nanoseconds after a point, of which there must be a digit; the tenth and further digits
do not count. Without a point there are none. -/
def readFraction? : List Char → Option (Nat × List Char)
  | '.' :: rest =>
    let digits := rest.takeWhile Char.isDigit
    if digits = [] then none
    else
      let kept := digits.take 9
      some (Nat.ofDigitChars 10 kept 0 * 10 ^ (9 - kept.length), rest.dropWhile Char.isDigit)
  | text => some (0, text)

/-- How many seconds an offset of hours and minutes makes; colons and white space may stand
between the two. -/
def readOffsetSize? : List Char → Option (Nat × List Char)
  | h :: h' :: rest =>
    match rest.dropWhile fun c => c == ':' || isBlank c with
    | m :: m' :: rest =>
      let hours := Nat.ofDigitChars 10 [h, h'] 0
      let minutes := Nat.ofDigitChars 10 [m, m'] 0
      if [h, h', m, m'].all Char.isDigit && hours < 24 && minutes < 60 then
        some (hours * 3600 + minutes * 60, rest)
      else none
    | _ => none
  | _ => none

/-- An offset from universal time in seconds: a name of universal time, or a sign with hours and
minutes. The minus sign may be the mathematical one. -/
def readOffset? (text : List Char) : Option (Int × List Char) :=
  if (text.take 3).map Char.toUpper = ['U', 'T', 'C'] then some (0, text.drop 3)
  else
    match text with
    | 'Z' :: rest | 'z' :: rest => some (0, rest)
    | '+' :: rest => (readOffsetSize? rest).map fun (n, rest) => ((n : Int), rest)
    | '-' :: rest | '\u2212' :: rest =>
      (readOffsetSize? rest).map fun (n, rest) => (-(n : Int), rest)
    | _ => none

/-- The instant that a text names, if it names one. -/
def ofTimestamp? (text : List Char) : Option Instant := do
  let (year, text) ← readYear? text
  let text ← readSeparator? '-' text
  let (month, text) ← readTwoDigits? text
  let text ← readSeparator? '-' text
  let (day, text) ← readTwoDigits? text
  let text ←
    match text with
    | 'T' :: rest | 't' :: rest | ' ' :: rest => some rest
    | _ => none
  let (hour, text) ← readTwoDigits? text
  let text ← readSeparator? ':' text
  let (minute, text) ← readTwoDigits? text
  let text ← readSeparator? ':' text
  let (second, text) ← readTwoDigits? text
  let (nanosecond, text) ← readFraction? text
  let (offset, text) ← readOffset? (trimLeft text)
  guard (trimLeft text = [] ∧ hour < 24 ∧ minute < 60 ∧ second ≤ 60)
  let date ← Date.ofParts? year month day
  guard date.isInRange
  let leap := if second = 60 then 1 else 0
  ofLocal? date (hour * 3600 + minute * 60 + (second - leap)) (nanosecond + leap * nanosPerSecond)
    offset

end Instant

end Reckoner
