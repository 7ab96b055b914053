import Reckoner.Binary64.Reading
import Reckoner.Expression.Error
import Reckoner.Text.Blank
import Reckoner.Text.Bytes
import Reckoner.Token.Basic

/-! Splitting a text into tokens: numbers, operators and parentheses; white space does not
count, and any other character is an error. A number is as long as it can be: digits, and after
them possibly one point and more digits. The lexemes are searched for one after the other, and a
character that belongs to none shows as a gap between two of them. -/
namespace Reckoner

def isTokenSymbol (c : Char) : Bool :=
  c ∈ ['+', '-', '*', '/', '(', ')']

/-- The lexeme that a text begins with, as long as it can be. -/
def lexemeAt? : List Char → Option (List Char)
  | [] => none
  | c :: rest =>
    if c.isDigit then
      let whole := c :: rest.takeWhile Char.isDigit
      match rest.dropWhile Char.isDigit with
      | '.' :: after => some (whole ++ '.' :: after.takeWhile Char.isDigit)
      | _ => some whole
    else if isTokenSymbol c then some [c]
    else none

/-- A lexeme in a text, and the byte where it begins. -/
structure Match where
  start : Nat
  lexeme : List Char

/-- The byte after a match. -/
def Match.finish (m : Match) : Nat :=
  m.start + byteCount m.lexeme

/-- The matches in a text that begins at a byte position: each is the first after the one before
it, whatever is in between. The first characters of the text, as many as `skipped` says, belong to
a match already. -/
def matchesFrom (position skipped : Nat) : List Char → List Match
  | [] => []
  | c :: rest =>
    match skipped with
    | skipped + 1 => matchesFrom (position + c.utf8Size) skipped rest
    | 0 =>
      match lexemeAt? (c :: rest) with
      | some lexeme =>
        ⟨position, lexeme⟩ :: matchesFrom (position + c.utf8Size) (lexeme.length - 1) rest
      | none => matchesFrom (position + c.utf8Size) 0 rest

/-- The lexemes of matches that leave nothing out between `cursor` and `finish`, or else the byte
where the first gap begins. -/
def withoutGaps (finish cursor : Nat) : List Match → Except Nat (List (List Char))
  | [] => if cursor = finish then .ok [] else .error cursor
  | m :: rest =>
    if m.start = cursor then (withoutGaps finish m.finish rest).map (m.lexeme :: ·)
    else .error cursor

def cut (text : List Char) : Except Nat (List (List Char)) :=
  withoutGaps (byteCount text) 0 (matchesFrom 0 0 text)

/-- The error for the character at a byte position. -/
def strayAt (text : List Char) (position : Nat) : ExpressionError :=
  .strayCharacter (((dropBytes? position text).bind List.head?).getD '\x00')

/-- The lexemes of a text without white space, in order. -/
def scan (text : List Char) : Except ExpressionError (List (List Char)) :=
  (cut text).mapError (strayAt text)

namespace Token

def ofLexeme (lexeme : List Char) : Except ExpressionError Token :=
  match lexeme with
  | ['+'] => .ok (operator .add)
  | ['-'] => .ok (operator .sub)
  | ['*'] => .ok (operator .mul)
  | ['/'] => .ok (operator .div)
  | ['('] => .ok opening
  | [')'] => .ok closing
  | _ =>
    match Binary64.read? lexeme with
    | some value => .ok (number value lexeme)
    | none => .error (.unreadableNumber lexeme)

def ofText (text : List Char) : Except ExpressionError (List Token) := do
  (← scan (strip text)).mapM ofLexeme

end Token

end Reckoner
