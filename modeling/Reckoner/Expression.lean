import Reckoner.Display
import Reckoner.Rpn
import Reckoner.Token.Lexer

/-! The text of an expression: its reverse Polish form, its value, and the checks that need no
calculation. -/
namespace Reckoner.Expression

/-- The tokens of an expression in reverse Polish order. -/
def rpn (text : List Char) : Except ExpressionError (List Token) :=
  Token.ofText text >>= Rpn.ofTokens

/-- The reverse Polish form with a space between each two tokens. -/
def rpnText (text : List Char) : Except ExpressionError (List Char) :=
  (rpn text).map Token.join

def value (text : List Char) : Except ExpressionError Binary64 :=
  if trim text = [] then .error .empty else rpn text >>= Rpn.value

/-- What is wrong with the tokens and parentheses of an expression, if anything; operands are
not counted, and a text without any is in order. -/
def check (text : List Char) : Option ExpressionError :=
  match rpn text with
  | .ok _ => none
  | .error e => some e

structure Result where
  value : Binary64
  display : List Char
  plain : List Char
deriving DecidableEq

/-- A calculation for a reader: the expression without the space around it, and its result or
the reason why there is none. -/
structure Calculation where
  expression : List Char
  outcome : Except (List Char) Result

/-- The value of an expression where it is finite, and else a message. -/
def finiteValue (text : List Char) : Except (List Char) Binary64 :=
  match value text with
  | .error e => .error e.message
  | .ok v =>
    match Display.nonFiniteName? v with
    | some name => .error name
    | none => .ok v

def calculate (text : List Char) : Calculation where
  expression := trim text
  outcome := (finiteValue (trim text)).map fun v => ⟨v, Display.grouped v, Display.plain v⟩

end Reckoner.Expression
