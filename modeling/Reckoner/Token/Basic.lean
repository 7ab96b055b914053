import Reckoner.Operator
import Reckoner.Decimal.Shortest

/-! Tokens, the units of an expression, and how they are written. -/
namespace Reckoner

/-- A unit of an expression. A number keeps the digits it was written with. -/
inductive Token where
  | number (value : Binary64) (literal : List Char)
  | operator (op : Operator)
  | opening
  | closing
deriving DecidableEq

namespace Token

/-- The number token of a value, written with the fewest digits. -/
def ofValue (value : Binary64) : Token :=
  number value (DigitStyle.literal.write value)

def isNumber : Token → Bool
  | number _ _ => true
  | _ => false

def isOperator : Token → Bool
  | operator _ => true
  | _ => false

def text : Token → List Char
  | number _ literal => literal
  | operator op => [op.symbol]
  | opening => ['(']
  | closing => [')']

def join (tokens : List Token) : List Char :=
  [' '].intercalate (tokens.map text)

end Token

end Reckoner
