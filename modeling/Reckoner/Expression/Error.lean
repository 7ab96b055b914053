/-! What can be wrong with an expression. -/
namespace Reckoner

/-- Why an expression has no value. -/
inductive ExpressionError where
  /-- A character that begins no token. -/
  | strayCharacter (c : Char)
  /-- A number that cannot be read. -/
  | unreadableNumber (literal : List Char)
  /-- A `)` without a `(` before it. -/
  | extraClosing
  /-- A `(` without a `)` after it. -/
  | unclosedOpening
  /-- An operator, or the whole expression, lacks an operand. -/
  | missingOperand
  /-- More than one value is left at the end. -/
  | surplusOperand
  | divisionByZero
  | empty
  /-- A parenthesis where only numbers and operators can stand. -/
  | strayParenthesis (opening : Bool)
deriving DecidableEq

namespace ExpressionError

/-- Whether the error lies in the form of the text and not in its calculation. -/
def isSyntactic : ExpressionError → Bool
  | strayCharacter _ | unreadableNumber _ | extraClosing | unclosedOpening => true
  | _ => false

/-- The error as the user reads it. -/
def message : ExpressionError → List Char
  | strayCharacter c => "Invalid characters in expression: '".toList ++ [c, '\'']
  | unreadableNumber literal => "Invalid number: ".toList ++ literal
  | extraClosing => "Mismatched parentheses: extra closing parenthesis".toList
  | unclosedOpening => "Mismatched parentheses: unclosed opening parenthesis".toList
  | missingOperand => "Invalid expression: not enough operands".toList
  | surplusOperand => "Invalid expression: too many operands".toList
  | divisionByZero => "Division by zero".toList
  | empty => "Empty expression".toList
  | strayParenthesis opening =>
    "Unexpected token in postfix expression: ".toList ++ [if opening then '(' else ')']

end ExpressionError

end Reckoner
