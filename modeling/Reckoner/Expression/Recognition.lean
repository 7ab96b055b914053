import Reckoner.Text.Blank

/-! Telling texts that are meant as expressions from words and from single numbers. -/
namespace Reckoner.Expression

def isExpressionChar (c : Char) : Bool :=
  c.isDigit || isBlank c || c ∈ ['.', '+', '-', '*', '/', '(', ')']

/-- A number without white space and its minus sign: digits and points only. -/
def isPlainNumber (text : List Char) : Bool :=
  let unsigned :=
    match strip text with
    | '-' :: rest => rest
    | rest => rest
  unsigned ≠ [] && unsigned.all fun c => c.isDigit || c == '.'

/-- Whether an operator with two operands stands in a text without white space; a `-` is one
only after an operand, which `afterOperand` says of what comes before. -/
def hasOperatorAfter (afterOperand : Bool) : List Char → Bool
  | [] => false
  | c :: rest =>
    c ∈ ['+', '*', '/'] || (c == '-' && afterOperand) ||
      hasOperatorAfter (c.isDigit || c == '.' || c == ')') rest

/-- Whether an operator with two operands stands in a text. -/
def hasOperator (text : List Char) : Bool :=
  hasOperatorAfter false (strip text)

/-- Whether some `(` has a `)` after it with something between that is not a `)`. -/
def hasParentheses : List Char → Bool
  | '(' :: c :: rest => (c ≠ ')' && rest.any (· == ')')) || hasParentheses (c :: rest)
  | _ :: rest => hasParentheses rest
  | [] => false

/-- Whether a text looks like an expression: only characters of expressions, more than a number,
and an operator or something in parentheses. -/
def looksLikeOne (text : List Char) : Bool :=
  let trimmed := trim text
  trimmed ≠ [] && trimmed.all isExpressionChar && !isPlainNumber trimmed &&
    (hasOperator trimmed || hasParentheses trimmed)

end Reckoner.Expression
