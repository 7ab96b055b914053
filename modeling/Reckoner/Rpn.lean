import Reckoner.Expression.Error
import Reckoner.Token.Basic

/-! Putting the tokens of an expression into reverse Polish order, operands before their
operator, with one stack of operators that wait for their right operand. -/
namespace Reckoner.Rpn

/-- What waits on the stack. -/
inductive Waiting where
  | operator (op : Operator)
  | opening
deriving DecidableEq

/-- What is known after some tokens: the tokens put out so far, last first, the stack, top
first, and whether the last token ended an operand. -/
structure State where
  reversed : List Token
  stack : List Waiting
  afterOperand : Bool
deriving DecidableEq

namespace State

def start : State where
  reversed := []
  stack := []
  afterOperand := false

/-- Puts out the operators on top of the stack that are applied before `op`. -/
def release (op : Operator) : List Waiting → List Token → List Waiting × List Token
  | .operator top :: stack, reversed =>
    if op.yieldsTo top then release op stack (.operator top :: reversed)
    else (.operator top :: stack, reversed)
  | stack, reversed => (stack, reversed)

/-- Puts out the operators above the innermost open parenthesis and takes that away. -/
def close : List Waiting → List Token → Except ExpressionError (List Waiting × List Token)
  | [], _ => .error .extraClosing
  | .opening :: stack, reversed => .ok (stack, reversed)
  | .operator top :: stack, reversed => close stack (.operator top :: reversed)

/-- Puts out all that waits. -/
def drain : List Waiting → List Token → Except ExpressionError (List Token)
  | [], reversed => .ok reversed
  | .opening :: _, _ => .error .unclosedOpening
  | .operator top :: stack, reversed => drain stack (.operator top :: reversed)

/-- Takes one token. A `-` without an operand before it is negation, which binds to what
follows, so that nothing is put out for it. -/
def step (s : State) : Token → Except ExpressionError State
  | .number value literal =>
    .ok { s with reversed := .number value literal :: s.reversed, afterOperand := true }
  | .operator op =>
    if op = .sub ∧ !s.afterOperand then .ok { s with stack := .operator .neg :: s.stack }
    else
      let (stack, reversed) := release op s.stack s.reversed
      .ok ⟨reversed, .operator op :: stack, false⟩
  | .opening => .ok { s with stack := .opening :: s.stack, afterOperand := false }
  | .closing => (close s.stack s.reversed).map fun (stack, reversed) => ⟨reversed, stack, true⟩

/-- The tokens in order, once all have been taken. -/
def finish (s : State) : Except ExpressionError (List Token) :=
  (drain s.stack s.reversed).map List.reverse

end State

/-- The tokens of an expression in reverse Polish order, without parentheses. Operators are put
in order wherever they stand; only parentheses can be wrong. -/
def ofTokens (tokens : List Token) : Except ExpressionError (List Token) :=
  tokens.foldlM State.step .start >>= State.finish

/-- Takes one token of a calculation in reverse Polish order; the stack has its top first. -/
def calculate : List Binary64 → Token → Except ExpressionError (List Binary64)
  | stack, .number value _ => .ok (value :: stack)
  | stack, .operator op =>
    match op.binary?, stack with
    | none, a :: stack => .ok (a.neg :: stack)
    | some f, b :: a :: stack =>
      if op = .div ∧ b.isZero then .error .divisionByZero else .ok (f a b :: stack)
    | _, _ => .error .missingOperand
  | _, .opening => .error (.strayParenthesis true)
  | _, .closing => .error (.strayParenthesis false)

def value (tokens : List Token) : Except ExpressionError Binary64 := do
  match ← tokens.foldlM calculate [] with
  | [result] => .ok result
  | [] => .error .missingOperand
  | _ => .error .surplusOperand

end Reckoner.Rpn
