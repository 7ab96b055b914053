import Reckoner.Proofs.Outcome
import Reckoner.Rpn

/-! Expressions as trees, listed in reverse Polish order. Calculating with that list is
evaluating the tree. -/
namespace Reckoner.Expression

/-- An expression without parentheses. -/
inductive Tree where
  | number (value : Binary64) (literal : List Char)
  | negation (operand : Tree)
  | binary (op : Operator) (isBinary : op ≠ .neg) (left right : Tree)
deriving DecidableEq

namespace Tree

/-- Every operand before its operator, the left operand first. -/
def postOrder : Tree → List Token
  | number value literal => [.number value literal]
  | negation operand => operand.postOrder ++ [.operator .neg]
  | binary op _ left right => left.postOrder ++ right.postOrder ++ [.operator op]

/-- The value, with the operations of binary64 also where a divisor is zero. -/
def value : Tree → Binary64
  | number value _ => value
  | negation operand => operand.value.neg
  | binary .add _ left right => left.value.add right.value
  | binary .sub _ left right => left.value.sub right.value
  | binary .mul _ left right => left.value.mul right.value
  | binary .div _ left right => left.value.div right.value
  | binary .neg isBinary _ _ => absurd rfl isBinary

/-- The operator table has the same operations. -/
theorem value_binary (op : Operator) (isBinary : op ≠ .neg) (left right : Tree) :
    (binary op isBinary left right).value = op.apply left.value right.value := by
  cases op with
  | neg => exact absurd rfl isBinary
  | add => rfl
  | sub => rfl
  | mul => rfl
  | div => rfl

/-- Whether some divisor is zero, of either sign. -/
def dividesByZero : Tree → Bool
  | number _ _ => false
  | negation operand => operand.dividesByZero
  | binary op _ left right =>
    left.dividesByZero || right.dividesByZero || (op = .div && right.value.isZero)

end Tree

end Reckoner.Expression

namespace Reckoner.Rpn

theorem calculate_binary {op : Operator} (h : op ≠ .neg) (a b : Binary64)
    (stack : List Binary64) :
    calculate (b :: a :: stack) (.operator op) =
      if op = .div ∧ b.isZero then .error .divisionByZero else .ok (op.apply a b :: stack) := by
  cases op <;> first | exact absurd rfl h | rfl

open Expression (Tree)

/-- A tree in reverse Polish order puts its value on the stack, whatever the stack holds. -/
theorem foldlM_calculate_postOrder (t : Tree) (stack : List Binary64) :
    t.postOrder.foldlM calculate stack =
      if t.dividesByZero then .error .divisionByZero else .ok (t.value :: stack) := by
  induction t generalizing stack with
  | number value literal => rfl
  | negation operand ih =>
    rw [Tree.postOrder, List.foldlM_append, ih, Tree.dividesByZero]
    split
    next => rfl
    next => rfl
  | binary op isBinary left right ihleft ihright =>
    rw [Tree.postOrder, List.foldlM_append, List.foldlM_append, ihleft, Tree.dividesByZero]
    by_cases hleft : left.dividesByZero
    · simp [hleft]
    · rw [if_neg hleft, ok_bind, ihright]
      by_cases hright : right.dividesByZero
      · simp [hright]
      · rw [if_neg hright, ok_bind, List.foldlM_cons, calculate_binary isBinary,
          Tree.value_binary]
        simp only [hleft, hright, Bool.false_or, Bool.and_eq_true, decide_eq_true_eq]
        split
        next => rfl
        next => rfl

theorem value_postOrder (t : Tree) :
    value t.postOrder =
      if t.dividesByZero then .error .divisionByZero else .ok t.value := by
  unfold value
  rw [foldlM_calculate_postOrder]
  split
  next => rfl
  next => rfl

end Reckoner.Rpn
