import Reckoner.Binary64.Arithmetic

/-! The operators of an expression: how each is written, how tightly it binds and what it
computes. -/
namespace Reckoner

/-- An operator. Negation is written like subtraction and told apart by its place. -/
inductive Operator where
  | add
  | sub
  | mul
  | div
  | neg
deriving DecidableEq

/-- Which of two neighbours of one precedence is applied first. -/
inductive Associativity where
  | left
  | right
deriving DecidableEq

namespace Operator

/-- The operators with two operands, in the order in which they are listed. -/
def binaries : List Operator :=
  [add, sub, mul, div]

def symbol : Operator → Char
  | add => '+'
  | sub => '-'
  | mul => '*'
  | div => '/'
  | neg => '-'

/-- The operator a symbol stands for; `-` is subtraction here. -/
def ofSymbol? : Char → Option Operator
  | '+' => some add
  | '-' => some sub
  | '*' => some mul
  | '/' => some div
  | _ => none

def description : Operator → List Char
  | add => "Add two numbers".toList
  | sub => "Subtract the second number from the first".toList
  | mul => "Multiply two numbers".toList
  | div => "Divide the first number by the second".toList
  | neg => "Negate a number".toList

def precedence : Operator → Nat
  | add => 1
  | sub => 1
  | mul => 2
  | div => 2
  | neg => 3

def associativity : Operator → Associativity
  | neg => .right
  | _ => .left

def arity : Operator → Nat
  | neg => 1
  | _ => 2

/-- The operation on two operands, for those that take two. -/
def binary? : Operator → Option (Binary64 → Binary64 → Binary64)
  | add => some Binary64.add
  | sub => some Binary64.sub
  | mul => some Binary64.mul
  | div => some Binary64.div
  | neg => none

/-- The value for the operands `a` and `b`; an operator with one operand takes `a`. -/
def apply (op : Operator) (a b : Binary64) : Binary64 :=
  match op.binary? with
  | some f => f a b
  | none => a.neg

/-- Whether an operator before `op` is applied before `op` is: it binds tighter, or as tightly
and `op` associates to the left. -/
def yieldsTo (op earlier : Operator) : Bool :=
  match op.associativity with
  | .left => op.precedence ≤ earlier.precedence
  | .right => op.precedence < earlier.precedence

end Operator

end Reckoner
