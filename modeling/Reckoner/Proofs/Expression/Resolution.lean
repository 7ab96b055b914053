import Mathlib.Data.List.Perm.Basic
import Reckoner.Proofs.Expression.Acceptance
import Reckoner.Proofs.Expression.Failure

/-! What the conversion puts out. Telling negation from subtraction on the way is the same as doing so
beforehand, by what stands right before each `-`. After that no token is lost, added or changed:
those that have been taken are put out or wait on the stack, the numbers of them in their order. -/
namespace Reckoner

namespace Token

/-- What a token stands for after `previous`: a `-` without an operand right before it is
negation. -/
def inPlace (previous : Option Token) (t : Token) : Token :=
  if t = operator .sub ∧ previous.any endsOperand = false then operator .neg else t

def resolveAfter (previous : Option Token) : List Token → List Token
  | [] => []
  | t :: tokens => t.inPlace previous :: resolveAfter (some t) tokens

/-- The tokens with negation told from subtraction. -/
def resolve (tokens : List Token) : List Token :=
  resolveAfter none tokens

theorem resolveAfter_append_singleton (previous : Option Token) (tokens : List Token)
    (t : Token) :
    resolveAfter previous (tokens ++ [t]) =
      resolveAfter previous tokens ++ [t.inPlace (tokens.getLast?.or previous)] := by
  induction tokens generalizing previous with
  | nil => rfl
  | cons first tokens ih =>
    rw [List.cons_append, resolveAfter, resolveAfter, ih, List.getLast?_cons, List.cons_append]
    cases tokens.getLast? <;> rfl

theorem resolve_append_singleton (tokens : List Token) (t : Token) :
    resolve (tokens ++ [t]) = resolve tokens ++ [t.inPlace tokens.getLast?] := by
  rw [resolve, resolveAfter_append_singleton, Option.or_none]
  rfl

variable {previous : Option Token}

theorem inPlace_sub (h : previous.any endsOperand = false) :
    inPlace previous (operator .sub) = operator .neg :=
  if_pos ⟨rfl, h⟩

theorem inPlace_operator {op : Operator}
    (h : ¬ (op = .sub ∧ previous.any endsOperand = false)) :
    inPlace previous (operator op) = operator op :=
  if_neg (by simpa using h)

end Token

namespace Rpn

open Token (resolve)

/-- Nothing on the stack is applied before a negation that comes after it. -/
theorem holds_neg (stack : List Waiting) : Holds .neg stack := by
  intro top _
  cases top <;> decide

namespace State

theorem afterOperand_of_takes {s s' : State} {t : Token} (h : Takes s t s') :
    s'.afterOperand = t.endsOperand := by
  cases h <;> rfl

/-- A negation that has been told from subtraction waits in its place. -/
theorem step_neg (s : State) :
    s.step (.operator .neg) = .ok ⟨s.reversed, .operator .neg :: s.stack, false⟩ := by
  have hrelease : release .neg (waiting [] ++ s.stack) s.reversed = _ :=
    release_append (by simp) (holds_neg s.stack) s.reversed
  rw [waiting_nil, List.nil_append] at hrelease
  rw [step, if_neg (by simp), hrelease]
  rfl

theorem step_inPlace {s : State} {previous : Option Token}
    (h : s.afterOperand = previous.any Token.endsOperand) (t : Token) :
    s.step (t.inPlace previous) = s.step t := by
  unfold Token.inPlace
  split
  next hminus =>
    obtain ⟨rfl, hnone⟩ := hminus
    rw [hnone] at h
    rw [step_neg, step, if_pos ⟨rfl, by simp [h]⟩, h]
  next => rfl

end State

/-- What waits, as the token that it was. -/
def Waiting.token : Waiting → Token
  | .operator op => .operator op
  | .opening => .opening

/-- All that has been taken and is kept. -/
def State.held (s : State) : List Token :=
  s.stack.map Waiting.token ++ s.reversed

theorem map_token_waiting (ops : List Operator) :
    (waiting ops).map Waiting.token = ops.map .operator := by
  simp [waiting, Waiting.token]

theorem held_putOut_perm (ops : List Operator) (stack : List Waiting) (reversed : List Token) :
    (stack.map Waiting.token ++ putOut ops reversed).Perm
      ((waiting ops ++ stack).map Waiting.token ++ reversed) := by
  rw [putOut, List.map_append, map_token_waiting, ← List.append_assoc]
  apply List.Perm.append_right
  exact List.perm_append_comm.trans ((List.reverse_perm _).append_right _)

theorem filter_isNumber_putOut (ops : List Operator) (reversed : List Token) :
    (putOut ops reversed).filter Token.isNumber = reversed.filter Token.isNumber := by
  simp [putOut, Token.isNumber]

/-- What holds after tokens: whether the last of them ended an operand is known, their numbers are
put out in order, and their operators, as what they stand for, are put out or wait. -/
structure Accounts (tokens : List Token) (s : State) : Prop where
  afterOperand : s.afterOperand = tokens.getLast?.any Token.endsOperand
  numbers : (s.reversed.filter Token.isNumber).reverse = tokens.filter Token.isNumber
  operators : (s.held.filter Token.isOperator).Perm ((resolve tokens).filter Token.isOperator)

namespace Accounts

theorem start : Accounts [] .start where
  afterOperand := rfl
  numbers := rfl
  operators := .refl _

variable {tokens : List Token} {s s' : State} {t : Token}

theorem filter_isNumber_of_takes (h : Takes s t s') :
    s'.reversed.filter Token.isNumber =
      [t].filter Token.isNumber ++ s.reversed.filter Token.isNumber := by
  cases h with
  | number => rfl
  | negation | opening => rfl
  | operator | closing => exact filter_isNumber_putOut _ _

/-- The operator that a token stands for is kept, and nothing else is. -/
theorem held_perm_of_takes (hafter : s.afterOperand = tokens.getLast?.any Token.endsOperand)
    (h : Takes s t s') :
    (s'.held.filter Token.isOperator).Perm
      ((t.inPlace tokens.getLast? :: s.held).filter Token.isOperator) := by
  cases h with
  | number value literal =>
    apply List.Perm.of_eq
    simp [State.held, Token.inPlace, Token.isOperator]
  | negation hnone =>
    rw [Token.inPlace_sub (hafter.symm.trans hnone)]
    rfl
  | @operator op ops reversed rest after hminus _ _ =>
    change after = _ at hafter
    rw [hafter] at hminus
    rw [Token.inPlace_operator hminus]
    exact ((held_putOut_perm ops rest reversed).cons (.operator op)).filter _
  | opening => exact .refl _
  | closing ops reversed rest after =>
    have hperm := (held_putOut_perm ops (.opening :: rest) reversed).filter Token.isOperator
    exact hperm

theorem takes (h : Accounts tokens s) (ht : Takes s t s') : Accounts (tokens ++ [t]) s' where
  afterOperand := by rw [State.afterOperand_of_takes ht, List.getLast?_concat, Option.any_some]
  numbers := by
    rw [filter_isNumber_of_takes ht, List.reverse_append, h.numbers, List.filter_append]
    cases t <;> rfl
  operators := by
    rw [Token.resolve_append_singleton, List.filter_append]
    refine (held_perm_of_takes h.afterOperand ht).trans ?_
    rw [← List.singleton_append, List.filter_append]
    exact List.perm_append_comm.trans (h.operators.append_right _)

theorem run (h : tokens.foldlM State.step .start = .ok s) : Accounts tokens s :=
  foldlM_ok_append_induction start (fun _ _ _ _ h hstep => h.takes (State.takes_of_step hstep)) h

end Accounts

/-- Every step does with a token what it does with that which the token stands for. -/
theorem foldlM_resolve (tokens : List Token) :
    (resolve tokens).foldlM State.step .start = tokens.foldlM State.step .start := by
  induction tokens using List.reverseRecOn with
  | nil => rfl
  | append_singleton tokens t ih =>
    rw [Token.resolve_append_singleton, List.foldlM_append, List.foldlM_append, ih]
    cases hrun : tokens.foldlM State.step .start with
    | error e => rfl
    | ok s =>
      -- the flag of the state is what stands before the token
      rw [ok_bind, ok_bind, List.foldlM_cons, List.foldlM_cons,
        State.step_inPlace (Accounts.run hrun).afterOperand]

/-- What is put out has the operators that the tokens stand for. -/
theorem operator_mem_iff_of_ofTokens {tokens out : List Token} (h : ofTokens tokens = .ok out)
    (op : Operator) : .operator op ∈ out ↔ .operator op ∈ resolve tokens := by
  obtain ⟨s, hrun, hfinish⟩ := bind_eq_ok_iff.mp h
  obtain ⟨reversed, hdrain, rfl⟩ := map_eq_ok_iff.mp hfinish
  obtain ⟨ops, hstack, rfl⟩ := State.exists_of_drain hdrain
  have hheld := (Accounts.run hrun).operators.mem_iff (a := .operator op)
  rw [State.held, hstack, map_token_waiting] at hheld
  simpa [Token.isOperator, or_comm] using hheld

/-- The conversion does not depend on whether negation has been told from subtraction beforehand.
What it puts out holds no parenthesis; it holds the numbers of the tokens in their order, and of
every operator as many as the tokens have, once negation is told from subtraction. -/
theorem ofTokens_resolve (tokens : List Token) :
    ofTokens (resolve tokens) = ofTokens tokens ∧
    ∀ out, ofTokens tokens = .ok out →
      (∀ t ∈ out, t ≠ .opening ∧ t ≠ .closing) ∧
      out.filter Token.isNumber = tokens.filter Token.isNumber ∧
      (out.filter Token.isOperator).Perm ((resolve tokens).filter Token.isOperator) := by
  refine ⟨by rw [ofTokens, foldlM_resolve, ofTokens], fun out h => ⟨fun t ht => ?_, ?_⟩⟩
  · rcases isListedFor_of_ofTokens h t ht with ⟨hnumber, -⟩ | ⟨op, rfl⟩
    · constructor <;> rintro rfl <;> cases hnumber
    · simp
  · obtain ⟨s, hrun, hfinish⟩ := bind_eq_ok_iff.mp h
    obtain ⟨reversed, hdrain, rfl⟩ := map_eq_ok_iff.mp hfinish
    obtain ⟨ops, hstack, rfl⟩ := State.exists_of_drain hdrain
    have haccounts := Accounts.run hrun
    constructor
    · rw [← haccounts.numbers, List.filter_reverse, filter_isNumber_putOut]
    · have hheld := (held_putOut_perm ops [] s.reversed).filter Token.isOperator
      rw [List.map_nil, List.nil_append, List.append_nil, ← hstack] at hheld
      rw [List.filter_reverse]
      exact (List.reverse_perm _).trans (hheld.trans haccounts.operators)

end Rpn

end Reckoner
