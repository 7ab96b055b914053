import Mathlib.Data.List.Basic
import Reckoner.Proofs.Outcome
import Reckoner.Rpn

/-! What the steps of the conversion to reverse Polish order do to the stack: each takes the
operators off its top, as far as they go, and puts them out in that order. -/
namespace Reckoner.Rpn

/-- Operators as they wait, top first. -/
def waiting (ops : List Operator) : List Waiting :=
  ops.map .operator

/-- Operators in the order in which they leave the stack, put out last first. -/
def putOut (ops : List Operator) (reversed : List Token) : List Token :=
  (ops.map Token.operator).reverse ++ reversed

@[simp] theorem waiting_nil : waiting [] = [] := rfl

@[simp] theorem waiting_cons (op : Operator) (ops : List Operator) :
    waiting (op :: ops) = .operator op :: waiting ops := rfl

@[simp] theorem waiting_append (ops ops' : List Operator) :
    waiting (ops ++ ops') = waiting ops ++ waiting ops' :=
  List.map_append

@[simp] theorem putOut_nil (reversed : List Token) : putOut [] reversed = reversed := rfl

@[simp] theorem putOut_cons (op : Operator) (ops : List Operator) (reversed : List Token) :
    putOut ops (.operator op :: reversed) = putOut (op :: ops) reversed := by
  simp [putOut]

@[simp] theorem reverse_putOut (ops : List Operator) (reversed : List Token) :
    (putOut ops reversed).reverse = reversed.reverse ++ ops.map Token.operator := by
  simp [putOut]

theorem putOut_append (ops : List Operator) (reversed earlier : List Token) :
    putOut ops (reversed ++ earlier) = putOut ops reversed ++ earlier := by
  rw [putOut, putOut, List.append_assoc]

/-- Whether `op` finds nothing on top of the stack that is applied before it. -/
def Holds (op : Operator) (stack : List Waiting) : Prop :=
  ∀ top, stack.head? = some (.operator top) → ¬ op.yieldsTo top

/-- No operator is taken off from below an open parenthesis. -/
theorem Holds.append_opening {op : Operator} {stack : List Waiting} (h : Holds op stack)
    (outer : List Waiting) : Holds op (stack ++ .opening :: outer) := by
  intro top htop
  cases stack with
  | nil => cases htop
  | cons first stack => exact h top htop

namespace State

theorem release_append {op : Operator} {ops : List Operator} {stack : List Waiting}
    (hops : ∀ top ∈ ops, op.yieldsTo top) (hstack : Holds op stack) (reversed : List Token) :
    release op (waiting ops ++ stack) reversed = (stack, putOut ops reversed) := by
  induction ops generalizing reversed with
  | nil =>
    rw [waiting_nil, List.nil_append, putOut_nil]
    unfold release
    split
    next top stack => rw [if_neg (hstack top rfl)]
    next => rfl
  | cons top ops ih =>
    rw [waiting_cons, List.cons_append, release, if_pos (hops top (by simp)),
      ih fun top htop => hops top (by simp [htop]), putOut_cons]

theorem close_append (ops : List Operator) (stack : List Waiting) (reversed : List Token) :
    close (waiting ops ++ .opening :: stack) reversed = .ok (stack, putOut ops reversed) := by
  induction ops generalizing reversed with
  | nil => rfl
  | cons op ops ih => rw [waiting_cons, List.cons_append, close, ih, putOut_cons]

theorem drain_waiting (ops : List Operator) (reversed : List Token) :
    drain (waiting ops) reversed = .ok (putOut ops reversed) := by
  induction ops generalizing reversed with
  | nil => rfl
  | cons op ops ih => rw [waiting_cons, drain, ih, putOut_cons]

/-- What `op` puts out is the longest part of the stack that is applied before it. -/
theorem exists_release (op : Operator) (stack : List Waiting) (reversed : List Token) :
    ∃ ops rest, stack = waiting ops ++ rest ∧ (∀ top ∈ ops, op.yieldsTo top) ∧
      Holds op rest ∧ release op stack reversed = (rest, putOut ops reversed) := by
  induction stack generalizing reversed with
  | nil => exact ⟨[], [], rfl, by simp, by simp [Holds], rfl⟩
  | cons top stack ih =>
    cases top with
    | opening => exact ⟨[], .opening :: stack, rfl, by simp, by simp [Holds], rfl⟩
    | operator top =>
      by_cases htop : op.yieldsTo top
      · obtain ⟨ops, rest, hstack, hops, hrest, hrelease⟩ := ih (.operator top :: reversed)
        refine ⟨top :: ops, rest, ?_, ?_, hrest, ?_⟩
        · rw [hstack, waiting_cons, List.cons_append]
        · simpa using ⟨htop, hops⟩
        · rw [release, if_pos htop, hrelease, putOut_cons]
      · refine ⟨[], .operator top :: stack, rfl, by simp, ?_, ?_⟩
        · intro op' hop'
          obtain rfl := Waiting.operator.inj (Option.some.inj hop')
          exact htop
        · rw [release, if_neg htop, putOut_nil]

/-- A parenthesis that can be closed has only operators above it. -/
theorem exists_of_close {stack rest : List Waiting} {reversed out : List Token}
    (h : close stack reversed = .ok (rest, out)) :
    ∃ ops, stack = waiting ops ++ .opening :: rest ∧ out = putOut ops reversed := by
  induction stack generalizing reversed with
  | nil => simp [close] at h
  | cons top stack ih =>
    cases top with
    | opening =>
      obtain ⟨rfl, rfl⟩ := Prod.mk.inj (Except.ok.inj h)
      exact ⟨[], rfl, rfl⟩
    | operator top =>
      obtain ⟨ops, rfl, rfl⟩ := ih h
      exact ⟨top :: ops, rfl, putOut_cons top ops reversed⟩

/-- At the end only operators wait. -/
theorem exists_of_drain {stack : List Waiting} {reversed out : List Token}
    (h : drain stack reversed = .ok out) :
    ∃ ops, stack = waiting ops ∧ out = putOut ops reversed := by
  induction stack generalizing reversed with
  | nil => exact ⟨[], rfl, (Except.ok.inj h).symm⟩
  | cons top stack ih =>
    cases top with
    | opening => simp [drain] at h
    | operator top =>
      obtain ⟨ops, rfl, rfl⟩ := ih h
      exact ⟨top :: ops, rfl, putOut_cons top ops reversed⟩

end State

/-- What one token does to the state, in all cases in which it can be taken. -/
inductive Takes : State → Token → State → Prop where
  | number (s : State) (value : Binary64) (literal : List Char) :
      Takes s (.number value literal) ⟨.number value literal :: s.reversed, s.stack, true⟩
  | negation {s : State} (hafter : s.afterOperand = false) :
      Takes s (.operator .sub) ⟨s.reversed, .operator .neg :: s.stack, false⟩
  | operator {op : Operator} {ops : List Operator} {reversed : List Token} {rest : List Waiting}
      {after : Bool} (hminus : ¬ (op = .sub ∧ after = false)) (hops : ∀ top ∈ ops, op.yieldsTo top)
      (hrest : Holds op rest) :
      Takes ⟨reversed, waiting ops ++ rest, after⟩ (.operator op)
        ⟨putOut ops reversed, .operator op :: rest, false⟩
  | opening (s : State) : Takes s .opening ⟨s.reversed, .opening :: s.stack, false⟩
  | closing (ops : List Operator) (reversed : List Token) (rest : List Waiting) (after : Bool) :
      Takes ⟨reversed, waiting ops ++ .opening :: rest, after⟩ .closing
        ⟨putOut ops reversed, rest, true⟩

theorem State.takes_of_step {s s' : State} {t : Token} (h : s.step t = .ok s') : Takes s t s' := by
  cases t with
  | number value literal =>
    obtain rfl := Except.ok.inj h
    exact .number s value literal
  | operator op =>
    obtain ⟨reversed, stack, after⟩ := s
    rw [step] at h
    split at h
    next hminus =>
      obtain ⟨rfl, hafter⟩ := hminus
      obtain rfl : after = false := by simpa using hafter
      obtain rfl := Except.ok.inj h
      exact .negation rfl
    next hminus =>
      obtain ⟨ops, rest, rfl, hops, hrest, hrelease⟩ := exists_release op stack reversed
      rw [hrelease] at h
      obtain rfl := Except.ok.inj h
      exact .operator (by simpa using hminus) hops hrest
  | opening =>
    obtain rfl := Except.ok.inj h
    exact .opening s
  | closing =>
    obtain ⟨reversed, stack, after⟩ := s
    obtain ⟨⟨rest, out⟩, hclose, rfl⟩ := map_eq_ok_iff.mp h
    obtain ⟨ops, rfl, rfl⟩ := exists_of_close hclose
    exact .closing ops reversed rest after

theorem State.step_of_takes {s s' : State} {t : Token} (h : Takes s t s') : s.step t = .ok s' := by
  cases h with
  | number | opening => rfl
  | negation hafter => rw [step, if_pos ⟨rfl, by simp [hafter]⟩, hafter]
  | operator hminus hops hrest =>
    rw [step, if_neg (by simpa using hminus), release_append hops hrest]
  | closing ops reversed rest after => rw [step, close_append, map_ok]

end Reckoner.Rpn
