import Mathlib.Data.List.Chain
import Reckoner.Proofs.Expression.Parentheses
import Reckoner.Proofs.Expression.Resolution

/-! How operators wait for their right operand. Between open parentheses each binds tighter than
the one below it, unless both are negations, so that they wait in three layers: at the bottom at
most one sum, on it at most one product, and on that any number of negations. -/
namespace Reckoner

namespace Operator

/-- Whether `upper` can wait right above `lower`: it binds no less tightly, and as tightly only if
both are negations. -/
def StandsOn (upper lower : Operator) : Prop :=
  lower.precedence ≤ upper.precedence ∧
    (lower.precedence = upper.precedence → upper = neg ∧ lower = neg)

instance (upper lower : Operator) : Decidable (upper.StandsOn lower) :=
  inferInstanceAs (Decidable (_ ∧ _))

variable {upper lower : Operator}

/-- An operator lets the next one stand on it exactly if it is not applied before that. -/
theorem standsOn_iff_not_yieldsTo : upper.StandsOn lower ↔ ¬ upper.yieldsTo lower := by
  cases upper <;> cases lower <;> decide

theorem not_standsOn_of_sum (hupper : upper = add ∨ upper = sub) : ¬ upper.StandsOn lower := by
  rcases hupper with rfl | rfl <;> cases lower <;> decide

theorem StandsOn.isSum (h : upper.StandsOn lower) (hupper : upper = mul ∨ upper = div) :
    lower = add ∨ lower = sub := by
  rcases hupper with rfl | rfl <;> cases lower <;> revert h <;> decide

end Operator

namespace Rpn

/-- An open parenthesis can stand on anything, and anything on it. -/
def Waiting.StandsOn : Waiting → Waiting → Prop
  | .operator upper, .operator lower => upper.StandsOn lower
  | _, _ => True

theorem isChain_waiting {ops : List Operator} :
    (waiting ops).IsChain Waiting.StandsOn ↔ ops.IsChain Operator.StandsOn :=
  List.isChain_map Waiting.operator

theorem Holds.standsOn {op : Operator} {stack : List Waiting} (h : Holds op stack) :
    ∀ top ∈ stack.head?, Waiting.StandsOn (.operator op) top := by
  intro top htop
  cases top with
  | operator top => exact Operator.standsOn_iff_not_yieldsTo.mpr (h top htop)
  | opening => trivial

/-- A token takes away only from the top, and an operator is put only on one that is not applied
before it. -/
theorem Takes.isChain_standsOn {s s' : State} {t : Token} (h : Takes s t s')
    (hs : s.stack.IsChain Waiting.StandsOn) : s'.stack.IsChain Waiting.StandsOn := by
  cases h with
  | number => exact hs
  | negation => exact hs.cons (holds_neg s.stack).standsOn
  | operator hminus hops hrest => exact hs.right_of_append.cons hrest.standsOn
  | opening => exact hs.cons fun _ _ => trivial
  | closing => exact hs.right_of_append.tail

theorem isChain_standsOn_of_run {tokens : List Token} {s : State}
    (h : tokens.foldlM State.step .start = .ok s) : s.stack.IsChain Waiting.StandsOn :=
  foldlM_ok_induction (p := fun s => s.stack.IsChain Waiting.StandsOn)
    (fun _ _ _ _ hs hstep => (State.takes_of_step hstep).isChain_standsOn hs) .nil h

theorem depth_of_run {tokens : List Token} {s : State}
    (h : tokens.foldlM State.step .start = .ok s) :
    s.depth + tokens.count .closing = tokens.count .opening := by
  rcases State.depth_run tokens with ⟨-, herror⟩ | ⟨-, s', hrun, hdepth⟩
  · rw [herror] at h
    cases h
  · rw [hrun] at h
    obtain rfl := Except.ok.inj h
    exact hdepth

theorem afterOperand_iff_of_run {tokens : List Token} {s : State}
    (h : tokens.foldlM State.step .start = .ok s) :
    s.afterOperand = true ↔ ∃ t ∈ tokens.getLast?, t.isNumber = true ∨ t = .closing := by
  have hends : ∀ t : Token, t.endsOperand = true ↔ t.isNumber = true ∨ t = .closing := by
    intro t
    cases t <;> simp [Token.endsOperand, Token.isNumber]
  rw [(Accounts.run h).afterOperand, Option.any_eq_true]
  simp only [hends, Option.mem_def]

/-- Operators in layers, top first: negations on at most one product on at most one sum. -/
def AreLayered (ops : List Operator) : Prop :=
  ∃ (n : Nat) (product sum : Option Operator),
    ops = List.replicate n .neg ++ product.toList ++ sum.toList ∧
    (∀ op ∈ product, op = .mul ∨ op = .div) ∧ ∀ op ∈ sum, op = .add ∨ op = .sub

section Layers

variable {op : Operator} {ops : List Operator}

theorem eq_nil_of_isChain_sum (hop : op = .add ∨ op = .sub)
    (h : (op :: ops).IsChain Operator.StandsOn) : ops = [] := by
  cases ops with
  | nil => rfl
  | cons lower ops => exact absurd (h.rel_head? rfl) (Operator.not_standsOn_of_sum hop)

theorem exists_sum_of_isChain_product (hop : op = .mul ∨ op = .div)
    (h : (op :: ops).IsChain Operator.StandsOn) :
    ∃ sum : Option Operator, ops = sum.toList ∧ ∀ op ∈ sum, op = .add ∨ op = .sub := by
  cases ops with
  | nil => exact ⟨none, rfl, by simp⟩
  | cons lower ops =>
    have hlower := Operator.StandsOn.isSum (h.rel_head? rfl) hop
    obtain rfl := eq_nil_of_isChain_sum hlower h.tail
    exact ⟨some lower, rfl, by simpa using hlower⟩

theorem areLayered_of_isChain (h : ops.IsChain Operator.StandsOn) : AreLayered ops := by
  induction ops with
  | nil => exact ⟨0, none, none, rfl, by simp, by simp⟩
  | cons op ops ih =>
    have hkind : op = .neg ∨ (op = .mul ∨ op = .div) ∨ (op = .add ∨ op = .sub) := by
      cases op <;> decide
    rcases hkind with rfl | hproduct | hsum
    · obtain ⟨n, product, sum, rfl, hlayers⟩ := ih h.tail
      exact ⟨n + 1, product, sum, rfl, hlayers⟩
    · obtain ⟨sum, rfl, hsum⟩ := exists_sum_of_isChain_product hproduct h
      exact ⟨0, some op, sum, rfl, by simpa using hproduct, hsum⟩
    · obtain rfl := eq_nil_of_isChain_sum hsum h
      exact ⟨0, none, some op, rfl, by simp, by simpa using hsum⟩

end Layers

/-- After any tokens, whatever comes next, and each time an operator has been released for what
comes next: whether the last token ended an operand is known, as many parentheses wait as are open,
and operators that wait with no parenthesis between them stand on each other in layers. -/
theorem layers_of_run {tokens : List Token} {s : State}
    (hrun : tokens.foldlM State.step .start = .ok s) {released : List Operator}
    {stack : List Waiting} (hstack : s.stack = waiting released ++ stack) :
    (s.afterOperand = true ↔ ∃ t ∈ tokens.getLast?, t.isNumber = true ∨ t = .closing) ∧
    stack.count .opening + tokens.count .closing = tokens.count .opening ∧
    ∀ ops, waiting ops <:+: stack → ops.IsChain Operator.StandsOn ∧ AreLayered ops := by
  refine ⟨afterOperand_iff_of_run hrun, ?_, fun ops hops => ?_⟩
  · have hdepth := depth_of_run hrun
    rwa [State.depth, hstack, List.count_append, count_waiting, Nat.zero_add] at hdepth
  · have hchain := isChain_standsOn_of_run hrun
    rw [hstack] at hchain
    have hlayers := List.IsChain.infix hchain.right_of_append hops
    rw [isChain_waiting] at hlayers
    exact ⟨hlayers, areLayered_of_isChain hlayers⟩

/-- In `1+(2*--`, with its first negation told from subtraction already, two negations stand on a
product in the parenthesis that is open; the upper one is released first. -/
theorem layers_of_run_openGroup :
    let one : Token := .number (.ofBits 0x3FF0000000000000) ['1']
    let two : Token := .number (.ofBits 0x4000000000000000) ['2']
    let tokens : List Token :=
      [one, .operator .add, .opening, two, .operator .mul, .operator .neg, .operator .sub]
    let stack : List Waiting := waiting [.neg, .mul] ++ .opening :: waiting [.add]
    let s : State := ⟨[two, one], waiting [.neg] ++ stack, false⟩
    tokens.foldlM State.step .start = .ok s ∧ s.stack = waiting [.neg] ++ stack ∧
    (s.afterOperand = true ↔ ∃ t ∈ tokens.getLast?, t.isNumber = true ∨ t = .closing) ∧
    stack.count .opening + tokens.count .closing = tokens.count .opening ∧
    waiting [.neg, .mul] <:+: stack ∧ [Operator.neg, .mul].IsChain Operator.StandsOn ∧
    AreLayered [.neg, .mul] := by
  intro one two tokens stack s
  have hrun : tokens.foldlM State.step .start = .ok s := by decide +kernel
  have hstack : s.stack = waiting [.neg] ++ stack := rfl
  have hops : waiting [.neg, .mul] <:+: stack := List.infix_append' [] _ _
  obtain ⟨hafter, hdepth, hlayers⟩ := layers_of_run hrun hstack
  exact ⟨hrun, hstack, hafter, hdepth, hops, hlayers _ hops⟩

end Rpn

end Reckoner
