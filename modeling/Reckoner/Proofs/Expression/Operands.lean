import Mathlib.Data.List.Induction
import Reckoner.Proofs.Expression.Tree

/-! Calculating with any list of tokens. As long as no token is refused, the tokens are trees in
reverse Polish order, one after the other, and their values are on the stack. So a list has a value
exactly if it is one tree, and what is wrong with any other list is told by the first token that is
refused, or by the number of trees at its end. -/
namespace Reckoner.Expression

/-- The tokens of some operands. The operands have the last one first, as on a stack. -/
def listing (operands : List Tree) : List Token :=
  operands.reverse.flatMap Tree.postOrder

@[simp] theorem listing_nil : listing [] = [] := rfl

@[simp] theorem listing_cons (t : Tree) (operands : List Tree) :
    listing (t :: operands) = listing operands ++ t.postOrder := by
  simp [listing]

/-- The operands after one more token: a number is one more of them, an operator makes one of as
many as it takes. -/
def grow? : List Tree → Token → Option (List Tree)
  | operands, .number value literal => some (.number value literal :: operands)
  | operands, .operator op =>
    if h : op = .neg then
      match operands with
      | operand :: rest => some (.negation operand :: rest)
      | [] => none
    else
      match operands with
      | right :: left :: rest => some (.binary op h left right :: rest)
      | _ => none
  | _, .opening => none
  | _, .closing => none

theorem grow?_binary {op : Operator} (h : op ≠ .neg) (left right : Tree) (rest : List Tree) :
    grow? (right :: left :: rest) (.operator op) = some (.binary op h left right :: rest) := by
  rw [grow?, dif_neg h]

theorem foldlM_grow?_postOrder (t : Tree) (operands : List Tree) :
    t.postOrder.foldlM grow? operands = some (t :: operands) := by
  induction t generalizing operands with
  | number value literal => rfl
  | negation operand ih =>
    rw [Tree.postOrder, List.foldlM_append, ih]
    rfl
  | binary op isBinary left right ihleft ihright =>
    rw [Tree.postOrder, List.foldlM_append, List.foldlM_append, ihleft, Option.bind_eq_bind,
      Option.bind_some, ihright, Option.bind_some, List.foldlM_cons, grow?_binary isBinary]
    rfl

/-- A list of tokens is the reverse Polish order of one tree at most. -/
theorem postOrder_injective {t t' : Tree} (h : t.postOrder = t'.postOrder) : t = t' := by
  have hgrow := foldlM_grow?_postOrder t []
  rw [h, foldlM_grow?_postOrder] at hgrow
  exact (List.cons.inj (Option.some.inj hgrow)).1.symm

/-- Why a token is refused where these operands are. -/
inductive Refuses : List Tree → Token → ExpressionError → Prop where
  | opening (operands : List Tree) : Refuses operands .opening (.strayParenthesis true)
  | closing (operands : List Tree) : Refuses operands .closing (.strayParenthesis false)
  | missing {operands : List Tree} (op : Operator) (h : operands.length < op.arity) :
      Refuses operands (.operator op) .missingOperand
  | divisor (left : Tree) {right : Tree} (rest : List Tree) (h : right.value.isZero) :
      Refuses (right :: left :: rest) (.operator .div) .divisionByZero

/-- Whether no operand divides by zero. -/
def Sound (operands : List Tree) : Prop :=
  ∀ t ∈ operands, t.dividesByZero = false

@[simp] theorem sound_nil : Sound [] := nofun

@[simp] theorem sound_cons {t : Tree} {operands : List Tree} :
    Sound (t :: operands) ↔ t.dividesByZero = false ∧ Sound operands :=
  List.forall_mem_cons

/-- Why tokens have no value: one of them is refused by the operands before it, or there are none
or too many operands at their end. -/
inductive Fails : List Token → ExpressionError → Prop where
  | refused {operands : List Tree} {t : Token} {e : ExpressionError} (hsound : Sound operands)
      (h : Refuses operands t e) (rest : List Token) : Fails (listing operands ++ t :: rest) e
  | nothing : Fails [] .missingOperand
  | surplus {operands : List Tree} (hsound : Sound operands) (h : 1 < operands.length) :
      Fails (listing operands) .surplusOperand

/-- An operator takes its operands or is refused for one reason. -/
theorem exists_operands_of_operator {operands : List Tree} (hsound : Sound operands)
    (op : Operator) :
    (∃ e, Refuses operands (.operator op) e) ∨
      ∃ operands', Sound operands' ∧ listing operands' = listing operands ++ [.operator op] := by
  rcases Nat.lt_or_ge operands.length op.arity with hmissing | harity
  · exact .inl ⟨_, .missing op hmissing⟩
  by_cases hneg : op = .neg
  · subst hneg
    obtain ⟨operand, rest, rfl⟩ := List.exists_cons_of_length_pos harity
    refine .inr ⟨.negation operand :: rest, ?_, by simp [Tree.postOrder]⟩
    simpa [Tree.dividesByZero] using hsound
  · have htwo : op.arity = 2 := by cases op <;> first | exact absurd rfl hneg | rfl
    rw [htwo] at harity
    obtain ⟨right, others, rfl⟩ := List.exists_cons_of_length_pos (Nat.zero_lt_of_lt harity)
    obtain ⟨left, rest, rfl⟩ := List.exists_cons_of_length_pos (Nat.succ_le_succ_iff.mp harity)
    simp only [sound_cons] at hsound
    obtain ⟨hright, hleft, hrest⟩ := hsound
    by_cases hdivisor : op = .div ∧ right.value.isZero
    · obtain ⟨rfl, hzero⟩ := hdivisor
      exact .inl ⟨_, .divisor left rest hzero⟩
    · refine .inr ⟨.binary op hneg left right :: rest, ?_, by simp [Tree.postOrder]⟩
      rw [sound_cons]
      exact ⟨by simpa [Tree.dividesByZero, hleft, hright] using hdivisor, hrest⟩

/-- A token is refused, or there are operands that it has been added to. -/
theorem exists_operands_of_token {operands : List Tree} (hsound : Sound operands) (t : Token) :
    (∃ e, Refuses operands t e) ∨
      ∃ operands', Sound operands' ∧ listing operands' = listing operands ++ [t] := by
  cases t with
  | number value literal =>
    exact .inr ⟨.number value literal :: operands, by simpa [Tree.dividesByZero] using hsound,
      by simp [Tree.postOrder]⟩
  | operator op => exact exists_operands_of_operator hsound op
  | opening => exact .inl ⟨_, .opening operands⟩
  | closing => exact .inl ⟨_, .closing operands⟩

/-- Either a token of the list is refused by those before it, or the list is the listing of
operands. -/
theorem exists_refused_or_operands (tokens : List Token) :
    (∃ operands t rest e, Sound operands ∧ Refuses operands t e ∧
        tokens = listing operands ++ t :: rest) ∨
      ∃ operands, Sound operands ∧ listing operands = tokens := by
  induction tokens using List.reverseRecOn with
  | nil => exact .inr ⟨[], sound_nil, rfl⟩
  | append_singleton tokens last ih =>
    rcases ih with ⟨operands, t, rest, e, hsound, hrefuses, rfl⟩ | ⟨operands, hsound, rfl⟩
    · exact .inl ⟨operands, t, rest ++ [last], e, hsound, hrefuses, by simp⟩
    · rcases exists_operands_of_token hsound last with ⟨e, hrefuses⟩ | hoperands
      · exact .inl ⟨operands, last, [], e, hsound, hrefuses, rfl⟩
      · exact .inr hoperands

theorem fails_or_exists_tree (tokens : List Token) :
    (∃ e, Fails tokens e) ∨ ∃ t : Tree, t.dividesByZero = false ∧ t.postOrder = tokens := by
  rcases exists_refused_or_operands tokens with
    ⟨operands, t, rest, e, hsound, hrefuses, rfl⟩ | ⟨operands, hsound, rfl⟩
  · exact .inl ⟨e, .refused hsound hrefuses rest⟩
  · match operands with
    | [] => exact .inl ⟨_, .nothing⟩
    | [t] => exact .inr ⟨t, (sound_cons.mp hsound).1, by simp⟩
    | _ :: _ :: _ => exact .inl ⟨_, .surplus hsound (by simp)⟩

end Reckoner.Expression

namespace Reckoner.Rpn

open Expression

theorem foldlM_calculate_listing {operands : List Tree} (hsound : Sound operands) :
    (listing operands).foldlM calculate [] = .ok (operands.map Tree.value) := by
  induction operands with
  | nil => rfl
  | cons t operands ih =>
    obtain ⟨ht, hoperands⟩ := sound_cons.mp hsound
    rw [listing_cons, List.foldlM_append, ih hoperands, ok_bind, foldlM_calculate_postOrder, ht]
    rfl

theorem calculate_of_length_lt {stack : List Binary64} {op : Operator}
    (h : stack.length < op.arity) : calculate stack (.operator op) = .error .missingOperand := by
  match stack with
  | [] => cases op <;> rfl
  | [a] =>
    cases op with
    | neg => exact absurd h (Nat.lt_irrefl 1)
    | add | sub | mul | div => rfl
  | b :: a :: rest =>
    have harity : op.arity ≤ 2 := by cases op <;> decide
    simp only [List.length_cons] at h
    omega

theorem calculate_of_refuses {operands : List Tree} {t : Token} {e : ExpressionError}
    (h : Refuses operands t e) : calculate (operands.map Tree.value) t = .error e := by
  cases h with
  | opening => rfl
  | closing => rfl
  | missing op h => exact calculate_of_length_lt (by simpa using h)
  | divisor left rest hzero =>
    rw [List.map_cons, List.map_cons, calculate_binary (by decide), if_pos ⟨rfl, hzero⟩]

theorem value_of_fails {tokens : List Token} {e : ExpressionError} (h : Fails tokens e) :
    value tokens = .error e := by
  cases h with
  | refused hsound hrefuses rest =>
    rw [value, List.foldlM_append, foldlM_calculate_listing hsound, ok_bind, List.foldlM_cons,
      calculate_of_refuses hrefuses]
    rfl
  | nothing => rfl
  | @surplus operands hsound h =>
    rw [value, foldlM_calculate_listing hsound, ok_bind]
    match operands, h with
    | _ :: _ :: _, _ => rfl

/-- Tokens have a value exactly if they are the reverse Polish order of a tree that divides by no
zero, of which there is one at most, and then it is the value of that tree. All other lists of
tokens fail for the one reason that is found first. -/
theorem value_eq_iff_postOrder (tokens : List Token) :
    (∀ v, value tokens = .ok v ↔
      ∃ t : Tree, t.postOrder = tokens ∧ t.dividesByZero = false ∧ t.value = v) ∧
    (∀ t t' : Tree, t.postOrder = tokens → t'.postOrder = tokens → t = t') ∧
    ∀ e, value tokens = .error e ↔ Fails tokens e := by
  have hcases := fails_or_exists_tree tokens
  have htree {t : Tree} (hsound : t.dividesByZero = false) :
      value t.postOrder = .ok t.value := by
    rw [value_postOrder, hsound]
    rfl
  refine ⟨fun v => ⟨fun h => ?_, ?_⟩, fun t t' ht ht' => postOrder_injective (ht.trans ht'.symm),
    fun e => ⟨fun h => ?_, value_of_fails⟩⟩
  · rcases hcases with ⟨e, hfails⟩ | ⟨t, hsound, rfl⟩
    · rw [value_of_fails hfails] at h
      cases h
    · exact ⟨t, rfl, hsound, Except.ok.inj ((htree hsound).symm.trans h)⟩
  · rintro ⟨t, rfl, hsound, rfl⟩
    exact htree hsound
  · rcases hcases with ⟨e', hfails⟩ | ⟨t, hsound, rfl⟩
    · rw [value_of_fails hfails] at h
      obtain rfl := Except.error.inj h
      exact hfails
    · rw [htree hsound] at h
      cases h

end Reckoner.Rpn
