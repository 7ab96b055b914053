import Reckoner.Expression
import Reckoner.Proofs.Expression.Conversion
import Reckoner.Proofs.Expression.Tree
import Reckoner.Proofs.Token.Written

/-! The grammar of expressions. The conversion puts out what a derivation says, so that the value
of a text is that of its derivation: products bind tighter than sums, operators of one kind are
applied from the left, and a minus sign before an operand binds tightest. -/
namespace Reckoner.Expression

/-- The parts of an expression, from the loosest to the tightest. -/
inductive Category where
  | expression
  | term
  | factor

/-- The precedence that the operators of a part have at least. -/
def Category.level : Category → Nat
  | expression => 1
  | term => 2
  | factor => 3

/-- A derivation of tokens by the grammar. -/
inductive Derivation : Category → Type where
  | term (t : Derivation .term) : Derivation .expression
  | sum (left : Derivation .expression) (op : Operator) (isSum : op = .add ∨ op = .sub)
      (right : Derivation .term) : Derivation .expression
  | factor (f : Derivation .factor) : Derivation .term
  | product (left : Derivation .term) (op : Operator) (isProduct : op = .mul ∨ op = .div)
      (right : Derivation .factor) : Derivation .term
  | number (n : Numeral) : Derivation .factor
  | group (e : Derivation .expression) : Derivation .factor
  | negation (f : Derivation .factor) : Derivation .factor

namespace Derivation

def tokens {c : Category} : Derivation c → List Token
  | term t => t.tokens
  | sum left op _ right => left.tokens ++ .operator op :: right.tokens
  | factor f => f.tokens
  | product left op _ right => left.tokens ++ .operator op :: right.tokens
  | number n => [n.token]
  | group e => .opening :: (e.tokens ++ [.closing])
  | negation f => .operator .sub :: f.tokens

/-- The tree of the operators, without parentheses. -/
def tree {c : Category} : Derivation c → Tree
  | term t => t.tree
  | sum left op isSum right =>
    .binary op (by rcases isSum with rfl | rfl <;> decide) left.tree right.tree
  | factor f => f.tree
  | product left op isProduct right =>
    .binary op (by rcases isProduct with rfl | rfl <;> decide) left.tree right.tree
  | number n => .number n.value n.text
  | group e => e.tree
  | negation f => .negation f.tree

theorem tokens_ne_nil {c : Category} (d : Derivation c) : d.tokens ≠ [] := by
  induction d with
  | term t ih => exact ih
  | factor f ih => exact ih
  | sum | product | number | group | negation => simp [tokens]

theorem isWritten_of_mem_tokens {c : Category} (d : Derivation c) :
    ∀ t ∈ d.tokens, t.IsWritten := by
  induction d with
  | term t ih => exact ih
  | factor f ih => exact ih
  | number n => simpa [tokens] using Token.IsWritten.number n
  | group e ih =>
    intro t ht
    simp only [tokens, List.mem_cons, List.mem_append, List.not_mem_nil, or_false] at ht
    rcases ht with rfl | ht | rfl
    · exact .opening
    · exact ih t ht
    · exact .closing
  | negation f ih =>
    intro t ht
    rcases List.mem_cons.mp ht with rfl | ht
    · exact .operator (by decide)
    · exact ih t ht
  | sum left op isOp right ihleft ihright | product left op isOp right ihleft ihright =>
    intro t ht
    rw [tokens, List.mem_append, List.mem_cons] at ht
    rcases ht with ht | rfl | ht
    · exact ihleft t ht
    · exact .operator (by rcases isOp with rfl | rfl <;> decide)
    · exact ihright t ht

private theorem isChain_append_cons {t : Token} {left right : List Token} (ht : ¬ t.isNumber)
    (hleft : left.IsChain Token.Apart) (hright : right.IsChain Token.Apart) :
    (left ++ t :: right).IsChain Token.Apart :=
  hleft.append (Token.isChain_cons ht hright) fun _ _ _ hy hboth => by
    obtain rfl := Option.some.inj hy
    exact ht hboth.2

/-- Between two numbers there always is an operator. -/
theorem isChain_tokens {c : Category} (d : Derivation c) : d.tokens.IsChain Token.Apart := by
  induction d with
  | term t ih => exact ih
  | factor f ih => exact ih
  | number n => exact .singleton _
  | group e ih =>
    exact Token.isChain_cons (by simp [Token.isNumber])
      (isChain_append_cons (by simp [Token.isNumber]) ih .nil)
  | negation f ih => exact Token.isChain_cons (by simp [Token.isNumber]) ih
  | sum left op isOp right ihleft ihright | product left op isOp right ihleft ihright =>
    exact isChain_append_cons (by simp [Token.isNumber]) ihleft ihright

end Derivation

end Reckoner.Expression

namespace Reckoner.Rpn

/-- Whether a part whose operators have at least this precedence can begin above the stack: no
operator on top is as tight, or the part is a single operand. -/
def Admits (level : Nat) (stack : List Waiting) : Prop :=
  ∀ top, stack.head? = some (.operator top) →
    Operator.neg.precedence ≤ level ∨ top.precedence < level

/-- Whether tokens, taken where an operand is expected, become the given list. Its end may still
wait as operators on the stack, none of which is looser than `level`. -/
def Converts (level : Nat) (tokens listing : List Token) : Prop :=
  ∀ (reversed : List Token) (stack : List Waiting), Admits level stack →
    ∃ (out : List Token) (ops : List Operator), out ++ ops.map .operator = listing ∧
      (∀ op ∈ ops, level ≤ op.precedence) ∧
      tokens.foldlM State.step ⟨reversed, stack, false⟩ =
        .ok ⟨out.reverse ++ reversed, waiting ops ++ stack, true⟩

/-- An operator after an operand puts out what the operand has left waiting. -/
theorem step_operator {op : Operator} (hop : op ≠ .neg) {out : List Token} {ops : List Operator}
    {stack : List Waiting} (hops : ∀ top ∈ ops, op.precedence ≤ top.precedence)
    (hstack : Admits op.precedence stack) (reversed : List Token) :
    State.step ⟨out.reverse ++ reversed, waiting ops ++ stack, true⟩ (.operator op) =
      .ok ⟨(out ++ ops.map Token.operator).reverse ++ reversed, .operator op :: stack, false⟩ := by
  have hyields : ∀ top, op.yieldsTo top ↔ op.precedence ≤ top.precedence := by
    intro top
    cases op <;> first | exact absurd rfl hop | simp [Operator.yieldsTo, Operator.associativity]
  have hloose : op.precedence < Operator.neg.precedence := by
    cases op <;> first | exact absurd rfl hop | decide
  have hholds : Holds op stack := by
    intro top htop
    have := hstack top htop
    rw [hyields]
    omega
  have hrelease := State.release_append (fun top htop => (hyields top).mpr (hops top htop))
    hholds (out.reverse ++ reversed)
  simp [State.step, hrelease, putOut]

namespace Converts

theorem number (level : Nat) (value : Binary64) (literal : List Char) :
    Converts level [.number value literal] [.number value literal] :=
  fun _ _ _ => ⟨[.number value literal], [], rfl, by simp, rfl⟩

theorem weaken {level : Nat} {tokens listing : List Token}
    (h : Converts (level + 1) tokens listing) : Converts level tokens listing := by
  intro reversed stack hstack
  obtain ⟨out, ops, hlisting, hops, hrun⟩ := h reversed stack fun top htop => by
    have := hstack top htop
    omega
  exact ⟨out, ops, hlisting, fun op hop => by have := hops op hop; omega, hrun⟩

/-- Above an open parenthesis every expression can begin; closing it puts out what waits. -/
theorem group {tokens listing : List Token} (h : Converts 1 tokens listing) (level : Nat) :
    Converts level (.opening :: (tokens ++ [.closing])) listing := by
  intro reversed stack _
  obtain ⟨out, ops, rfl, -, hrun⟩ := h reversed (.opening :: stack) (by simp [Admits])
  refine ⟨out ++ ops.map .operator, [], by simp, by simp, ?_⟩
  rw [List.foldlM_cons, State.step, ok_bind, List.foldlM_append, hrun, ok_bind, List.foldlM_cons,
    State.step, State.close_append, map_ok, ok_bind]
  simp [putOut, pure, Except.pure]

/-- A minus sign waits on top of whatever the stack holds. -/
theorem negation {tokens listing : List Token} (h : Converts 3 tokens listing) :
    Converts 3 (.operator .sub :: tokens) (listing ++ [.operator .neg]) := by
  intro reversed stack _
  obtain ⟨out, ops, rfl, hops, hrun⟩ := h reversed (.operator .neg :: stack) fun _ _ => .inl le_rfl
  refine ⟨out, ops ++ [.neg], by simp, ?_, ?_⟩
  · intro op hop
    rcases List.mem_append.mp hop with hop | hop
    · exact hops op hop
    · rw [List.mem_singleton.mp hop]; decide
  · rw [List.foldlM_cons, State.step, if_pos ⟨rfl, rfl⟩, ok_bind, hrun]
    simp

theorem binary {op : Operator} {level : Nat} (hop : op ≠ .neg) (hlevel : op.precedence = level)
    {left right leftListing rightListing : List Token} (hleft : Converts level left leftListing)
    (hright : Converts (level + 1) right rightListing) :
    Converts level (left ++ .operator op :: right)
      (leftListing ++ rightListing ++ [.operator op]) := by
  subst hlevel
  intro reversed stack hstack
  obtain ⟨out, ops, rfl, hops, hrun⟩ := hleft reversed stack hstack
  obtain ⟨out', ops', rfl, hops', hrun'⟩ :=
    hright ((out ++ ops.map Token.operator).reverse ++ reversed) (.operator op :: stack) (by
      intro top htop
      obtain rfl := Waiting.operator.inj (Option.some.inj htop)
      exact .inr (Nat.lt_succ_self _))
  refine ⟨out ++ ops.map Token.operator ++ out', ops' ++ [op], by simp, ?_, ?_⟩
  · intro top htop
    rcases List.mem_append.mp htop with htop | htop
    · have := hops' top htop
      omega
    · rw [List.mem_singleton.mp htop]
  · rw [List.foldlM_append, hrun, ok_bind, List.foldlM_cons,
      step_operator hop hops hstack, ok_bind, hrun']
    simp

end Converts

open Expression (Derivation)

/-- The tokens of a derivation become its tree in reverse Polish order. -/
theorem converts_tokens {c : Expression.Category} (d : Derivation c) :
    Converts c.level d.tokens d.tree.postOrder := by
  induction d with
  | term t ih => exact ih.weaken
  | sum left op isSum right ihleft ihright =>
    have hop : op ≠ .neg ∧ op.precedence = 1 := by rcases isSum with rfl | rfl <;> decide
    exact .binary hop.1 hop.2 ihleft ihright
  | factor f ih => exact ih.weaken
  | product left op isProduct right ihleft ihright =>
    have hop : op ≠ .neg ∧ op.precedence = 2 := by rcases isProduct with rfl | rfl <;> decide
    exact .binary hop.1 hop.2 ihleft ihright
  | number n => exact .number _ n.value n.text
  | group e ih => exact ih.group _
  | negation f ih => exact ih.negation

theorem ofTokens_tokens (d : Derivation .expression) :
    ofTokens d.tokens = .ok d.tree.postOrder := by
  obtain ⟨out, ops, hlisting, -, hrun⟩ := converts_tokens d [] [] (by simp [Admits])
  unfold ofTokens State.start
  rw [hrun, ok_bind, State.finish, List.append_nil, List.append_nil, State.drain_waiting, map_ok,
    reverse_putOut, List.reverse_reverse, hlisting]

end Reckoner.Rpn

namespace Reckoner.Expression

theorem trim_ne_nil {text : List Char} {tokens : List Token} (h : Token.ofText text = .ok tokens)
    (htokens : tokens ≠ []) : trim text ≠ [] := by
  intro htrim
  have hstrip : strip text = [] := by rw [← strip_trim, htrim]; rfl
  unfold Token.ofText at h
  rw [hstrip] at h
  exact htokens (Except.ok.inj h).symm

/-- A text that is derived by the grammar, with white space anywhere, has the tree of its
derivation as its reverse Polish form. Its value is that of the tree, unless a divisor is zero; no
other error is possible. -/
theorem rpn_and_value_of_derivation (d : Derivation .expression) {text : List Char}
    (htext : strip text = d.tokens.flatMap Token.text) :
    rpn text = .ok d.tree.postOrder ∧
      value text =
        if d.tree.dividesByZero then .error .divisionByZero else .ok d.tree.value := by
  have htokens : Token.ofText text = .ok d.tokens :=
    Token.ofText_eq_ok_iff.mpr ⟨d.isWritten_of_mem_tokens, d.isChain_tokens, htext.symm⟩
  have hrpn : rpn text = .ok d.tree.postOrder := by
    rw [rpn, htokens, ok_bind, Rpn.ofTokens_tokens]
  refine ⟨hrpn, ?_⟩
  rw [value, if_neg (trim_ne_nil htokens d.tokens_ne_nil), hrpn, ok_bind, Rpn.value_postOrder]

/-- `2*-(3.5)` -/
def negatedGroup : Derivation .expression :=
  .term <| .product
    (.factor <| .number ⟨['2'], none, by decide, List.forall_mem_singleton.mpr rfl, by simp⟩) .mul (.inl rfl)
    (.negation <| .group <| .term <| .factor <|
      .number ⟨['3'], some ['5'], by decide, List.forall_mem_singleton.mpr rfl, by simp⟩)

theorem rpn_and_value_of_negatedGroup :
    strip " 2 *-( 3.5)".toList = negatedGroup.tokens.flatMap Token.text ∧
      rpn " 2 *-( 3.5)".toList = .ok negatedGroup.tree.postOrder ∧
      value " 2 *-( 3.5)".toList = .ok (.ofBits 0xC01C000000000000) := by
  have hstrip : strip " 2 *-( 3.5)".toList = negatedGroup.tokens.flatMap Token.text := by
    decide +kernel
  obtain ⟨hrpn, hvalue⟩ := rpn_and_value_of_derivation negatedGroup hstrip
  refine ⟨hstrip, hrpn, hvalue.trans ?_⟩
  rw [show negatedGroup.tree.dividesByZero = false by decide +kernel, if_neg (by decide),
    show negatedGroup.tree.value = .ofBits 0xC01C000000000000 by decide +kernel]

end Reckoner.Expression
