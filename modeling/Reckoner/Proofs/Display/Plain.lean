import Reckoner.Display
import Reckoner.Proofs.Binary64.Equality
import Reckoner.Proofs.Binary64.Places
import Reckoner.Proofs.Decimal.Positional
import Reckoner.Proofs.Expression.Grammar

/-! The plain digits of a finite value as an operand of an expression: a number, or the negation of
one. Ten places are all that they keep of the value. -/
namespace Reckoner

namespace Decimal

/-- The positional form as a number of an expression. -/
def numeral (d : Decimal) : Numeral where
  whole := Nat.toDigits 10 d.whole
  fraction :=
    if dropTrailingZeros d.fraction = [] then none else some (dropTrailingZeros d.fraction)
  whole_ne_nil := List.ne_nil_of_length_pos Nat.length_toDigits_pos
  isDigit_of_mem_whole := fun _ hc => Nat.isDigit_of_mem_toDigits (by decide) (by decide) hc
  isDigit_of_mem_fraction := by
    intro digits hdigits
    split at hdigits
    next => cases hdigits
    next =>
      obtain rfl := Option.some.inj hdigits
      exact isDigit_of_mem_dropTrailingZeros d.isDigit_of_mem_fraction

theorem fraction_numeral (d : Decimal) :
    d.numeral.fraction =
      if dropTrailingZeros d.fraction = [] then none else some (dropTrailingZeros d.fraction) :=
  rfl

theorem text_numeral (d : Decimal) : d.numeral.text = d.positional := by
  rw [Numeral.text, Numeral.tail, fraction_numeral, positional, fractionText]
  cases dropTrailingZeros d.fraction <;> rfl

theorem places_numeral (d : Decimal) : d.numeral.places = dropTrailingZeros d.fraction := by
  rw [Numeral.places, fraction_numeral]
  cases dropTrailingZeros d.fraction <;> rfl

/-- The number is read as the decimal, though it is written without the zeros at its end. -/
theorem value_numeral {d : Decimal} (hneg : d.exponent < 0) (hplaces : -330 ≤ d.exponent) :
    d.numeral.value = .ofDecimal false d.coefficient d.exponent := by
  obtain ⟨k, hk⟩ := exists_dropTrailingZeros_append d.fraction
  have hlength := length_fraction_of_neg hneg
  have hdigits := ofDigitChars_positional_of_neg hneg
  rw [hk, List.length_append, List.length_replicate] at hlength
  rw [hk, ← List.append_assoc, ofDigitChars_append_replicate_zero] at hdigits
  have hexponent : d.exponent = -((dropTrailingZeros d.fraction).length + k : Nat) := by omega
  rw [Numeral.value, places_numeral, ← hdigits, hexponent,
    Binary64.ofDecimal_neg_natCast _ _ (by omega), Binary64.ofDecimal_neg_natCast _ _ (by omega),
    Nat.pow_add, Nat.mul_right_comm, Binary64.ofRatio_mul_right _ _ _ (Nat.pow_pos (by decide))]
  rfl

end Decimal

theorem Binary64.neg_ofDecimal (negative : Bool) (digits : Nat) (exponent : Int) :
    (ofDecimal negative digits exponent).neg = ofDecimal (!negative) digits exponent := by
  unfold ofDecimal
  split
  next => rfl
  split
  next => rfl
  split
  next => exact neg_ofRatio _ _ _
  next => exact neg_ofRatio _ _ _

namespace Expression.Derivation

/-- A number with or without a minus sign. -/
def signed (negative : Bool) (n : Numeral) : Derivation .factor :=
  if negative then .negation (.number n) else .number n

variable (negative : Bool) (n : Numeral)

theorem flatMap_text_signed :
    (signed negative n).tokens.flatMap Token.text = Display.signed negative n.text := by
  cases negative with
  | false => simp [signed, tokens, Display.signed]
  | true =>
    simp only [signed, tokens, Display.signed, if_true, List.flatMap_cons, Token.text_numeral]
    simp [Token.text, Operator.symbol]

theorem value_signed :
    (signed negative n).tree.value = if negative then n.value.neg else n.value := by
  cases negative <;> rfl

theorem dividesByZero_signed : (signed negative n).tree.dividesByZero = false := by
  cases negative <;> rfl

/-- Operands of the tightest kind can be put on the two sides of every operator. -/
theorem exists_binary {op : Operator} (hop : op ≠ .neg) (left right : Derivation .factor) :
    ∃ d : Derivation .expression, d.tokens = left.tokens ++ .operator op :: right.tokens ∧
      d.tree = .binary op hop left.tree right.tree := by
  cases op with
  | add => exact ⟨.sum (.term (.factor left)) .add (.inl rfl) (.factor right), rfl, rfl⟩
  | sub => exact ⟨.sum (.term (.factor left)) .sub (.inr rfl) (.factor right), rfl, rfl⟩
  | mul => exact ⟨.term (.product (.factor left) .mul (.inl rfl) right), rfl, rfl⟩
  | div => exact ⟨.term (.product (.factor left) .div (.inr rfl) right), rfl, rfl⟩
  | neg => exact absurd rfl hop

/-- The text that a derivation writes without white space has its tree as its reverse Polish form. -/
theorem rpn_flatMap_text (d : Derivation .expression) :
    rpn (d.tokens.flatMap Token.text) = .ok d.tree.postOrder := by
  rw [rpn, Token.ofText_flatMap_text d.isWritten_of_mem_tokens d.isChain_tokens, ok_bind,
    Rpn.ofTokens_tokens]

theorem value_flatMap_text (d : Derivation .expression) :
    value (d.tokens.flatMap Token.text) =
      if d.tree.dividesByZero then .error .divisionByZero else .ok d.tree.value := by
  have htokens := Token.ofText_flatMap_text d.isWritten_of_mem_tokens d.isChain_tokens
  rw [value, if_neg (trim_ne_nil htokens d.tokens_ne_nil), d.rpn_flatMap_text, ok_bind,
    Rpn.value_postOrder]

end Expression.Derivation

namespace Display

open Expression (Derivation)

def plainDecimal (x : Magnitude) : Decimal :=
  .fixed 10 x.units Magnitude.one

/-- The value that the plain digits are read as. -/
def plainValue : Binary64 → Binary64
  | .finite negative x => .ofDecimal (negative && !x.isZero) (plainDecimal x).coefficient (-10)
  | a => a

theorem value_numeral_plainDecimal (x : Magnitude) :
    (plainDecimal x).numeral.value = .ofDecimal false (plainDecimal x).coefficient (-10) :=
  Decimal.value_numeral (show (-10 : Int) < 0 by decide) (show (-330 : Int) ≤ -10 by decide)

/-- The plain digits of a finite value are an operand with the value that they are read as. -/
theorem exists_derivation_plain {a : Binary64} (h : a.isFinite) :
    ∃ d : Derivation .factor, d.tokens.flatMap Token.text = plain a ∧
      d.tree.value = plainValue a ∧ d.tree.dividesByZero = false := by
  cases a with
  | nan => cases h
  | infinite negative => cases h
  | finite negative x =>
    refine ⟨.signed (negative && !x.isZero) (plainDecimal x).numeral, ?_, ?_,
      Derivation.dividesByZero_signed _ _⟩
    · rw [Derivation.flatMap_text_signed, Decimal.text_numeral]
      rfl
    · rw [Derivation.value_signed, value_numeral_plainDecimal, Binary64.neg_ofDecimal, plainValue]
      cases negative && !x.isZero <;> simp

theorem ofDecimal_ten (negative : Bool) (k : Nat) :
    Binary64.ofDecimal negative k (-10) = .ofRatio negative (k * Magnitude.one) (10 ^ 10) :=
  Binary64.ofDecimal_neg_natCast negative k (show 10 ≤ 330 by decide)

/-- Whether a value is the nearest one to some decimal with ten digits after the point. -/
def HasTenPlaces (a : Binary64) : Prop :=
  ∃ negative k, a = .ofDecimal negative k (-10)

/-- What is read from the plain digits is the value itself exactly if ten places are enough to tell
it from all others. -/
theorem plainValue_equals_iff {a : Binary64} (h : a.isFinite) :
    (plainValue a).Equals a ↔ HasTenPlaces a := by
  cases a with
  | nan => cases h
  | infinite sign => cases h
  | finite sign x =>
    rw [plainValue, plainDecimal, Magnitude.coefficient_fixed_ten]
    constructor
    · rintro ⟨-, heq | ⟨-, hzero⟩⟩
      · exact ⟨_, _, heq.symm⟩
      · have hx : x = .zero := Magnitude.units_injective (Magnitude.isZero_iff.mp hzero)
        exact ⟨sign, 0, by rw [hx]; rfl⟩
    · rintro ⟨negative, k, hk⟩
      rw [ofDecimal_ten] at hk ⊢
      have hnearest := Magnitude.nearestUnits_tenthPlaceSteps
        (Binary64.nearestUnits_of_ofRatio hk.symm)
      rw [Binary64.ofRatio_eq _ (by decide) hnearest, Binary64.equals_finite_iff]
      refine ⟨rfl, ?_⟩
      by_cases hzero : x.isZero
      · exact .inr (Magnitude.isZero_iff.mp hzero)
      · simp [hzero]

/-- The plain digits of two values around an operator are its operands, whatever their signs. -/
theorem exists_derivation_plain_append {op : Operator} (hop : op ≠ .neg) {a b : Binary64}
    (ha : a.isFinite) (hb : b.isFinite) :
    ∃ (left right : Derivation .factor) (d : Derivation .expression),
      left.tokens.flatMap Token.text = plain a ∧ right.tokens.flatMap Token.text = plain b ∧
      d.tokens.flatMap Token.text = plain a ++ op.symbol :: plain b ∧
      d.tree = .binary op hop left.tree right.tree ∧
      (d.tree.dividesByZero ↔ op = .div ∧ (plainValue b).isZero) ∧
      d.tree.value = op.apply (plainValue a) (plainValue b) := by
  obtain ⟨left, hleft, hleft_value, hleft_divides⟩ := exists_derivation_plain ha
  obtain ⟨right, hright, hright_value, hright_divides⟩ := exists_derivation_plain hb
  obtain ⟨d, htokens, htree⟩ := Derivation.exists_binary hop left right
  refine ⟨left, right, d, hleft, hright, ?_, htree, ?_, ?_⟩
  · rw [htokens, List.flatMap_append, List.flatMap_cons, hleft, hright]
    rfl
  · simp [htree, Expression.Tree.dividesByZero, hleft_divides, hright_divides, hright_value]
  · rw [htree, Expression.Tree.value_binary, hleft_value, hright_value]

theorem value_plain_append {op : Operator} (hop : op ≠ .neg) {a b : Binary64} (ha : a.isFinite)
    (hb : b.isFinite) :
    Expression.value (plain a ++ op.symbol :: plain b) =
      if op = .div ∧ (plainValue b).isZero then .error .divisionByZero
      else .ok (op.apply (plainValue a) (plainValue b)) := by
  obtain ⟨-, -, d, -, -, htext, -, hdivides, hvalue⟩ := exists_derivation_plain_append hop ha hb
  rw [← htext, d.value_flatMap_text, hvalue]
  simp only [hdivides]

end Display

end Reckoner
