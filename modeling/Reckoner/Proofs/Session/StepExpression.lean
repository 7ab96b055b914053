import Reckoner.Proofs.Display.PlainReading
import Reckoner.Session.Basic

/-! The expression that is kept for a calculation in steps, read back: it has the operator at its
root and, as operands, the values that the plain digits of the two numbers denote. -/
namespace Reckoner

open Display (plain plainValue plainRat writesMinus)

/-- Whether a value is the nearest one to the number that a text is, and has a minus sign where the
text has one. -/
structure Denotes (text : List Char) (w : Binary64) : Prop where
  isNearest : ∃ q, Decimal.exactValue? text = some q ∧ Binary64.IsNearest q w
  isNegative_iff : w.isNegative ↔ text.head? = some '-'

/-- Of equal values only zeros can have different signs. -/
theorem Binary64.Equals.eq_of_isNegative {s : Bool} {x : Magnitude} {w : Binary64}
    (h : (Binary64.finite s x).Equals w) (hsign : w.isNegative = s) : w = .finite s x := by
  cases w with
  | nan => simp [Equals, isZero] at h
  | infinite t => simp [Equals, isZero] at h
  | finite t y =>
    obtain ⟨rfl, -⟩ := equals_finite_iff.mp h
    exact congrArg (finite · x) hsign

/-- The plain digits of a finite value denote one value, which is the one they are read as. -/
theorem denotes_plain_iff {a w : Binary64} (ha : a.isFinite) :
    Denotes (plain a) w ↔ w = plainValue a := by
  cases a with
  | nan => cases ha
  | infinite negative => cases ha
  | finite negative x =>
    obtain ⟨y, hread, hnearest, hunique⟩ := Display.exists_plainValue negative x
    have hexact := Display.exactValue?_plain negative x
    have hminus : (plain (.finite negative x)).head? = some '-' ↔ writesMinus negative x := by
      rw [Display.plain_finite]
      exact Display.head?_signed (Display.isPlain_positional _).isDigit_of_mem_head? _
    rw [hread]
    constructor
    · rintro ⟨⟨q, hq, hw⟩, hsign⟩
      obtain rfl : plainRat negative x = q := Option.some.inj (hexact.symm.trans hq)
      exact (hunique w hw).eq_of_isNegative (Bool.eq_iff_iff.mpr (hsign.trans hminus))
    · rintro rfl
      exact ⟨⟨_, hexact, hnearest⟩, hminus.symm⟩

theorem Operator.ne_neg_of_binary? {op : Operator} {f : Binary64 → Binary64 → Binary64}
    (h : op.binary? = some f) : op ≠ .neg := by
  rintro rfl
  cases h

theorem Operator.apply_of_binary? {op : Operator} {f : Binary64 → Binary64 → Binary64}
    (h : op.binary? = some f) (a b : Binary64) : op.apply a b = f a b := by
  rw [apply, h]

namespace Session

variable {op : Operator} {f : Binary64 → Binary64 → Binary64} {a b : Binary64}

/-- Whatever the signs of the two numbers, their plain digits stay the operands. -/
theorem rpn_stepExpression (hop : op ≠ .neg) (ha : a.isFinite) (hb : b.isFinite) :
    ∃ left right, Expression.rpn (plain a) = .ok left ∧ Expression.rpn (plain b) = .ok right ∧
      Expression.rpn (stepExpression a op b) = .ok (left ++ right ++ [.operator op]) := by
  obtain ⟨left, right, d, hleft, hright, htext, htree, -, -⟩ :=
    Display.exists_derivation_plain_append hop ha hb
  refine ⟨left.tree.postOrder, right.tree.postOrder, ?_, ?_, ?_⟩
  · rw [← hleft]
    exact Expression.Derivation.rpn_flatMap_text (.term (.factor left))
  · rw [← hright]
    exact Expression.Derivation.rpn_flatMap_text (.term (.factor right))
  · change Expression.rpn (plain a ++ op.symbol :: plain b) = _
    rw [← htext, d.rpn_flatMap_text, htree]
    rfl

/-- The expression that is kept for a calculation in steps has its own operator at the root. Its
operands are the plain digits of the two numbers, each of which denotes one value. The expression
divides by zero if its operator divides and the second of these values is zero, and else has the
value that the operator has for the two. -/
theorem value_stepExpression (hop : op.binary? = some f) (ha : a.isFinite) (hb : b.isFinite) :
    (∃ left right, Expression.rpn (plain a) = .ok left ∧ Expression.rpn (plain b) = .ok right ∧
      Expression.rpn (stepExpression a op b) = .ok (left ++ right ++ [.operator op])) ∧
    ∃ ra rb, (∀ w, Denotes (plain a) w ↔ w = ra) ∧ (∀ w, Denotes (plain b) w ↔ w = rb) ∧
      Expression.value (stepExpression a op b) =
        if op = .div ∧ rb.isZero then .error .divisionByZero else .ok (f ra rb) := by
  have hne := Operator.ne_neg_of_binary? hop
  refine ⟨rpn_stepExpression hne ha hb, plainValue a, plainValue b, fun w => denotes_plain_iff ha,
    fun w => denotes_plain_iff hb, ?_⟩
  rw [← Operator.apply_of_binary? hop]
  exact Display.value_plain_append hne ha hb

/-- In `-6--7` the first sign and the third belong to the numbers. -/
theorem value_stepExpression_negatives :
    Operator.sub.binary? = some .sub ∧
      stepExpression (.ofBits 0xC018000000000000) .sub (.ofBits 0xC01C000000000000) =
        "-6--7".toList ∧
      Expression.value "-6--7".toList = .ok (.ofBits 0x3FF0000000000000) := by
  have htext : stepExpression (.ofBits 0xC018000000000000) .sub (.ofBits 0xC01C000000000000) =
      "-6--7".toList := by decide +kernel
  obtain ⟨-, ra, rb, hra, hrb, hvalue⟩ := value_stepExpression
    (show Operator.sub.binary? = some .sub from rfl)
    (show (Binary64.ofBits 0xC018000000000000).isFinite by decide +kernel)
    (show (Binary64.ofBits 0xC01C000000000000).isFinite by decide +kernel)
  have ha : Denotes (plain (.ofBits 0xC018000000000000)) (.ofBits 0xC018000000000000) :=
    ⟨⟨-6, by decide +kernel, Binary64.isNearest_self (by decide +kernel)⟩, by decide +kernel⟩
  have hb : Denotes (plain (.ofBits 0xC01C000000000000)) (.ofBits 0xC01C000000000000) :=
    ⟨⟨-7, by decide +kernel, Binary64.isNearest_self (by decide +kernel)⟩, by decide +kernel⟩
  rw [htext, ← (hra _).mp ha, ← (hrb _).mp hb] at hvalue
  exact ⟨rfl, htext, hvalue.trans (by decide +kernel)⟩

end Session

end Reckoner
