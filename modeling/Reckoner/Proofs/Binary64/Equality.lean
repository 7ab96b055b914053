import Reckoner.Operator
import Reckoner.Proofs.Binary64.Rounding

/-! Equality of values as the arithmetic has it, which the operators keep. -/
namespace Reckoner.Binary64

attribute [local irreducible] Magnitude.one

/-- Zeros are equal whatever their signs, and NaN is not even equal to itself. -/
def Equals (a b : Binary64) : Prop :=
  a ≠ nan ∧ (a = b ∨ (a.isZero ∧ b.isZero))

instance (a b : Binary64) : Decidable (a.Equals b) :=
  inferInstanceAs (Decidable (a ≠ nan ∧ (a = b ∨ (a.isZero ∧ b.isZero))))

theorem Equals.of_eq {a b : Binary64} (ha : a ≠ nan) (h : a = b) : a.Equals b :=
  ⟨ha, .inl h⟩

theorem Equals.of_isZero {a b : Binary64} (ha : a.isZero) (hb : b.isZero) : a.Equals b :=
  ⟨by rintro rfl; simp [isZero] at ha, .inr ⟨ha, hb⟩⟩

variable {s t s' t' : Bool} {x y x' y' : Magnitude}

/-- Of finite values only the sign of zero does not count. -/
theorem equals_finite_iff :
    (finite s x).Equals (finite s' x') ↔ x = x' ∧ (s = s' ∨ x.units = 0) := by
  constructor
  · rintro ⟨-, heq | ⟨hx, hx'⟩⟩
    · obtain ⟨rfl, rfl⟩ := finite.inj heq
      exact ⟨rfl, .inl rfl⟩
    · have hunits := Magnitude.isZero_iff.mp hx
      exact ⟨Magnitude.units_injective (hunits.trans (Magnitude.isZero_iff.mp hx').symm),
        .inr hunits⟩
  · rintro ⟨rfl, rfl | hunits⟩
    · exact .of_eq (by simp) rfl
    · exact .of_isZero (Magnitude.isZero_iff.mpr hunits) (Magnitude.isZero_iff.mpr hunits)

theorem Equals.exists_finite {a : Binary64} (h : a.Equals (finite s x)) : ∃ t, a = finite t x := by
  cases a with
  | nan => exact absurd rfl h.1
  | infinite negative => simp [Equals, isZero] at h
  | finite t y =>
    obtain ⟨rfl, -⟩ := equals_finite_iff.mp h
    exact ⟨t, rfl⟩

theorem ofRatio_ne_nan (negative : Bool) (num den : Nat) : ofRatio negative num den ≠ nan := by
  unfold ofRatio
  split <;> simp

theorem equals_ofRatio {num den : Nat} (hden : 0 < den) (h : s = s' ∨ num = 0) :
    (ofRatio s num den).Equals (ofRatio s' num den) := by
  rcases h with rfl | rfl
  · exact .of_eq (ofRatio_ne_nan s num den) rfl
  · rw [ofRatio_zero s hden, ofRatio_zero s' hden]
    exact .of_isZero rfl rfl

theorem signedUnits_eq_of_equals (h : s = s' ∨ x.units = 0) :
    signedUnits s x = signedUnits s' x := by
  rcases h with rfl | hzero
  · rfl
  · simp [signedUnits, hzero]

theorem Equals.neg (h : (finite s x).Equals (finite s' x')) :
    (finite s x).neg.Equals (finite s' x').neg := by
  rw [equals_finite_iff] at h
  exact equals_finite_iff.mpr ⟨h.1, h.2.imp_left (congrArg _)⟩

theorem Equals.add (ha : (finite s x).Equals (finite s' x'))
    (hb : (finite t y).Equals (finite t' y')) :
    ((finite s x).add (finite t y)).Equals ((finite s' x').add (finite t' y')) := by
  obtain ⟨rfl, hs⟩ := equals_finite_iff.mp ha
  obtain ⟨rfl, ht⟩ := equals_finite_iff.mp hb
  simp only [Binary64.add, signedUnits_eq_of_equals hs, signedUnits_eq_of_equals ht]
  split
  next => exact .of_isZero rfl rfl
  next => exact .of_eq (ofRatio_ne_nan _ _ _) rfl

theorem Equals.mul (ha : (finite s x).Equals (finite s' x'))
    (hb : (finite t y).Equals (finite t' y')) :
    ((finite s x).mul (finite t y)).Equals ((finite s' x').mul (finite t' y')) := by
  obtain ⟨rfl, hs⟩ := equals_finite_iff.mp ha
  obtain ⟨rfl, ht⟩ := equals_finite_iff.mp hb
  simp only [Binary64.mul]
  apply equals_ofRatio Magnitude.one_pos
  rw [Nat.mul_eq_zero]
  rcases hs with rfl | hs
  · exact ht.imp (congrArg _) .inr
  · exact .inr (.inl hs)

theorem Equals.div (ha : (finite s x).Equals (finite s' x'))
    (hb : (finite t y).Equals (finite t' y')) (hy : ¬ y.isZero) :
    ((finite s x).div (finite t y)).Equals ((finite s' x').div (finite t' y')) := by
  obtain ⟨rfl, hs⟩ := equals_finite_iff.mp ha
  obtain ⟨rfl, ht⟩ := equals_finite_iff.mp hb
  rw [Magnitude.isZero_iff] at hy
  obtain rfl := ht.resolve_right hy
  simp only [Binary64.div, Magnitude.isZero_iff, hy, if_false]
  apply equals_ofRatio (Nat.pos_of_ne_zero hy)
  exact hs.imp (fun h => by rw [h]) fun h => by rw [h, Nat.zero_mul]

/-- An operator gives equal values for equal operands, as long as it does not divide by zero. -/
theorem Equals.apply {op : Operator} (hop : op ≠ .neg) (ha : (finite s x).Equals (finite s' x'))
    (hb : (finite t y).Equals (finite t' y')) (hdiv : ¬ (op = .div ∧ y.isZero)) :
    (op.apply (finite s x) (finite t y)).Equals (op.apply (finite s' x') (finite t' y')) := by
  cases op with
  | add => exact ha.add hb
  | sub => exact ha.add hb.neg
  | mul => exact ha.mul hb
  | div => exact ha.div hb fun hy => hdiv ⟨rfl, hy⟩
  | neg => exact absurd rfl hop

end Reckoner.Binary64
