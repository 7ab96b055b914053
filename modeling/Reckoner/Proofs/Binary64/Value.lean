import Reckoner.Proofs.Binary64.Equality
import Reckoner.Proofs.Decimal.Rounded

/-! The rational number that a finite value is. -/
namespace Reckoner

namespace Magnitude

attribute [local irreducible] one

def toRat (x : Magnitude) : ℚ :=
  x.units / one

variable {x y : Magnitude}

theorem toRat_pos (hx : ¬ x.isZero) : 0 < x.toRat :=
  div_pos (by exact_mod_cast units_pos hx) (by exact_mod_cast one_pos)

theorem toRat_of_isZero (hx : x.isZero) : x.toRat = 0 := by
  rw [toRat, isZero_iff.mp hx, Nat.cast_zero, zero_div]

theorem toRat_nonneg (x : Magnitude) : 0 ≤ x.toRat := by
  unfold toRat
  positivity

theorem toRat_injective (h : x.toRat = y.toRat) : x = y := by
  have hone : (one : ℚ) ≠ 0 := by exact_mod_cast one_pos.ne'
  unfold toRat at h
  exact units_injective (by exact_mod_cast (div_left_inj' hone).mp h)

end Magnitude

def signedRat (negative : Bool) (r : ℚ) : ℚ :=
  if negative then -r else r

/-- The number that a finite value is. -/
def Binary64.toRat? : Binary64 → Option ℚ
  | .finite negative x => some (signedRat negative x.toRat)
  | _ => none

section signedRat

variable (negative : Bool) {r : ℚ}

theorem abs_signedRat (h : 0 ≤ r) : |signedRat negative r| = r := by
  cases negative with
  | true => exact (abs_neg r).trans (abs_of_nonneg h)
  | false => exact abs_of_nonneg h

theorem signedRat_lt_zero (h : 0 < r) : signedRat negative r < 0 ↔ negative := by
  cases negative with
  | true => simpa [signedRat] using h
  | false => simpa [signedRat] using h.le

@[simp] theorem signedRat_zero : signedRat negative 0 = 0 := by
  cases negative <;> simp [signedRat]

theorem signedRat_inj {r' : ℚ} : signedRat negative r = signedRat negative r' ↔ r = r' := by
  cases negative <;> simp [signedRat]

/-- Numbers of one sign are as far apart as they are without it. -/
theorem abs_signedRat_sub (r r' : ℚ) :
    |signedRat negative r - signedRat negative r'| = |r - r'| := by
  cases negative with
  | true => rw [← abs_neg (r - r')]; congr 1; simp only [signedRat, if_true]; ring
  | false => rfl

/-- Without their signs, numbers are no further apart. -/
theorem abs_sub_le_abs_signedRat_sub {r r' : ℚ} (hr : 0 ≤ r) (hr' : 0 ≤ r') (s t : Bool) :
    |r - r'| ≤ |signedRat s r - signedRat t r'| ∧
      (|r - r'| = |signedRat s r - signedRat t r'| → s = t ∨ r = 0 ∨ r' = 0) := by
  by_cases hsign : s = t
  · subst hsign
    exact ⟨(abs_signedRat_sub s r r').ge, fun _ => .inl rfl⟩
  · have hsum : |signedRat s r - signedRat t r'| = r + r' := by
      obtain rfl : t = !s := by cases s <;> cases t <;> simp_all
      rw [← abs_of_nonneg (add_nonneg hr hr'), ← abs_signedRat_sub s]
      cases s <;> simp [signedRat]
    rw [hsum]
    refine ⟨abs_sub_le_of_nonneg_of_le hr (by linarith) hr' (by linarith), fun heq => .inr ?_⟩
    rcases abs_choice (r - r') with habs | habs
    · exact .inr (by linarith)
    · exact .inl (by linarith)

end signedRat

theorem Binary64.exists_toRat?_eq {a : Binary64} {q : ℚ} (h : a.toRat? = some q) :
    ∃ s x, a = finite s x ∧ q = signedRat s x.toRat := by
  cases a with
  | nan => cases h
  | infinite s => cases h
  | finite s x => exact ⟨s, x, rfl, (Option.some.inj h).symm⟩

/-- Equality of finite values is equality of the numbers that they are. -/
theorem Binary64.equals_iff_toRat? {s t : Bool} {x y : Magnitude} :
    (finite s x).Equals (finite t y) ↔ (finite s x).toRat? = (finite t y).toRat? := by
  rw [equals_finite_iff, toRat?, toRat?, Option.some.injEq]
  constructor
  · rintro ⟨rfl, rfl | hzero⟩
    · rfl
    · rw [Magnitude.toRat_of_isZero (Magnitude.isZero_iff.mpr hzero), signedRat_zero,
        signedRat_zero]
  · intro h
    have habs := congrArg abs h
    rw [abs_signedRat _ x.toRat_nonneg, abs_signedRat _ y.toRat_nonneg] at habs
    obtain rfl := Magnitude.toRat_injective habs
    refine ⟨rfl, or_iff_not_imp_right.mpr fun hzero => ?_⟩
    have hpos := Magnitude.toRat_pos (mt Magnitude.isZero_iff.mp hzero)
    rw [Bool.eq_iff_iff, ← signedRat_lt_zero s hpos, ← signedRat_lt_zero t hpos, h]

end Reckoner
