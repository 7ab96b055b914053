import Reckoner.Proofs.Binary64.Nearest
import Reckoner.Proofs.Display.Plain
import Reckoner.Proofs.Display.Significant

/-! What the plain digits of a value are read as. As an exact decimal they are the value rounded to
ten places, and as an expression the value that is nearest to that decimal. Whole numbers are
kept, however large. -/
namespace Reckoner.Display

open Decimal (exactValue? ofText?)
open Expression (Derivation)

attribute [local irreducible] Magnitude.one

section

variable (negative : Bool) (x : Magnitude)

/-- Whether a minus sign is written. -/
def writesMinus : Bool :=
  negative && !x.isZero

theorem plain_finite :
    plain (.finite negative x) = signed (writesMinus negative x) (plainDecimal x).positional :=
  rfl

theorem signedRat_writesMinus :
    signedRat (writesMinus negative x) x.toRat = signedRat negative x.toRat := by
  by_cases hx : x.isZero
  · rw [Magnitude.toRat_of_isZero hx, signedRat_zero, signedRat_zero]
  · simp [writesMinus, hx]

theorem signedRat_lt_zero_iff_writesMinus :
    signedRat negative x.toRat < 0 ↔ writesMinus negative x := by
  by_cases hx : x.isZero
  · simp [writesMinus, hx, Magnitude.toRat_of_isZero hx]
  · simp [writesMinus, hx, signedRat_lt_zero negative (Magnitude.toRat_pos hx)]

/-- The number that the digits are worth. -/
def plainRat : ℚ :=
  signedRat (writesMinus negative x) (plainDecimal x).toRat

theorem exactValue?_plain :
    exactValue? (plain (.finite negative x)) = some (plainRat negative x) := by
  rw [plain_finite, exactValue?_signed (isPlain_positional _).isDigit_of_mem_head?,
    Decimal.toRat_ofText?_positional]
  rfl

theorem isNearestMultiple_plainRat :
    IsNearestMultiple (10 ^ (-10 : ℤ)) (signedRat negative x.toRat) (plainRat negative x) := by
  have hnearest : IsNearestMultiple (10 ^ (-10 : ℤ)) x.toRat (plainDecimal x).toRat :=
    Decimal.isNearestMultiple_roundAt (-10) x.units Magnitude.one_pos
  rw [← signedRat_writesMinus, plainRat]
  cases writesMinus negative x with
  | true => exact hnearest.neg
  | false => exact hnearest

/-- No value is rounded beyond the largest one, which is whole. -/
theorem tenthPlaceSteps_mul_le :
    x.tenthPlaceSteps * Magnitude.one ≤ 10 ^ 10 * Magnitude.largest.units := by
  obtain ⟨n, hn⟩ := Magnitude.one_dvd_units_largest
  have hsteps : x.tenthPlaceSteps ≤ n * 10 ^ 10 := by
    apply roundHalfEven_le_of_le_mul Magnitude.one_pos
    calc x.units * 10 ^ 10 ≤ Magnitude.largest.units * 10 ^ 10 :=
          Nat.mul_le_mul_right _ x.units_le_largest
      _ = Magnitude.one * (n * 10 ^ 10) := by rw [hn, Nat.mul_assoc]
  calc x.tenthPlaceSteps * Magnitude.one ≤ n * 10 ^ 10 * Magnitude.one :=
        Nat.mul_le_mul_right _ hsteps
    _ = 10 ^ 10 * Magnitude.largest.units := by rw [hn]; ring

theorem exists_plainValue :
    ∃ y, plainValue (.finite negative x) = .finite (writesMinus negative x) y ∧
      Binary64.IsNearest (plainRat negative x) (.finite (writesMinus negative x) y) ∧
      ∀ w, Binary64.IsNearest (plainRat negative x) w →
        (Binary64.finite (writesMinus negative x) y).Equals w := by
  have hratio : plainValue (.finite negative x) =
      .ofRatio (writesMinus negative x) (x.tenthPlaceSteps * Magnitude.one) (10 ^ 10) := by
    rw [plainValue, ofDecimal_ten, plainDecimal, Magnitude.coefficient_fixed_ten]
    rfl
  obtain ⟨y, hy, -⟩ := Binary64.exists_ofRatio (writesMinus negative x) (show 0 < 10 ^ 10 by decide)
    (Magnitude.nearestUnits_lt_limit (by decide) (tenthPlaceSteps_mul_le x))
  -- the decimal as the quotient that is rounded when it is read
  have hdecimal : (plainDecimal x).toRat =
      (x.tenthPlaceSteps * Magnitude.one : Nat) / (10 ^ 10 : Nat) / Magnitude.one := by
    have hone : (Magnitude.one : ℚ) ≠ 0 := by exact_mod_cast Magnitude.one_pos.ne'
    rw [Decimal.toRat, plainDecimal, Magnitude.coefficient_fixed_ten]
    change (x.tenthPlaceSteps : ℚ) * 10 ^ (-10 : ℤ) = _
    push_cast
    field_simp
    norm_num
  rw [plainRat, hdecimal]
  exact ⟨y, hratio.trans hy, Binary64.isNearest_of_ofRatio (by decide) hy,
    fun w => Binary64.equals_of_isNearest (by decide) hy⟩

end

/-- The plain digits of a finite value are an expression. -/
theorem value_plain {v : Binary64} (h : v.isFinite) :
    Expression.value (plain v) = .ok (plainValue v) := by
  obtain ⟨d, htext, hvalue, hdivides⟩ := exists_derivation_plain h
  have hexpression := Derivation.value_flatMap_text (.term (.factor d))
  simp only [Derivation.tokens, Derivation.tree, htext, hvalue, hdivides] at hexpression
  exact hexpression

theorem isNearestMultiple_intCast (n : ℤ) : IsNearestMultiple (10 ^ (-10 : ℤ)) (n : ℚ) n := by
  apply IsNearestMultiple.self (n := n * 10 ^ 10) (Decimal.ten_zpow_pos _)
  push_cast
  norm_num [mul_assoc]

/-- A finite value is written in plain digits, with a minus sign if it is negative. They are worth
the value rounded to ten places, and a whole number itself. As an expression they have the value
that is nearest to what they are worth, which is the value itself if that is whole. -/
theorem plain_eq_rounded {v : Binary64} {q : ℚ} (hvalue : v.toRat? = some q) :
    ∃ (r : ℚ) (w : Binary64),
      (∃ text, plain v = signed (q < 0) text ∧ IsPlain text) ∧
      exactValue? (plain v) = some r ∧
      (∀ r', IsNearestMultiple (10 ^ (-10 : ℤ)) q r' ↔ r' = r) ∧
      Expression.value (plain v) = .ok w ∧
      Binary64.IsNearest r w ∧
      (∀ w', Binary64.IsNearest r w' → w.Equals w') ∧
      ∀ n : ℤ, q = n → r = n ∧ w.Equals v := by
  obtain ⟨negative, x, rfl, rfl⟩ := Binary64.exists_toRat?_eq hvalue
  obtain ⟨y, hy, hnearest, hunique⟩ := exists_plainValue negative x
  have hrounded := isNearestMultiple_plainRat negative x
  refine ⟨plainRat negative x, .finite (writesMinus negative x) y, ?_,
    exactValue?_plain negative x, fun r' => ⟨fun h => ?_, fun h => h ▸ hrounded⟩, ?_, hnearest,
    hunique, fun n hn => ?_⟩
  · refine ⟨(plainDecimal x).positional, ?_, isPlain_positional _⟩
    rw [plain_finite, Bool.eq_iff_iff.mpr
      (decide_eq_true_iff.trans (signedRat_lt_zero_iff_writesMinus negative x))]
  · exact h.unique (Decimal.ten_zpow_pos _) hrounded
  · rw [value_plain rfl, hy]
  · rw [hn] at hrounded hvalue
    have hwhole := hrounded.unique (Decimal.ten_zpow_pos _) (isNearestMultiple_intCast n)
    refine ⟨hwhole, hunique _ ?_⟩
    rw [hwhole]
    exact Binary64.isNearest_self hvalue

/-- Halfway between two decimals of ten places, the even one is written. -/
theorem plain_halfway_to_even :
    (Binary64.ofBits 0xBF40000000000000).toRat? = some (-1 / 2048) ∧
      plain (.ofBits 0xBF40000000000000) = "-0.0004882812".toList ∧
      IsNearestMultiple (10 ^ (-10 : ℤ)) (-1 / 2048) (-4882812 / 10 ^ 10) ∧
      ∃ w, Expression.value "-0.0004882812".toList = .ok w ∧
        Binary64.IsNearest (-4882812 / 10 ^ 10) w := by
  have hvalue : (Binary64.ofBits 0xBF40000000000000).toRat? = some (-1 / 2048) := by
    decide +kernel
  have htext : plain (.ofBits 0xBF40000000000000) = "-0.0004882812".toList := by
    decide +kernel
  obtain ⟨r, w, -, hexact, hrounded, hread, hnearest, -⟩ := plain_eq_rounded hvalue
  have hr : r = -4882812 / 10 ^ 10 := by
    rw [htext, show exactValue? "-0.0004882812".toList = some (-4882812 / 10 ^ 10) by
      decide +kernel] at hexact
    exact (Option.some.inj hexact).symm
  rw [htext] at hread
  exact ⟨hvalue, htext, (hrounded _).mpr hr.symm, w, hread, hr ▸ hnearest⟩

end Reckoner.Display
