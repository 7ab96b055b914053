import Reckoner.Proofs.Binary64.Rounding
import Reckoner.Proofs.Decimal.Digits
import Reckoner.Proofs.Decimal.Value

/-! The shortest decimal of a value: seventeen digits always are enough, and the value nearest to
the decimal is the one it was made for. -/
namespace Reckoner.Decimal

/-- The leading digit of a quotient, in whole numbers. -/
theorem leadingOf_spec {num den : Nat} (hnum : 0 < num) (hden : 0 < den) :
    den * 10 ^ (leadingOf num den).toNat ≤ num * 10 ^ (-leadingOf num den).toNat ∧
      num * 10 ^ (-leadingOf num den).toNat < den * 10 ^ (leadingOf num den).toNat * 10 := by
  rw [leadingOf]
  split
  next hle =>
    obtain ⟨k, hk⟩ : ∃ k, digitCount (num / den) = k + 1 :=
      Nat.exists_eq_add_one.mpr (digitCount_pos _)
    have hlower := pow_digitCount_le (Nat.div_pos hle hden)
    have hupper := lt_pow_digitCount (num / den)
    rw [hk] at hlower hupper ⊢
    rw [Nat.add_sub_cancel, Nat.le_div_iff_mul_le hden] at hlower
    rw [Nat.div_lt_iff_lt_mul hden, Nat.pow_succ] at hupper
    rw [show ((k + 1 : Nat) : Int) - 1 = k by omega, Int.toNat_natCast, Int.toNat_neg_natCast,
      Nat.pow_zero]
    constructor <;> linarith
  next hlt =>
    obtain ⟨k, hk⟩ : ∃ k, digitCount ((den - 1) / num) = k + 1 :=
      Nat.exists_eq_add_one.mpr (digitCount_pos _)
    have hlower := pow_digitCount_le (Nat.div_pos (show num ≤ den - 1 by omega) hnum)
    have hupper := lt_pow_digitCount ((den - 1) / num)
    rw [hk] at hlower hupper ⊢
    rw [Nat.add_sub_cancel, Nat.le_div_iff_mul_le hnum] at hlower
    rw [Nat.div_lt_iff_lt_mul hnum, Nat.mul_comm] at hupper
    rw [Int.neg_neg, Int.toNat_natCast, Int.toNat_neg_natCast, Nat.pow_zero]
    rw [Nat.pow_succ] at hupper ⊢
    constructor
    · omega
    · have : num * (10 ^ k * 10) = 10 ^ k * num * 10 := by ring
      omega

/-- The quotient counted in steps of a place `n` after that of its leading digit. -/
theorem leadingOf_sub_spec {num den : Nat} (hnum : 0 < num) (hden : 0 < den) (n : Nat)
    {exponent : Int} (hexponent : exponent = leadingOf num den - n) :
    den * 10 ^ exponent.toNat * 10 ^ n ≤ num * 10 ^ (-exponent).toNat ∧
      num * 10 ^ (-exponent).toNat < den * 10 ^ exponent.toNat * 10 ^ (n + 1) := by
  obtain ⟨hlower, hupper⟩ := leadingOf_spec hnum hden
  generalize leadingOf num den = leading at *
  have hshift : exponent.toNat + n + (-leading).toNat = leading.toNat + (-exponent).toNat := by
    omega
  have hpos : 0 < 10 ^ (-leading).toNat := Nat.pow_pos (by decide)
  have hden' : den * 10 ^ exponent.toNat * 10 ^ n * 10 ^ (-leading).toNat =
      den * 10 ^ leading.toNat * 10 ^ (-exponent).toNat := by
    rw [Nat.mul_assoc, Nat.mul_assoc, Nat.mul_assoc, ← Nat.pow_add, ← Nat.pow_add, ← Nat.pow_add,
      ← Nat.add_assoc, hshift]
  have hlower' := Nat.mul_le_mul_right (10 ^ (-exponent).toNat) hlower
  have hupper' := Nat.mul_lt_mul_of_pos_right hupper
    (show 0 < 10 ^ (-exponent).toNat from Nat.pow_pos (by decide))
  constructor
  · apply Nat.le_of_mul_le_mul_right _ hpos
    linarith
  · apply Nat.lt_of_mul_lt_mul_right (a := 10 ^ (-leading).toNat)
    rw [Nat.pow_succ]
    linarith

end Reckoner.Decimal

namespace Reckoner.Magnitude

attribute [local irreducible] one

theorem units_pos {x : Magnitude} (h : ¬ x.isZero) : 0 < x.units := by
  rw [isZero_iff] at h
  omega

theorem identifiedBy_iff {x : Magnitude} {d : Decimal} :
    x.identifiedBy d ↔
      x.lowerBound * 10 ^ (-d.exponent).toNat ≤ 4 * (d.coefficient * 10 ^ d.exponent.toNat * one) ∧
      4 * (d.coefficient * 10 ^ d.exponent.toNat * one) ≤
        x.upperBound * 10 ^ (-d.exponent).toNat ∧
      (x.significand % 2 = 0 ∨
        (x.lowerBound * 10 ^ (-d.exponent).toNat <
          4 * (d.coefficient * 10 ^ d.exponent.toNat * one) ∧
        4 * (d.coefficient * 10 ^ d.exponent.toNat * one) <
          x.upperBound * 10 ^ (-d.exponent).toNat)) := by
  have hassoc : 4 * d.coefficient * 10 ^ d.exponent.toNat * one =
      4 * (d.coefficient * 10 ^ d.exponent.toNat * one) := by ring
  unfold identifiedBy
  rw [hassoc]
  split
  next heven => simp [heven]
  next hodd => simp [hodd]; omega

theorem identifiedBy_iff_toRat {x : Magnitude} {d : Decimal} :
    x.identifiedBy d ↔
      x.lowerBound ≤ (4 * one : Nat) * d.toRat ∧ (4 * one : Nat) * d.toRat ≤ x.upperBound ∧
      (x.significand % 2 = 0 ∨
        (x.lowerBound < (4 * one : Nat) * d.toRat ∧
          (4 * one : Nat) * d.toRat < x.upperBound)) := by
  have hassoc : 4 * (d.coefficient * 10 ^ d.exponent.toNat * one) =
      4 * one * (d.coefficient * 10 ^ d.exponent.toNat) := by ring
  rw [identifiedBy_iff, hassoc, ← not_le, ← not_le, ← not_le, ← not_le, d.le_mul_toRat_iff,
    d.mul_toRat_le_iff, d.le_mul_toRat_iff, d.mul_toRat_le_iff]

/-- The magnitude nearest to one of its decimals is that magnitude, whatever the quotient is
extended by. -/
theorem nearestUnits_of_identifiedBy {x : Magnitude} {d : Decimal} (h : x.identifiedBy d)
    {k : Nat} (hk : 0 < k) :
    nearestUnits (d.coefficient * 10 ^ d.exponent.toNat * one * k)
      (10 ^ (-d.exponent).toNat * k) = x.units := by
  obtain ⟨hlower, hupper, heven⟩ := identifiedBy_iff.mp h
  have hscale : 0 < 10 ^ (-d.exponent).toNat := Nat.pow_pos (by decide)
  generalize d.coefficient * 10 ^ d.exponent.toNat * one = value at *
  generalize 10 ^ (-d.exponent).toNat = scale at *
  apply nearestUnits_of_between (Nat.mul_pos hscale hk)
  all_goals simp only [← Nat.mul_assoc] at hlower hupper heven ⊢
  · exact Nat.mul_le_mul_right k hlower
  · exact Nat.mul_le_mul_right k hupper
  · exact heven.imp_right fun hstrict =>
      ⟨Nat.mul_lt_mul_of_pos_right hstrict.1 hk, Nat.mul_lt_mul_of_pos_right hstrict.2 hk⟩

theorem identifiedBy_congr {x : Magnitude} {d d' : Decimal} (h : d.toRat = d'.toRat)
    (hd : x.identifiedBy d) : x.identifiedBy d' := by
  rw [identifiedBy_iff_toRat] at hd ⊢
  rwa [← h]

/-- How many whole steps of `10 ^ exponent` the value has. -/
def gridSteps (x : Magnitude) (exponent : Int) : Nat :=
  x.units * 10 ^ (-exponent).toNat / (one * 10 ^ exponent.toNat)

theorem onGrid?_eq_some {tie : Tie} {x : Magnitude} {exponent : Int} {d : Decimal}
    (h : onGrid? tie x exponent = some d) :
    d.exponent = exponent ∧ x.identifiedBy d ∧ x.gridSteps exponent ≤ d.coefficient ∧
      d.coefficient ≤ x.gridSteps exponent + 1 := by
  unfold onGrid? at h
  unfold gridSteps
  generalize x.units * 10 ^ (-exponent).toNat = num at *
  generalize one * 10 ^ exponent.toNat = den at *
  simp only at h
  split at h
  next hbelow habove =>
    obtain rfl := Option.some.inj h
    cases tie with
    | toEven =>
      have hle := div_le_roundHalfEven num den
      have hge := roundHalfEven_le num den
      refine ⟨rfl, ?_, hle, hge⟩
      rcases Nat.eq_or_lt_of_le hle with heq | hlt
      · simpa only [← heq] using hbelow
      · simpa only [Nat.le_antisymm hge hlt] using habove
    | up =>
      simp only
      split
      · exact ⟨rfl, hbelow, le_rfl, Nat.le_succ _⟩
      · exact ⟨rfl, habove, Nat.le_succ _, le_rfl⟩
  next hbelow _ =>
    obtain rfl := Option.some.inj h
    exact ⟨rfl, hbelow, le_rfl, Nat.le_succ _⟩
  next _ habove =>
    obtain rfl := Option.some.inj h
    exact ⟨rfl, habove, Nat.le_succ _, le_rfl⟩
  next => simp at h

theorem onGrid?_eq_none {tie : Tie} {x : Magnitude} {exponent : Int}
    (h : onGrid? tie x exponent = none) :
    ¬ x.identifiedBy ⟨x.gridSteps exponent, exponent⟩ ∧
      ¬ x.identifiedBy ⟨x.gridSteps exponent + 1, exponent⟩ := by
  unfold onGrid? at h
  unfold gridSteps
  generalize x.units * 10 ^ (-exponent).toNat = num at *
  generalize one * 10 ^ exponent.toNat = den at *
  simp only at h
  split at h
  next => simp at h
  next => simp at h
  next => simp at h
  next hbelow habove => simp [hbelow, habove]

/-- A decimal above the lower bound that is no decimal of `x` is not below the upper one. -/
theorem upperBound_le_of_not_identifiedBy {x : Magnitude} {d : Decimal} (h : ¬ x.identifiedBy d)
    (hlower : x.lowerBound * 10 ^ (-d.exponent).toNat <
      4 * (one * 10 ^ d.exponent.toNat * d.coefficient)) :
    x.upperBound * 10 ^ (-d.exponent).toNat ≤
      4 * (one * 10 ^ d.exponent.toNat * d.coefficient) := by
  rw [identifiedBy_iff,
    show d.coefficient * 10 ^ d.exponent.toNat * one =
      one * 10 ^ d.exponent.toNat * d.coefficient by ring] at h
  omega

/-- Where two neighbours on a grid both miss the bounds, its steps are as wide as these are
apart. -/
theorem le_step_of_onGrid?_eq_none {tie : Tie} {x : Magnitude} (hx : ¬ x.isZero) {exponent : Int}
    (h : onGrid? tie x exponent = none) :
    (2 + x.gapBelow) * (10 ^ (-exponent).toNat * 2 ^ x.exponent) ≤
      4 * (one * 10 ^ exponent.toNat) := by
  obtain ⟨hbelow, habove⟩ := onGrid?_eq_none h
  have hunits := units_pos hx
  have hlower := lowerBound_mul (Nat.pos_of_mul_pos_right hunits) (10 ^ (-exponent).toNat)
  have hupper := upperBound_mul x (10 ^ (-exponent).toNat)
  have hunit : 0 < 10 ^ (-exponent).toNat * 2 ^ x.exponent :=
    Nat.mul_pos (Nat.pow_pos (by decide)) (Nat.two_pow_pos _)
  have hgap := Nat.mul_pos x.gapBelow_pos hunit
  have hnum : x.units * 10 ^ (-exponent).toNat =
      10 ^ (-exponent).toNat * 2 ^ x.exponent * x.significand := by
    unfold units
    ring
  have hstep : 0 < one * 10 ^ exponent.toNat := Nat.mul_pos one_pos (Nat.pow_pos (by decide))
  have hsplit := Nat.div_add_mod (x.units * 10 ^ (-exponent).toNat) (one * 10 ^ exponent.toNat)
  have hrest := Nat.mod_lt (x.units * 10 ^ (-exponent).toNat) hstep
  change one * 10 ^ exponent.toNat * x.gridSteps exponent + _ = _ at hsplit
  have habove' := upperBound_le_of_not_identifiedBy habove (by
    simp only [Nat.mul_add, Nat.mul_one]
    omega)
  have hbelow' := mt (upperBound_le_of_not_identifiedBy hbelow) (by
    simp only
    omega)
  simp only [Nat.mul_add, Nat.mul_one] at habove' hbelow'
  rw [Nat.add_mul]
  omega

/-- Seventeen digits are enough: the steps of that grid are narrower than the bounds are apart. -/
theorem onGrid?_isSome {x : Magnitude} (hx : ¬ x.isZero) (tie : Tie) {exponent : Int}
    (hexponent : exponent = Decimal.leadingOf x.units one - (16 : Nat)) :
    (onGrid? tie x exponent).isSome := by
  obtain ⟨hsteps, -⟩ := Decimal.leadingOf_sub_spec (units_pos hx) one_pos 16 hexponent
  by_contra hnone
  have hstep := le_step_of_onGrid?_eq_none hx (Option.not_isSome_iff_eq_none.mp hnone)
  have hunit : 0 < 10 ^ (-exponent).toNat * 2 ^ x.exponent :=
    Nat.mul_pos (Nat.pow_pos (by decide)) (Nat.two_pow_pos _)
  have hnum : x.units * 10 ^ (-exponent).toNat =
      10 ^ (-exponent).toNat * 2 ^ x.exponent * x.significand := by
    unfold units
    ring
  rw [hnum] at hsteps
  have hsignificand := Nat.mul_le_mul_left (10 ^ (-exponent).toNat * 2 ^ x.exponent)
    (Nat.le_sub_one_of_lt x.significand_lt)
  unfold gapBelow at hstep
  split at hstep
  next hnarrow =>
    rw [hnarrow.1] at hsteps
    omega
  next => omega

theorem significand_eq_zero {x : Magnitude} (h : x.isZero) : x.significand = 0 := by
  unfold isZero at h
  exact beq_iff_eq.mp h

/-- The shortest decimal has at most seventeen digits, or is the power of ten after those. -/
theorem shortest_spec (tie : Tie) {x : Magnitude} (hx : ¬ x.isZero) :
    ∃ n ≤ 16, (x.shortest tie).exponent = Decimal.leadingOf x.units one - (n : Nat) ∧
      x.identifiedBy (x.shortest tie) ∧ 10 ^ n ≤ (x.shortest tie).coefficient ∧
      (x.shortest tie).coefficient ≤ 10 ^ (n + 1) := by
  obtain ⟨d, hd⟩ : ∃ d, (List.range 17).findSome? (fun (n : Nat) =>
      onGrid? tie x (Decimal.leadingOf x.units one - n)) = some d := by
    apply Option.isSome_iff_exists.mp
    rw [List.findSome?_isSome_iff]
    exact ⟨16, by decide, onGrid?_isSome hx tie rfl⟩
  have hshortest : x.shortest tie = d := by
    unfold shortest
    rw [if_neg hx]
    simp only [hd, Option.getD_some]
  obtain ⟨n, hn, hgrid⟩ := List.exists_of_findSome?_eq_some hd
  obtain ⟨hexponent, hidentified, hlower, hupper⟩ := onGrid?_eq_some hgrid
  obtain ⟨hle, hlt⟩ := Decimal.leadingOf_sub_spec (units_pos hx) one_pos n rfl
  have hstep (exponent : Int) : 0 < one * 10 ^ exponent.toNat :=
    Nat.mul_pos one_pos (Nat.pow_pos (by decide))
  rw [Nat.mul_comm, ← Nat.le_div_iff_mul_le (hstep _)] at hle
  rw [Nat.mul_comm (one * _), ← Nat.div_lt_iff_lt_mul (hstep _)] at hlt
  rw [hshortest]
  refine ⟨n, by simp at hn; omega, hexponent, hidentified, hle.trans hlower, ?_⟩
  exact hupper.trans hlt

theorem identifiedBy_shortest (tie : Tie) (x : Magnitude) : x.identifiedBy (x.shortest tie) := by
  by_cases hx : x.isZero
  · unfold shortest
    rw [if_pos hx, identifiedBy_iff, lowerBound_eq, significand_eq_zero hx]
    simp
  · obtain ⟨-, -, -, h, -⟩ := shortest_spec tie hx
    exact h

theorem coefficient_shortest_le (tie : Tie) (x : Magnitude) :
    (x.shortest tie).coefficient ≤ 10 ^ 17 := by
  by_cases hx : x.isZero
  · unfold shortest
    rw [if_pos hx]
    decide
  · obtain ⟨n, hn, -, -, -, hle⟩ := shortest_spec tie hx
    exact hle.trans (Nat.pow_le_pow_right (by decide) (by omega))

/-- No value has its leading digit below the place of the least one. -/
theorem le_leadingOf {x : Magnitude} (hx : ¬ x.isZero) : -324 ≤ Decimal.leadingOf x.units one := by
  by_contra hlow
  have hzero : (Decimal.leadingOf x.units one).toNat = 0 := by omega
  have hplaces : 325 ≤ (-Decimal.leadingOf x.units one).toNat := by omega
  obtain ⟨-, hlt⟩ := Decimal.leadingOf_spec (units_pos hx) one_pos
  simp only [hzero, Nat.pow_zero, Nat.mul_one] at hlt
  apply absurd hlt
  apply Nat.not_lt_of_le
  calc one * 10 ≤ 10 ^ 325 := by decide +kernel
    _ ≤ 10 ^ (-Decimal.leadingOf x.units one).toNat := Nat.pow_le_pow_right (by decide) hplaces
    _ ≤ x.units * 10 ^ (-Decimal.leadingOf x.units one).toNat :=
      Nat.le_mul_of_pos_left _ (units_pos hx)

theorem le_exponent_shortest (tie : Tie) (x : Magnitude) : -340 ≤ (x.shortest tie).exponent := by
  by_cases hx : x.isZero
  · unfold shortest
    rw [if_pos hx]
    decide
  · obtain ⟨n, hn, hexponent, -⟩ := shortest_spec tie hx
    have := le_leadingOf hx
    omega

end Reckoner.Magnitude
