import Mathlib.Tactic.Linarith
import Mathlib.Tactic.Ring
import Reckoner.Decimal.Shortest
import Reckoner.Binary64.Rounding

/-! What rounding does to a quotient: it keeps what a magnitude can hold, it keeps the order, and
between the bounds of a magnitude it gives that magnitude. -/
namespace Reckoner

theorem roundHalfEven_mono {num num' : Nat} (den : Nat) (h : num ≤ num') :
    roundHalfEven num den ≤ roundHalfEven num' den := by
  have hquotient : num / den ≤ num' / den := Nat.div_le_div_right h
  rcases Nat.eq_or_lt_of_le hquotient with heq | hlt
  · have hsplit := Nat.div_add_mod num den
    have hsplit' := Nat.div_add_mod num' den
    rw [← heq] at hsplit'
    simp only [roundHalfEven, heq]
    split
    · split <;> omega
    · rw [if_neg (by omega)]
  · calc roundHalfEven num den ≤ num / den + 1 := roundHalfEven_le num den
      _ ≤ num' / den := hlt
      _ ≤ roundHalfEven num' den := div_le_roundHalfEven num' den

theorem roundHalfEven_le_of_le_mul {num den n : Nat} (hden : 0 < den) (h : num ≤ den * n) :
    roundHalfEven num den ≤ n := by
  have := roundHalfEven_mono den h
  rwa [roundHalfEven_mul_left n hden] at this

theorem le_roundHalfEven_of_mul_le {num den n : Nat} (hden : 0 < den) (h : den * n ≤ num) :
    n ≤ roundHalfEven num den := by
  have := roundHalfEven_mono den h
  rwa [roundHalfEven_mul_left n hden] at this

/-- A number within half a unit is the rounded one; at half a unit it has to be even. -/
theorem roundHalfEven_eq {num den n : Nat} (hden : 0 < den) (hlower : 2 * (den * n) ≤ 2 * num + den)
    (hupper : 2 * num ≤ 2 * (den * n) + den)
    (heven : n % 2 = 0 ∨ (2 * (den * n) < 2 * num + den ∧ 2 * num < 2 * (den * n) + den)) :
    roundHalfEven num den = n := by
  have hsplit := Nat.div_add_mod num den
  have hrest := Nat.mod_lt num hden
  have hle : num / den ≤ n := by
    by_contra hlt
    have : den * (n + 1) ≤ den * (num / den) := Nat.mul_le_mul_left den (by omega)
    rw [Nat.mul_add] at this
    omega
  have hge : n ≤ num / den + 1 := by
    by_contra hlt
    have : den * (num / den + 2) ≤ den * n := Nat.mul_le_mul_left den (by omega)
    rw [Nat.mul_add] at this
    omega
  simp only [roundHalfEven]
  rcases Nat.eq_or_lt_of_le hle with rfl | hlt
  · rw [if_pos (by omega)]
  · obtain rfl : n = num / den + 1 := by omega
    rw [Nat.mul_add] at hlower hupper heven
    rw [if_neg (by omega)]

/-- A quotient that is extended is rounded alike. -/
theorem roundHalfEven_mul_right (num den : Nat) {k : Nat} (hk : 0 < k) :
    roundHalfEven (num * k) (den * k) = roundHalfEven num den := by
  have hlt : 2 * (num % den * k) < den * k ↔ 2 * (num % den) < den := by
    rw [← Nat.mul_assoc]
    exact Nat.mul_lt_mul_right hk
  have heq : 2 * (num % den * k) = den * k ↔ 2 * (num % den) = den := by
    rw [← Nat.mul_assoc]
    exact Nat.mul_left_inj hk.ne'
  simp only [roundHalfEven, Nat.mul_div_mul_right num den hk, Nat.mul_mod_mul_right, hlt, heq]

namespace Magnitude

theorem one_pos : 0 < one := by
  unfold one
  positivity

theorem lt_mul_scale (num : Nat) {den : Nat} (hden : 0 < den) :
    num < den * 2 ^ scale num den * 2 ^ 53 := by
  have hlog : num / den < 2 ^ (scale num den + 53) :=
    Nat.lt_of_lt_of_le Nat.lt_log2_self
      (Nat.pow_le_pow_right (by decide) (by unfold scale; omega))
  rw [Nat.div_lt_iff_lt_mul hden, Nat.pow_add] at hlog
  linarith

theorem mul_scale_le {num den : Nat} (h : 0 < scale num den) :
    den * 2 ^ scale num den * 2 ^ 52 ≤ num := by
  have hquotient : num / den ≠ 0 := by
    intro hzero
    simp [scale, hzero] at h
  have hlog : 2 ^ (scale num den + 52) ≤ num / den := by
    rw [show scale num den + 52 = (num / den).log2 by unfold scale at h ⊢; omega]
    exact Nat.log2_self_le hquotient
  have := Nat.mul_le_of_le_div _ _ _ hlog
  rw [Nat.pow_add] at this
  linarith

/-- The significand before a carry out of its 53 bits. -/
def nearestSignificand (num den : Nat) : Nat :=
  roundHalfEven num (den * 2 ^ scale num den)

/-- The nearest number of units, however large. -/
def nearestUnits (num den : Nat) : Nat :=
  nearestSignificand num den * 2 ^ scale num den

theorem nearestSignificand_le (num : Nat) {den : Nat} (hden : 0 < den) :
    nearestSignificand num den ≤ 2 ^ 53 :=
  roundHalfEven_le_of_le_mul (Nat.mul_pos hden (Nat.two_pow_pos _)) (lt_mul_scale num hden).le

theorem le_nearestSignificand {num den : Nat} (hden : 0 < den) (h : 0 < scale num den) :
    2 ^ 52 ≤ nearestSignificand num den :=
  le_roundHalfEven_of_mul_le (Nat.mul_pos hden (Nat.two_pow_pos _)) (mul_scale_le h)

theorem units_lt (x : Magnitude) : x.units < 2 ^ (53 + x.exponent) := by
  rw [units, Nat.pow_add]
  exact Nat.mul_lt_mul_of_pos_right x.significand_lt (Nat.two_pow_pos _)

theorem le_units {x : Magnitude} (h : 0 < x.exponent) : 2 ^ (52 + x.exponent) ≤ x.units := by
  rw [units, Nat.pow_add]
  exact Nat.mul_le_mul_right _ (x.normal.resolve_left (by omega))

/-- No magnitude has as many units. -/
def unitsLimit : Nat := 2 ^ 2098

theorem two_pow_le_unitsLimit {bits : Nat} (h : bits ≤ 2098) : 2 ^ bits ≤ unitsLimit := by
  unfold unitsLimit
  gcongr
  decide

theorem lt_of_two_pow_lt_unitsLimit {bits : Nat} (h : 2 ^ bits < unitsLimit) : bits < 2098 := by
  by_contra hge
  have : unitsLimit ≤ 2 ^ bits := by
    unfold unitsLimit
    gcongr
    · decide
    · omega
  omega

theorem units_lt_limit (x : Magnitude) : x.units < unitsLimit :=
  Nat.lt_of_lt_of_le x.units_lt (two_pow_le_unitsLimit (by have := x.exponent_le; omega))

/-- Each number of units has one form. -/
theorem units_injective {x y : Magnitude} (h : x.units = y.units) : x = y := by
  have hexponent {x y : Magnitude} (h : x.units = y.units) : x.exponent ≤ y.exponent := by
    by_contra hlt
    have hx := le_units (x := x) (by omega)
    have hy := y.units_lt
    have := Nat.pow_le_pow_right (n := 2) (by decide)
      (show 53 + y.exponent ≤ 52 + x.exponent by omega)
    omega
  have he : x.exponent = y.exponent := Nat.le_antisymm (hexponent h) (hexponent h.symm)
  have hs : x.significand = y.significand := by
    rw [units, units, he] at h
    exact Nat.eq_of_mul_eq_mul_right (Nat.two_pow_pos _) h
  cases x
  cases y
  simp_all

theorem units_of_ofParts? {significand exponent : Nat} {x : Magnitude}
    (h : ofParts? significand exponent = some x) : x.units = significand * 2 ^ exponent := by
  unfold ofParts? at h
  split at h
  next =>
    obtain rfl := Option.some.inj h
    rfl
  next => cases h

theorem units_of_ofRatio? {num den : Nat} {x : Magnitude} (h : ofRatio? num den = some x) :
    x.units = nearestUnits num den := by
  unfold ofRatio? at h
  change (if nearestSignificand num den = 2 ^ 53 then _ else
    ofParts? (nearestSignificand num den) _) = some x at h
  split at h
  next hcarry =>
    rw [units_of_ofParts? h, nearestUnits, hcarry]
    ring
  next => rw [units_of_ofParts? h, nearestUnits]

/-- There is a nearest magnitude as long as the units do not need a larger exponent. -/
theorem exists_ofRatio? {num den : Nat} (hden : 0 < den) (h : nearestUnits num den < unitsLimit) :
    ∃ x, ofRatio? num den = some x ∧ x.units = nearestUnits num den := by
  have hle := nearestSignificand_le num hden
  have hfits {bits : Nat} (hbits : 2 ^ bits ≤ nearestUnits num den) : bits < 2098 :=
    lt_of_two_pow_lt_unitsLimit (Nat.lt_of_le_of_lt hbits h)
  have hsome : ∃ x, ofRatio? num den = some x := by
    unfold ofRatio?
    change ∃ x, (if nearestSignificand num den = 2 ^ 53 then _ else
      ofParts? (nearestSignificand num den) _) = some x
    split
    next hcarry =>
      have hexponent : 53 + scale num den < 2098 := by
        apply hfits
        rw [nearestUnits, hcarry, Nat.pow_add]
      exact ⟨_, dif_pos ⟨by decide, .inr le_rfl, by omega⟩⟩
    next hcarry =>
      have hnormal : scale num den = 0 ∨ 2 ^ 52 ≤ nearestSignificand num den := by
        rcases Nat.eq_zero_or_pos (scale num den) with hzero | hpos
        · exact .inl hzero
        · exact .inr (le_nearestSignificand hden hpos)
      have hexponent : scale num den ≤ 2045 := by
        rcases hnormal with hzero | hlarge
        · omega
        · have : 52 + scale num den < 2098 := by
            apply hfits
            rw [nearestUnits, Nat.pow_add]
            exact Nat.mul_le_mul_right _ hlarge
          omega
      exact ⟨_, dif_pos ⟨by omega, hnormal, hexponent⟩⟩
  obtain ⟨x, hx⟩ := hsome
  exact ⟨x, hx, units_of_ofRatio? hx⟩

theorem nearestUnits_mono {num num' den : Nat} (hden : 0 < den) (h : num ≤ num') :
    nearestUnits num den ≤ nearestUnits num' den := by
  have hscale : scale num den ≤ scale num' den := by
    rcases Nat.eq_zero_or_pos (num / den) with hzero | hpos
    · simp [scale, hzero]
    · have hquotient : num / den ≤ num' / den := Nat.div_le_div_right h
      have : (num / den).log2 ≤ (num' / den).log2 :=
        (Nat.le_log2 (by omega)).mpr ((Nat.log2_self_le hpos.ne').trans hquotient)
      unfold scale
      omega
  rcases Nat.eq_or_lt_of_le hscale with heq | hlt
  · rw [nearestUnits, nearestUnits, nearestSignificand, nearestSignificand, heq]
    exact Nat.mul_le_mul_right _ (roundHalfEven_mono _ h)
  · calc nearestUnits num den ≤ 2 ^ 53 * 2 ^ scale num den :=
        Nat.mul_le_mul_right _ (nearestSignificand_le num hden)
      _ = 2 ^ 52 * 2 ^ (scale num den + 1) := by ring
      _ ≤ 2 ^ 52 * 2 ^ scale num' den :=
        Nat.mul_le_mul_left _ (Nat.pow_le_pow_right (by decide) hlt)
      _ ≤ nearestUnits num' den :=
        Nat.mul_le_mul_right _ (le_nearestSignificand hden (by omega))

theorem ofRatio?_mul_right (num den : Nat) {k : Nat} (hk : 0 < k) :
    ofRatio? (num * k) (den * k) = ofRatio? num den := by
  have hscale : scale (num * k) (den * k) = scale num den := by
    rw [scale, scale, Nat.mul_div_mul_right num den hk]
  unfold ofRatio?
  dsimp only
  rw [hscale, Nat.mul_right_comm den k, roundHalfEven_mul_right _ _ hk]

/-- A magnitude has no smaller exponent than the quotient that it is nearest to. -/
theorem scale_le_exponent {x : Magnitude} {num den : Nat} (hden : 0 < den)
    (h : nearestUnits num den = x.units) : scale num den ≤ x.exponent := by
  by_contra hlt
  have hsignificand := le_nearestSignificand hden (show 0 < scale num den by omega)
  have hunits := x.units_lt
  have hle : 2 ^ (52 + scale num den) ≤ x.units := by
    rw [← h, nearestUnits, Nat.pow_add]
    exact Nat.mul_le_mul_right _ hsignificand
  have := Nat.pow_le_pow_right (n := 2) (by decide)
    (show 53 + x.exponent ≤ 52 + scale num den by omega)
  omega

/-- What needs no more than 53 bits is kept. -/
theorem nearestUnits_mul_left {den significand : Nat} (hden : 0 < den)
    (h : significand < 2 ^ 53) (exponent : Nat) :
    nearestUnits (den * (significand * 2 ^ exponent)) den = significand * 2 ^ exponent := by
  have hscale : scale (den * (significand * 2 ^ exponent)) den ≤ exponent := by
    rw [scale, Nat.mul_div_cancel_left _ hden]
    rcases Nat.eq_zero_or_pos significand with rfl | hpos
    · simp
    · have hlt : significand * 2 ^ exponent < 2 ^ (53 + exponent) := by
        rw [Nat.pow_add]
        exact Nat.mul_lt_mul_of_pos_right h (Nat.two_pow_pos _)
      have := (Nat.log2_lt (Nat.mul_pos hpos (Nat.two_pow_pos _)).ne').mpr hlt
      omega
  obtain ⟨k, hk⟩ := Nat.exists_eq_add_of_le hscale
  rw [nearestUnits, nearestSignificand]
  generalize scale _ _ = e at hk
  subst hk
  have hmul : den * (significand * 2 ^ (e + k)) = den * 2 ^ e * (significand * 2 ^ k) := by
    rw [Nat.pow_add]
    ring
  rw [hmul, roundHalfEven_mul_left _ (Nat.mul_pos hden (Nat.two_pow_pos _)), Nat.pow_add]
  ring

theorem nearestUnits_mul_units {den : Nat} (hden : 0 < den) (x : Magnitude) :
    nearestUnits (den * x.units) den = x.units :=
  nearestUnits_mul_left hden x.significand_lt x.exponent

theorem nearestUnits_le {num den : Nat} {x : Magnitude} (hden : 0 < den)
    (h : num ≤ den * x.units) : nearestUnits num den ≤ x.units := by
  have := nearestUnits_mono hden h
  rwa [nearestUnits_mul_units hden] at this

def largest : Magnitude where
  significand := 2 ^ 53 - 1
  exponent := 2045
  significand_lt := by decide
  normal := .inr (by decide)
  exponent_le := by decide

theorem units_le_largest (x : Magnitude) : x.units ≤ largest.units :=
  Nat.mul_le_mul (Nat.le_sub_one_of_lt x.significand_lt)
    (Nat.pow_le_pow_right (by decide) x.exponent_le)

theorem one_dvd_units_largest : one ∣ largest.units := by
  refine ⟨(2 ^ 53 - 1) * 2 ^ 971, ?_⟩
  unfold units largest one
  rw [Nat.mul_left_comm, ← Nat.pow_add]

theorem nearestUnits_lt_limit {num den : Nat} (hden : 0 < den) (h : num ≤ den * largest.units) :
    nearestUnits num den < unitsLimit :=
  Nat.lt_of_le_of_lt (nearestUnits_le hden h) largest.units_lt_limit

/-- How many quarters of a step the lower bound is below the value. -/
def gapBelow (x : Magnitude) : Nat :=
  if x.significand = 2 ^ 52 ∧ 0 < x.exponent then 1 else 2

theorem gapBelow_le (x : Magnitude) : x.gapBelow ≤ 2 := by
  unfold gapBelow
  split <;> decide

theorem gapBelow_pos (x : Magnitude) : 0 < x.gapBelow := by
  unfold gapBelow
  split <;> decide

theorem lowerBound_eq (x : Magnitude) :
    x.lowerBound = (4 * x.significand - x.gapBelow) * 2 ^ x.exponent := by
  unfold lowerBound gapBelow
  split <;> rfl

theorem le_lowerBound_mul (x : Magnitude) (den : Nat) :
    4 * (den * 2 ^ x.exponent * x.significand) ≤
      x.lowerBound * den + x.gapBelow * (den * 2 ^ x.exponent) := by
  calc 4 * (den * 2 ^ x.exponent * x.significand)
      = 4 * x.significand * (den * 2 ^ x.exponent) := by ring
    _ ≤ (4 * x.significand - x.gapBelow + x.gapBelow) * (den * 2 ^ x.exponent) :=
      Nat.mul_le_mul_right _ (by omega)
    _ = x.lowerBound * den + x.gapBelow * (den * 2 ^ x.exponent) := by rw [lowerBound_eq]; ring

theorem lowerBound_mul {x : Magnitude} (hx : 0 < x.significand) (den : Nat) :
    x.lowerBound * den + x.gapBelow * (den * 2 ^ x.exponent) =
      4 * (den * 2 ^ x.exponent * x.significand) := by
  have hgap := x.gapBelow_le
  calc x.lowerBound * den + x.gapBelow * (den * 2 ^ x.exponent)
      = (4 * x.significand - x.gapBelow + x.gapBelow) * (den * 2 ^ x.exponent) := by
        rw [lowerBound_eq]
        ring
    _ = 4 * (den * 2 ^ x.exponent * x.significand) := by
        rw [Nat.sub_add_cancel (by omega)]
        ring

theorem upperBound_mul (x : Magnitude) (den : Nat) :
    x.upperBound * den =
      4 * (den * 2 ^ x.exponent * x.significand) + 2 * (den * 2 ^ x.exponent) := by
  unfold upperBound
  ring

/-- A quotient with an exponent below that of `x` is less than the least value of that exponent;
between the bounds it can only be rounded up to it. -/
private theorem nearestUnits_of_scale_lt {x : Magnitude} {num den : Nat} (hden : 0 < den)
    (hscale : scale num den < x.exponent) (hlower : x.lowerBound * den ≤ 4 * num) :
    nearestUnits num den = x.units := by
  have hnum := lt_mul_scale num hden
  have hgap := le_lowerBound_mul x den
  have hnormal : 2 ^ 52 ≤ x.significand := x.normal.resolve_left (by omega)
  have hunit : 0 < den * 2 ^ scale num den := Nat.mul_pos hden (Nat.two_pow_pos _)
  obtain ⟨k, hk⟩ := Nat.exists_eq_add_of_lt hscale
  have hstep : den * 2 ^ x.exponent = den * 2 ^ scale num den * 2 ^ k * 2 := by
    rw [hk, Nat.pow_succ, Nat.pow_add]
    ring
  have hwide : den * 2 ^ scale num den ≤ den * 2 ^ scale num den * 2 ^ k :=
    Nat.le_mul_of_pos_right _ (Nat.two_pow_pos _)
  have hsignificand := Nat.mul_le_mul_left (den * 2 ^ scale num den * 2 ^ k * 2) hnormal
  rw [hstep] at hgap
  have hnarrow : x.significand = 2 ^ 52 := by
    by_contra hne
    have := Nat.mul_le_mul_left (den * 2 ^ scale num den * 2 ^ k * 2)
      (show 2 ^ 52 + 1 ≤ x.significand by omega)
    rw [gapBelow, if_neg (fun h => hne h.1)] at hgap
    omega
  rw [gapBelow, if_pos ⟨hnarrow, by omega⟩, hnarrow] at hgap
  obtain rfl : k = 0 := by
    by_contra hne
    have : den * 2 ^ scale num den * 2 ^ 1 ≤ den * 2 ^ scale num den * 2 ^ k :=
      Nat.mul_le_mul_left _ (Nat.pow_le_pow_right (by decide) (by omega))
    omega
  have hround : nearestSignificand num den = 2 ^ 53 := by
    apply roundHalfEven_eq hunit
    · omega
    · omega
    · exact .inl (by decide)
  rw [nearestUnits, hround, units, hnarrow, hk, Nat.pow_succ]
  ring

/-- Between the bounds of a magnitude, which belong to it if its significand is even, that is the
nearest one. -/
theorem nearestUnits_of_between {x : Magnitude} {num den : Nat} (hden : 0 < den)
    (hlower : x.lowerBound * den ≤ 4 * num) (hupper : 4 * num ≤ x.upperBound * den)
    (heven : x.significand % 2 = 0 ∨
      (x.lowerBound * den < 4 * num ∧ 4 * num < x.upperBound * den)) :
    nearestUnits num den = x.units := by
  have hgap := le_lowerBound_mul x den
  rw [upperBound_mul] at hupper heven
  have hunit : 0 < den * 2 ^ x.exponent := Nat.mul_pos hden (Nat.two_pow_pos _)
  have hgap_le : x.gapBelow * (den * 2 ^ x.exponent) ≤ 2 * (den * 2 ^ x.exponent) :=
    Nat.mul_le_mul_right _ x.gapBelow_le
  rcases Nat.lt_trichotomy (scale num den) x.exponent with hlt | heq | hgt
  · exact nearestUnits_of_scale_lt hden hlt hlower
  · rw [nearestUnits, nearestSignificand, heq, units]
    congr 1
    apply roundHalfEven_eq hunit
    · omega
    · omega
    · omega
  · -- a larger exponent would need a larger quotient
    have hnum : den * 2 ^ scale num den * 2 ^ 52 ≤ num := mul_scale_le (by omega)
    obtain ⟨k, hk⟩ := Nat.exists_eq_add_of_lt hgt
    have hstep : den * 2 ^ x.exponent * 2 ^ 53 ≤ den * 2 ^ scale num den * 2 ^ 52 := by
      rw [hk, Nat.mul_assoc, Nat.mul_assoc, ← Nat.pow_add, ← Nat.pow_add]
      exact Nat.mul_le_mul_left _ (Nat.pow_le_pow_right (by decide) (by omega))
    have hsignificand := Nat.mul_le_mul_left (den * 2 ^ x.exponent)
      (Nat.le_sub_one_of_lt x.significand_lt)
    omega

end Magnitude

namespace Binary64

open Magnitude

theorem exists_ofRatio (negative : Bool) {num den : Nat} (hden : 0 < den)
    (h : nearestUnits num den < unitsLimit) :
    ∃ x, ofRatio negative num den = finite negative x ∧ x.units = nearestUnits num den := by
  obtain ⟨x, hx, hunits⟩ := exists_ofRatio? hden h
  refine ⟨x, ?_, hunits⟩
  unfold ofRatio
  rw [hx]

theorem ofRatio_eq {num den : Nat} {x : Magnitude} (negative : Bool) (hden : 0 < den)
    (h : nearestUnits num den = x.units) : ofRatio negative num den = finite negative x := by
  obtain ⟨y, hy, hunits⟩ := exists_ofRatio negative hden (by rw [h]; exact x.units_lt_limit)
  rw [hy, units_injective (hunits.trans h)]

theorem nearestUnits_of_ofRatio {negative sign : Bool} {num den : Nat} {x : Magnitude}
    (h : ofRatio negative num den = finite sign x) : nearestUnits num den = x.units := by
  unfold ofRatio at h
  split at h
  next y hy =>
    obtain ⟨-, rfl⟩ := finite.inj h
    exact (units_of_ofRatio? hy).symm
  next => cases h

theorem ofRatio_mul_right (negative : Bool) (num den : Nat) {k : Nat} (hk : 0 < k) :
    ofRatio negative (num * k) (den * k) = ofRatio negative num den := by
  unfold ofRatio
  rw [ofRatio?_mul_right num den hk]

theorem ofRatio_zero (negative : Bool) {den : Nat} (hden : 0 < den) :
    ofRatio negative 0 den = zero negative :=
  ofRatio_eq negative hden (nearestUnits_mul_units hden .zero)

theorem neg_ofRatio (negative : Bool) (num den : Nat) :
    (ofRatio negative num den).neg = ofRatio (!negative) num den := by
  unfold ofRatio
  cases ofRatio? num den <;> rfl

theorem ofDecimal_natCast (negative : Bool) (digits : Nat) {exponent : Nat}
    (h : exponent ≤ 310) :
    ofDecimal negative digits exponent = ofRatio negative (digits * 10 ^ exponent * one) 1 := by
  unfold ofDecimal
  rcases Nat.eq_zero_or_pos digits with rfl | hpos
  · rw [if_pos (.inl rfl), Nat.zero_mul, Nat.zero_mul]
    rfl
  · rw [if_neg (by omega), if_neg (by omega)]

theorem ofDecimal_neg_natCast (negative : Bool) (digits : Nat) {places : Nat}
    (h : places ≤ 330) :
    ofDecimal negative digits (-places) = ofRatio negative (digits * one) (10 ^ places) := by
  unfold ofDecimal
  rcases Nat.eq_zero_or_pos digits with rfl | hpos
  · rw [if_pos (.inl rfl), Nat.zero_mul, ofRatio_zero negative (Nat.pow_pos (by decide))]
  · rw [if_neg (by omega), if_neg (by omega)]
    cases places with
    | zero => simp
    | succ p => rfl

end Binary64

end Reckoner
