import Reckoner.Proofs.Binary64.Value

/-! Rounding gives the nearest value. Only halfway between two values is another one as near; its
significand is odd then, and that of the value taken is even. -/
namespace Reckoner

/-- A whole number as near to a quotient as the rounded one is odd where that is even. -/
theorem abs_sub_roundHalfEven_le_abs_sub (num n : Nat) {den : Nat} (hden : 0 < den) :
    |(num : ℚ) / den - roundHalfEven num den| ≤ |(num : ℚ) / den - n| ∧
      (|(num : ℚ) / den - roundHalfEven num den| = |(num : ℚ) / den - n| →
        n = roundHalfEven num den ∨ (roundHalfEven num den % 2 = 0 ∧ n % 2 = 1)) := by
  have hnear := abs_sub_roundHalfEven_le num hden
  have heven := even_roundHalfEven num hden
  generalize (num : ℚ) / den = q at *
  generalize roundHalfEven num den = m at *
  by_cases hne : n = m
  · subst hne
    exact ⟨le_rfl, fun _ => .inl rfl⟩
  have hapart : (1 : ℚ) ≤ |(n : ℚ) - m| := by
    have : (1 : ℤ) ≤ |(n : ℤ) - m| := Int.one_le_abs (by omega)
    exact_mod_cast this
  have htriangle : |(n : ℚ) - m| ≤ |q - m| + |q - n| := by
    have := abs_sub_le (n : ℚ) q m
    rw [abs_sub_comm (n : ℚ) q] at this
    linarith
  refine ⟨by linarith, fun heq => .inr ?_⟩
  have hm := heven (by linarith)
  have hclose : |(n : ℤ) - m| ≤ 1 := by
    have : |(n : ℚ) - m| ≤ 1 := by linarith
    exact_mod_cast this
  rw [abs_le] at hclose
  omega

namespace Magnitude

attribute [local irreducible] one

/-- In steps of the quotient's last place, a magnitude is a whole number, unless it is below all
that the quotient can be rounded to. -/
theorem exists_steps (y : Magnitude) (num den : Nat) :
    (∃ k, y.units = y.significand * 2 ^ k * 2 ^ scale num den) ∨
      (y.units < 2 ^ 52 * 2 ^ scale num den ∧ den * (2 ^ 52 * 2 ^ scale num den) ≤ num) := by
  rcases Nat.lt_or_ge y.exponent (scale num den) with hlt | hge
  · right
    constructor
    · calc y.units < 2 ^ (53 + y.exponent) := y.units_lt
        _ ≤ 2 ^ (52 + scale num den) := Nat.pow_le_pow_right (by decide) (by omega)
        _ = 2 ^ 52 * 2 ^ scale num den := Nat.pow_add ..
    · calc den * (2 ^ 52 * 2 ^ scale num den) = den * 2 ^ scale num den * 2 ^ 52 := by ring
        _ ≤ num := mul_scale_le (by omega)
  · left
    obtain ⟨k, hk⟩ := Nat.exists_eq_add_of_le hge
    exact ⟨k, by rw [units, hk, Nat.pow_add]; ring⟩

/-- No magnitude is nearer to a quotient than the nearest one is, and one as near is odd where that
is even. -/
theorem abs_sub_nearestUnits_le_abs_sub (num : Nat) {den : Nat} (hden : 0 < den)
    (y : Magnitude) :
    |(num : ℚ) / den - nearestUnits num den| ≤ |(num : ℚ) / den - y.units| ∧
      (|(num : ℚ) / den - nearestUnits num den| = |(num : ℚ) / den - y.units| →
        y.units = nearestUnits num den ∨
          (nearestSignificand num den % 2 = 0 ∧ y.significand % 2 = 1)) := by
  have hstep : (0 : ℚ) < 2 ^ scale num den := by positivity
  have hround (n : Nat) := abs_sub_roundHalfEven_le_abs_sub num n
    (Nat.mul_pos hden (Nat.two_pow_pos (scale num den)))
  -- all distances in steps of the last place
  have hscaled (n : Nat) : |(num : ℚ) / den - (n * 2 ^ scale num den : Nat)| =
      |(num : ℚ) / (den * 2 ^ scale num den : Nat) - n| * 2 ^ scale num den := by
    push_cast
    rw [abs_sub_mul_step hstep, div_div]
  have hnearest : |(num : ℚ) / den - nearestUnits num den| =
      |(num : ℚ) / (den * 2 ^ scale num den : Nat) - nearestSignificand num den| *
        2 ^ scale num den := hscaled _
  rw [hnearest]
  rcases y.exists_steps num den with ⟨k, hk⟩ | ⟨hbelow, habove⟩
  · obtain ⟨hle, htie⟩ := hround (y.significand * 2 ^ k)
    rw [hk, hscaled]
    refine ⟨mul_le_mul_of_nonneg_right hle hstep.le, fun heq => ?_⟩
    rcases htie (mul_right_cancel₀ hstep.ne' heq) with hsame | ⟨heven, hodd⟩
    · exact .inl (by rw [hsame]; rfl)
    · exact .inr ⟨heven, Nat.odd_iff.mp (Nat.odd_mul.mp (Nat.odd_iff.mpr hodd)).1⟩
  · have hden' : (0 : ℚ) < den := by exact_mod_cast hden
    have hlow : (y.units : ℚ) < (2 ^ 52 * 2 ^ scale num den : Nat) := by exact_mod_cast hbelow
    have hhigh : ((2 ^ 52 * 2 ^ scale num den : Nat) : ℚ) ≤ num / den := by
      rw [le_div_iff₀ hden', mul_comm]
      exact_mod_cast habove
    have hlt : |(num : ℚ) / den - (2 ^ 52 * 2 ^ scale num den : Nat)| <
        |(num : ℚ) / den - y.units| := by
      rw [abs_of_nonneg (sub_nonneg.mpr hhigh), abs_of_nonneg (sub_nonneg.mpr (hlow.le.trans hhigh))]
      exact sub_lt_sub_left hlow _
    have hle := (mul_le_mul_of_nonneg_right (hround (2 ^ 52)).1 hstep.le).trans_eq
      (hscaled (2 ^ 52)).symm
    exact ⟨(hle.trans_lt hlt).le, fun heq => absurd heq (hle.trans_lt hlt).ne⟩

theorem even_significand_of_ofRatio? {num den : Nat} {x : Magnitude}
    (h : ofRatio? num den = some x) (heven : nearestSignificand num den % 2 = 0) :
    x.significand % 2 = 0 := by
  have hparts {significand exponent : Nat} (h : ofParts? significand exponent = some x) :
      x.significand = significand := by
    unfold ofParts? at h
    split at h
    next => rw [← Option.some.inj h]
    next => cases h
  unfold ofRatio? at h
  change (if nearestSignificand num den = 2 ^ 53 then _ else
    ofParts? (nearestSignificand num den) _) = some x at h
  split at h
  next => rw [hparts h]; decide
  next => rw [hparts h, heven]

end Magnitude

namespace Binary64

attribute [local irreducible] Magnitude.one

def hasEvenSignificand : Binary64 → Bool
  | finite _ x => x.significand % 2 = 0
  | _ => false

/-- Whether a finite value is the nearest one to a number; halfway between two values, the one with
the even significand. -/
def IsNearest (r : ℚ) (a : Binary64) : Prop :=
  ∃ q, a.toRat? = some q ∧ ∀ (b : Binary64) (q' : ℚ), b.toRat? = some q' →
    |r - q| ≤ |r - q'| ∧ (|r - q| = |r - q'| → q = q' ∨ a.hasEvenSignificand)

theorem isNearest_self {a : Binary64} {q : ℚ} (h : a.toRat? = some q) : IsNearest q a := by
  refine ⟨q, h, fun b q' _ => ?_⟩
  rw [sub_self, abs_zero]
  exact ⟨abs_nonneg _, fun heq => .inl (sub_eq_zero.mp (abs_eq_zero.mp heq.symm))⟩

variable {s : Bool} {num den : Nat} {x : Magnitude}

/-- No value is nearer to the number than what rounding takes. One as near is the same number, or it
is odd and what is taken is even. -/
theorem near_of_ofRatio (hden : 0 < den) (h : ofRatio s num den = finite s x) {b : Binary64}
    {q' : ℚ} (hb : b.toRat? = some q') :
    |signedRat s (num / den / Magnitude.one) - signedRat s x.toRat| ≤
        |signedRat s (num / den / Magnitude.one) - q'| ∧
      (|signedRat s (num / den / Magnitude.one) - signedRat s x.toRat| =
          |signedRat s (num / den / Magnitude.one) - q'| →
        signedRat s x.toRat = q' ∨
          ((finite s x).hasEvenSignificand ∧ ¬ b.hasEvenSignificand)) := by
  obtain ⟨t, y, rfl, rfl⟩ := exists_toRat?_eq hb
  have hone : (0 : ℚ) < Magnitude.one := by exact_mod_cast Magnitude.one_pos
  have hofRatio : Magnitude.ofRatio? num den = some x := by
    unfold ofRatio at h
    split at h
    next z hz => rw [hz, (finite.inj h).2]
    next => cases h
  have hunits := Magnitude.units_of_ofRatio? hofRatio
  have hdistance (z : Magnitude) : |(num : ℚ) / den / Magnitude.one - z.toRat| =
      |(num : ℚ) / den - z.units| / Magnitude.one := by
    rw [Magnitude.toRat, ← sub_div, abs_div, abs_of_pos hone]
  have hnear (z : Magnitude) := Magnitude.abs_sub_nearestUnits_le_abs_sub num hden z
  simp only [← hunits] at hnear
  have hle (z : Magnitude) : |(num : ℚ) / den / Magnitude.one - x.toRat| ≤
      |(num : ℚ) / den / Magnitude.one - z.toRat| := by
    rw [hdistance, hdistance]
    exact div_le_div_of_nonneg_right (hnear z).1 hone.le
  have hq : (0 : ℚ) ≤ num / den / Magnitude.one := by positivity
  -- a value of the other sign is no nearer than the one of this sign
  obtain ⟨hsigns, hsigns_eq⟩ := abs_sub_le_abs_signedRat_sub hq y.toRat_nonneg s t
  rw [abs_signedRat_sub]
  refine ⟨(hle y).trans hsigns, fun heq => ?_⟩
  have hboth : |(num : ℚ) / den / Magnitude.one - x.toRat| =
      |(num : ℚ) / den / Magnitude.one - y.toRat| :=
    le_antisymm (hle y) (hsigns.trans_eq heq.symm)
  have htie : |(num : ℚ) / den - x.units| = |(num : ℚ) / den - y.units| := by
    rw [hdistance, hdistance] at hboth
    exact (div_left_inj' hone.ne').mp hboth
  rcases (hnear y).2 htie with hsame | ⟨heven, hodd⟩
  · left
    obtain rfl := Magnitude.units_injective hsame
    rcases hsigns_eq heq with rfl | hzero | hzero
    · rfl
    · have hleast := hle .zero
      rw [hzero, Magnitude.toRat_of_isZero (x := .zero) rfl, sub_zero, abs_zero, zero_sub,
        abs_neg, abs_of_nonneg y.toRat_nonneg] at hleast
      rw [le_antisymm hleast y.toRat_nonneg, signedRat_zero, signedRat_zero]
    · rw [hzero, signedRat_zero, signedRat_zero]
  · right
    have hxeven := Magnitude.even_significand_of_ofRatio? hofRatio heven
    simp [hasEvenSignificand, hxeven, hodd]

theorem isNearest_of_ofRatio (hden : 0 < den) (h : ofRatio s num den = finite s x) :
    IsNearest (signedRat s (num / den / Magnitude.one)) (finite s x) := by
  refine ⟨_, rfl, fun b q' hb => ?_⟩
  obtain ⟨hle, htie⟩ := near_of_ofRatio hden h hb
  exact ⟨hle, fun heq => (htie heq).imp_right And.left⟩

/-- There is no other nearest value, but for the sign of zero. -/
theorem equals_of_isNearest (hden : 0 < den) (h : ofRatio s num den = finite s x) {b : Binary64}
    (hb : IsNearest (signedRat s (num / den / Magnitude.one)) b) : (finite s x).Equals b := by
  obtain ⟨q', hvalue, hnearest⟩ := hb
  obtain ⟨hle, htie⟩ := near_of_ofRatio hden h hvalue
  obtain ⟨hle', htie'⟩ := hnearest (finite s x) _ rfl
  have heq := le_antisymm hle hle'
  -- of two that are as near, not each can be even where the other is odd
  have hsame : signedRat s x.toRat = q' := by
    rcases htie heq with hsame | ⟨-, hodd⟩
    · exact hsame
    · exact ((htie' heq.symm).resolve_right hodd).symm
  obtain ⟨t, y, rfl, rfl⟩ := exists_toRat?_eq hvalue
  exact equals_iff_toRat?.mpr (congrArg some hsame)

end Binary64

end Reckoner
