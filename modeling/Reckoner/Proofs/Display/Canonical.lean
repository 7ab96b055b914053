import Mathlib.Data.List.DropRight
import Reckoner.Proofs.Display.PlainReading

/-! Which values have the same plain digits: those that round to the same decimal of ten places, if
they also have the same sign where that decimal is zero. The digits are laid out in two ways, and
where both can be used they give the same text. -/
namespace Reckoner.Display

attribute [local irreducible] Magnitude.one

/-- Drops the zeros at the end of a text with a point, and the point if it comes last then. -/
def trimZeros (text : List Char) : List Char :=
  if '.' ∈ text then (dropTrailingZeros text).rdropWhile (· == '.') else text

theorem rdropWhile_point {text : List Char} (h : text.getLast? ≠ some '.') :
    text.rdropWhile (· == '.') = text := by
  rw [List.rdropWhile_eq_self_iff]
  intro hne hpoint
  rw [List.getLast?_eq_getLast_of_ne_nil hne, eq_of_beq hpoint] at h
  exact h rfl

/-- A fraction of zeros goes with its point, and another keeps its digits up to the last one that
is not zero. -/
theorem trimZeros_append_point {whole digits : List Char} (hwhole : '.' ∉ whole)
    (hdigits : ∀ c ∈ digits, c.isDigit) :
    trimZeros (whole ++ '.' :: digits) = whole ++ fractionText digits := by
  have hkept : '.' ∉ dropTrailingZeros digits := fun h =>
    absurd (isDigit_of_mem_dropTrailingZeros hdigits _ h) (by decide)
  unfold trimZeros fractionText
  rw [if_pos (by simp), dropTrailingZeros_append_point]
  generalize dropTrailingZeros digits = kept at hkept
  cases kept with
  | nil =>
    rw [List.rdropWhile_concat_pos _ _ _ (by decide), List.append_nil]
    exact rdropWhile_point fun h => hwhole (List.mem_of_getLast? h)
  | cons digit rest =>
    apply rdropWhile_point
    rw [List.getLast?_append, List.getLast?_cons_cons]
    intro h
    exact hkept (List.mem_of_getLast? (by simpa using h))

/-- All the digits of a decimal, zeros at its end too. -/
def allPlaces (d : Decimal) : List Char :=
  Nat.toDigits 10 d.whole ++ '.' :: d.fraction

theorem trimZeros_signed_allPlaces (negative : Bool) (d : Decimal) :
    trimZeros (signed negative (allPlaces d)) = signed negative d.positional := by
  have hpoint : '.' ∉ Nat.toDigits 10 d.whole := fun h =>
    absurd (isDigit_of_mem_toDigits d.whole _ h) (by decide)
  cases negative with
  | false => exact trimZeros_append_point hpoint d.isDigit_of_mem_fraction
  | true =>
    have hminus : '.' ∉ '-' :: Nat.toDigits 10 d.whole := by simp [hpoint]
    exact trimZeros_append_point hminus d.isDigit_of_mem_fraction

/-- The digits of an integer. -/
def integerText (n : Int) : List Char :=
  signed (n < 0) (Nat.toDigits 10 n.natAbs)

/-- The plain digits as they are laid out: those of an integer for a whole number below
`10 ^ 15`, and ten places without the zeros at their end for other values. -/
def laidOut : Binary64 → List Char
  | .nan => "NaN".toList
  | .infinite negative => signed negative "inf".toList
  | .finite negative x =>
    if Magnitude.one ∣ x.units ∧ x.units < 10 ^ 15 * Magnitude.one then
      let n : Int := (x.units / Magnitude.one : Nat)
      integerText (if negative then -n else n)
    else trimZeros (signed negative (allPlaces (plainDecimal x)))

theorem positional_plainDecimal_of_dvd {x : Magnitude} (h : Magnitude.one ∣ x.units) :
    (plainDecimal x).positional = Nat.toDigits 10 (x.units / Magnitude.one) := by
  obtain ⟨n, hn⟩ := h
  have hcoefficient : (plainDecimal x).coefficient = n * 10 ^ 10 := by
    rw [plainDecimal, Magnitude.coefficient_fixed_ten, Magnitude.tenthPlaceSteps, hn,
      Nat.mul_assoc, roundHalfEven_mul_left _ Magnitude.one_pos]
  have hneg : (plainDecimal x).exponent < 0 := show (-10 : Int) < 0 by decide
  have hplaces : (-(plainDecimal x).exponent).toNat = 10 := rfl
  rw [Decimal.positional, Decimal.whole_of_neg hneg, Decimal.fraction_of_neg hneg, hplaces,
    hcoefficient, Nat.mul_div_cancel _ (by decide), Nat.mul_mod_left, hn,
    Nat.mul_div_cancel_left _ Magnitude.one_pos,
    show fractionText (paddedDigits 10 0) = [] by decide, List.append_nil]

theorem signed_writesMinus_eq_integerText {negative : Bool} {x : Magnitude} {n : Nat}
    (hn : x.units = Magnitude.one * n) :
    signed (writesMinus negative x) (Nat.toDigits 10 n) =
      integerText (if negative then -n else n) := by
  have hzero : x.isZero = decide (n = 0) := by
    rw [Bool.eq_iff_iff, Magnitude.isZero_iff, hn, Nat.mul_eq_zero,
      or_iff_right Magnitude.one_pos.ne', decide_eq_true_iff]
  have hsign : writesMinus negative x = decide ((if negative then -(n : Int) else n) < 0) := by
    rw [writesMinus, hzero]
    cases negative with
    | true => simp [Nat.pos_iff_ne_zero]
    | false => simp
  have habs : (if negative then -(n : Int) else n).natAbs = n := by
    cases negative <;> simp
  rw [integerText, hsign, habs]

theorem plain_eq_laidOut (v : Binary64) : plain v = laidOut v := by
  cases v with
  | nan => rfl
  | infinite negative => rfl
  | finite negative x =>
    rw [plain_finite, laidOut]
    split
    next h =>
      rw [positional_plainDecimal_of_dvd h.1]
      exact signed_writesMinus_eq_integerText (Nat.mul_div_cancel' h.1).symm
    next h =>
      -- zero is laid out as an integer, which is where its sign is lost
      have hx : x.isZero = false := by
        by_contra hzero
        rw [Bool.not_eq_false, Magnitude.isZero_iff] at hzero
        rw [hzero] at h
        exact h ⟨Nat.dvd_zero _, Nat.mul_pos (by decide) Magnitude.one_pos⟩
      rw [trimZeros_signed_allPlaces, writesMinus, hx, Bool.not_false, Bool.and_true]

variable {s t : Bool} {x y : Magnitude}

theorem writesMinus_eq_of_plain_eq (h : plain (.finite s x) = plain (.finite t y)) :
    writesMinus s x = writesMinus t y := by
  rw [plain_finite, plain_finite] at h
  rw [Bool.eq_iff_iff, ← head?_signed (isPlain_positional (plainDecimal x)).isDigit_of_mem_head?,
    h, head?_signed (isPlain_positional (plainDecimal y)).isDigit_of_mem_head?]

/-- The text is determined by what it is worth and by its sign. -/
theorem plain_finite_eq_iff :
    plain (.finite s x) = plain (.finite t y) ↔
      plainRat s x = plainRat t y ∧ writesMinus s x = writesMinus t y := by
  constructor
  · intro h
    have hexact := exactValue?_plain s x
    rw [h, exactValue?_plain] at hexact
    exact ⟨(Option.some.inj hexact).symm, writesMinus_eq_of_plain_eq h⟩
  · rintro ⟨hrat, hsign⟩
    rw [plainRat, plainRat, hsign, signedRat_inj] at hrat
    have hdecimal : plainDecimal x = plainDecimal y := Decimal.eq_of_toRat_eq rfl hrat
    rw [plain_finite, plain_finite, hsign, hdecimal]

theorem isNearestMultiple_iff_plainRat {r : ℚ} :
    IsNearestMultiple (10 ^ (-10 : ℤ)) (signedRat s x.toRat) r ↔ plainRat s x = r := by
  constructor
  · exact (isNearestMultiple_plainRat s x).unique (Decimal.ten_zpow_pos _)
  · rintro rfl
    exact isNearestMultiple_plainRat s x

theorem plainRat_eq_zero_iff : plainRat s x = 0 ↔ (plainDecimal x).toRat = 0 := by
  have hzero := signedRat_zero (writesMinus s x)
  rw [plainRat]
  exact ⟨fun h => (signedRat_inj _).mp (h.trans hzero.symm), fun h => h ▸ hzero⟩

theorem plain_of_plainRat_eq_zero (h : plainRat s x = 0) :
    plain (.finite s x) = signed (writesMinus s x) ['0'] := by
  have hexponent : (plainDecimal x).exponent = -10 := rfl
  have hdecimal : plainDecimal x = ⟨0, -10⟩ := by
    refine Decimal.eq_of_toRat_eq hexponent ?_
    rw [plainRat_eq_zero_iff.mp h, Decimal.toRat, Nat.cast_zero, zero_mul]
  rw [plain_finite, hdecimal]
  rfl

/-- A decimal that is not zero has the sign that is written before it. -/
theorem plainRat_lt_zero_iff (h : plainRat s x ≠ 0) : plainRat s x < 0 ↔ writesMinus s x := by
  have hne : (plainDecimal x).toRat ≠ 0 := mt plainRat_eq_zero_iff.mpr h
  have hnonneg : 0 ≤ (plainDecimal x).toRat := by
    unfold Decimal.toRat
    positivity
  exact signedRat_lt_zero _ (lt_of_le_of_ne hnonneg hne.symm)

/-- Two finite values have the same plain digits exactly if one multiple of `10 ^ (-10)` is nearest
to both, and, where that is zero, both or neither of the two are negative: a value that is rounded
to zero keeps its minus sign. The digits are those of either way of laying them out. -/
theorem plain_eq_plain_iff {v w : Binary64} {q q' : ℚ} (hv : v.toRat? = some q)
    (hw : w.toRat? = some q') :
    (plain v = plain w ↔
      ∃ r, IsNearestMultiple (10 ^ (-10 : ℤ)) q r ∧ IsNearestMultiple (10 ^ (-10 : ℤ)) q' r ∧
        (r = 0 → (q < 0 ↔ q' < 0))) ∧
      (IsNearestMultiple (10 ^ (-10 : ℤ)) q 0 → plain v = signed (q < 0) ['0']) ∧
      plain v = laidOut v := by
  obtain ⟨s, x, rfl, rfl⟩ := Binary64.exists_toRat?_eq hv
  obtain ⟨t, y, rfl, rfl⟩ := Binary64.exists_toRat?_eq hw
  refine ⟨?_, fun hzero => ?_, plain_eq_laidOut _⟩
  · simp only [plain_finite_eq_iff, isNearestMultiple_iff_plainRat,
      signedRat_lt_zero_iff_writesMinus, ← Bool.eq_iff_iff]
    constructor
    · rintro ⟨hrat, hsign⟩
      exact ⟨_, rfl, hrat.symm, fun _ => hsign⟩
    · rintro ⟨r, rfl, hrat, hsign⟩
      refine ⟨hrat.symm, ?_⟩
      by_cases hzero : plainRat s x = 0
      · exact hsign hzero
      · rw [Bool.eq_iff_iff, ← plainRat_lt_zero_iff hzero, ← hrat,
          plainRat_lt_zero_iff (hrat ▸ hzero)]
  · rw [plain_of_plainRat_eq_zero (isNearestMultiple_iff_plainRat.mp hzero),
      Bool.eq_iff_iff.mpr
        (decide_eq_true_iff.trans (signedRat_lt_zero_iff_writesMinus s x))]

/-- A whole number and a value just above it meet in the digits of the whole number. -/
theorem plain_three_eq_plain_above :
    (Binary64.ofBits 0x4008000000000000).toRat? = some 3 ∧
      (Binary64.ofBits 0x40080000000057F6).toRat? = some (3 + 11259 / 2 ^ 50) ∧
      plain (.ofBits 0x4008000000000000) = plain (.ofBits 0x40080000000057F6) := by
  have hv : (Binary64.ofBits 0x4008000000000000).toRat? = some 3 := by decide +kernel
  have hw : (Binary64.ofBits 0x40080000000057F6).toRat? = some (3 + 11259 / 2 ^ 50) := by
    decide +kernel
  have habove : IsNearestMultiple (10 ^ (-10 : ℤ)) (3 + 11259 / 2 ^ 50) 3 := by
    refine ⟨3 * 10 ^ 10, by norm_num, ?_, fun h => absurd h ?_⟩ <;> norm_num [abs_of_pos]
  exact ⟨hv, hw, (plain_eq_plain_iff hv hw).1.mpr
    ⟨3, isNearestMultiple_intCast 3, habove, fun h => absurd h (by norm_num)⟩⟩

/-- Zero is nearest to both, and only one of the two texts is that of zero. -/
theorem plain_ne_plain_zero :
    (Binary64.ofBits 0xBDB0000000000000).toRat? = some (-1 / 2 ^ 36) ∧
      (Binary64.ofBits 0).toRat? = some 0 ∧
      IsNearestMultiple (10 ^ (-10 : ℤ)) (-1 / 2 ^ 36) 0 ∧
      IsNearestMultiple (10 ^ (-10 : ℤ)) 0 0 ∧
      plain (.ofBits 0xBDB0000000000000) = "-0".toList ∧
      plain (.ofBits 0) = "0".toList := by
  refine ⟨by decide +kernel, by decide +kernel, ⟨0, by norm_num, ?_, fun h => absurd h ?_⟩,
    isNearestMultiple_intCast 0, by decide +kernel, by decide +kernel⟩
  · norm_num [abs_of_pos, abs_div]
  · norm_num [abs_of_pos, abs_div]

end Reckoner.Display
