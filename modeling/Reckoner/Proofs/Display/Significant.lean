import Reckoner.Display
import Reckoner.Proofs.Binary64.Value
import Reckoner.Proofs.Decimal.Reading

/-! A value shown with a number of significant digits: the text, read as an exact decimal, is the
value rounded once to that many digits, in the form that its leading digit asks for. -/
namespace Reckoner

/-- `r` is `v` rounded to `digits` significant digits: the nearest multiple of the step at which
the digits of `v` end; halfway between two, the even one. -/
def IsRounded (digits : Nat) (v r : ℚ) : Prop :=
  ∃ leading steps : ℤ, 10 ^ leading ≤ |v| ∧ |v| < 10 ^ (leading + 1) ∧
    r = steps * 10 ^ (leading - digits + 1) ∧ 2 * |v - r| ≤ 10 ^ (leading - digits + 1) ∧
    (2 * |v - r| = 10 ^ (leading - digits + 1) → Even steps)

namespace IsRounded

variable {digits : Nat} {v r r' : ℚ}

theorem iff_isNearestMultiple :
    IsRounded digits v r ↔ ∃ leading : ℤ, 10 ^ leading ≤ |v| ∧ |v| < 10 ^ (leading + 1) ∧
      IsNearestMultiple (10 ^ (leading - digits + 1)) v r := by
  constructor
  · rintro ⟨leading, steps, hlower, hupper, hsteps⟩
    exact ⟨leading, hlower, hupper, steps, hsteps⟩
  · rintro ⟨leading, hlower, hupper, steps, hsteps⟩
    exact ⟨leading, steps, hlower, hupper, hsteps⟩

theorem neg (h : IsRounded digits v r) : IsRounded digits (-v) (-r) := by
  obtain ⟨leading, hlower, hupper, hnearest⟩ := iff_isNearestMultiple.mp h
  rw [← abs_neg] at hlower hupper
  exact iff_isNearestMultiple.mpr ⟨leading, hlower, hupper, hnearest.neg⟩

theorem leading_unique {leading leading' : ℤ} (hlower : 10 ^ leading ≤ v)
    (hupper : v < 10 ^ (leading + 1)) (hlower' : 10 ^ leading' ≤ v)
    (hupper' : v < 10 ^ (leading' + 1)) : leading = leading' := by
  have hle := (zpow_lt_zpow_iff_right₀ (by norm_num)).mp (hlower.trans_lt hupper')
  have hge := (zpow_lt_zpow_iff_right₀ (by norm_num)).mp (hlower'.trans_lt hupper)
  omega

theorem unique (h : IsRounded digits v r) (h' : IsRounded digits v r') : r = r' := by
  obtain ⟨leading, hlower, hupper, hnearest⟩ := iff_isNearestMultiple.mp h
  obtain ⟨leading', hlower', hupper', hnearest'⟩ := iff_isNearestMultiple.mp h'
  obtain rfl := leading_unique hlower hupper hlower' hupper'
  exact hnearest.unique (Decimal.ten_zpow_pos _) hnearest'

end IsRounded

/-- The decimal with a number of significant digits is the number rounded to them. -/
theorem Decimal.isRounded_significant {num den digits : Nat} (hnum : 0 < num) (hden : 0 < den) :
    IsRounded digits (num / den) (significant digits num den).toRat := by
  obtain ⟨hlower, hupper⟩ := zpow_leadingOf_le hnum hden
  have habs : |(num : ℚ) / den| = num / den := abs_of_nonneg (by positivity)
  refine IsRounded.iff_isNearestMultiple.mpr
    ⟨leadingOf num den, ?_, ?_, isNearestMultiple_roundAt _ num hden⟩
  · rwa [habs]
  · rwa [habs]

namespace Magnitude

attribute [local irreducible] one

variable {x : Magnitude}

/-- No value has its leading digit above the place of the greatest one. -/
theorem leadingOf_le (hx : ¬ x.isZero) : Decimal.leadingOf x.units one ≤ 308 := by
  by_contra hhigh
  have hzero : (-Decimal.leadingOf x.units one).toNat = 0 := by omega
  have hplaces : 309 ≤ (Decimal.leadingOf x.units one).toNat := by omega
  obtain ⟨hle, -⟩ := Decimal.leadingOf_spec (units_pos hx) one_pos
  rw [hzero, Nat.pow_zero, Nat.mul_one] at hle
  apply absurd x.units_lt_limit
  apply Nat.not_lt_of_le
  calc unitsLimit ≤ one * 10 ^ 309 := by decide +kernel
    _ ≤ one * 10 ^ (Decimal.leadingOf x.units one).toNat :=
      Nat.mul_le_mul_left _ (Nat.pow_le_pow_right (by decide) hplaces)
    _ ≤ x.units := hle

/-- The digits of a value end where those of its unit do. -/
theorem exists_toRat_eq (x : Magnitude) (exponent : ℤ) (h : exponent ≤ -1074) :
    ∃ n : Nat, x.toRat = n * 10 ^ exponent := by
  obtain ⟨k, rfl⟩ : ∃ k : Nat, exponent = -(1074 + k : Nat) :=
    ⟨(-1074 - exponent).toNat, by omega⟩
  refine ⟨x.units * 5 ^ 1074 * 10 ^ k, ?_⟩
  have hone : (one : ℚ) * 5 ^ 1074 = 10 ^ 1074 := by
    rw [one, Nat.cast_pow, Nat.cast_ofNat, ← mul_pow]
    congr 1
    norm_num
  have hpos : (0 : ℚ) < one := by exact_mod_cast one_pos
  have hfive : (5 : ℚ) ^ 1074 ≠ 0 := pow_ne_zero _ (by norm_num)
  rw [toRat, zpow_neg, zpow_natCast, pow_add, ← hone, Nat.cast_mul, Nat.cast_mul, Nat.cast_pow,
    Nat.cast_pow, Nat.cast_ofNat, Nat.cast_ofNat]
  generalize (5 : ℚ) ^ 1074 = five at hfive ⊢
  field_simp

end Magnitude

theorem IsRounded.signedRat {digits : Nat} {v r : ℚ} (negative : Bool)
    (h : IsRounded digits v r) :
    IsRounded digits (signedRat negative v) (signedRat negative r) := by
  cases negative with
  | true => exact h.neg
  | false => exact h

namespace Display

open Decimal (exactValue? ofText? IsFraction)

/-- Plain positional notation, without a point or a zero after it at the end. -/
def IsPlain (text : List Char) : Prop :=
  ∃ whole fraction, text = Nat.toDigits 10 whole ++ fraction ∧ IsFraction fraction

/-- A mantissa with one digit before the point, and the exponent `leading` in two digits or more. -/
def IsScientific (leading : ℤ) (text : List Char) : Prop :=
  ∃ digit fraction exponent,
    text = digit :: (fraction ++ 'e' :: (if leading < 0 then '-' else '+') :: exponent) ∧
    digit.isDigit ∧ IsFraction fraction ∧ (∀ c ∈ exponent, c.isDigit) ∧ 2 ≤ exponent.length ∧
    Nat.ofDigitChars 10 exponent 0 = leading.natAbs

variable {digits : Nat} {x : Magnitude}

attribute [local irreducible] Magnitude.one

theorem workedDigits_pos (digits : Nat) : 0 < workedDigits digits := by
  unfold workedDigits digitLimit
  omega

theorem leading_rounded (digits : Nat) (hx : ¬ x.isZero) :
    (rounded digits x).leading = Decimal.leadingOf x.units Magnitude.one ∨
      (rounded digits x).leading = Decimal.leadingOf x.units Magnitude.one + 1 :=
  (Decimal.leading_significant (workedDigits_pos digits) (Magnitude.units_pos hx)
    Magnitude.one_pos).imp_right And.left

theorem coefficient_rounded_pos (digits : Nat) (hx : ¬ x.isZero) :
    0 < (rounded digits x).coefficient :=
  (Nat.pow_pos (by decide)).trans_le
    (Decimal.coefficient_significant (workedDigits_pos digits) (Magnitude.units_pos hx)
      Magnitude.one_pos).1

/-- The digits of a value end before as many as are worked out. -/
theorem toRat_significant (hx : ¬ x.isZero) (h : digitLimit ≤ digits) :
    (Decimal.significant digits x.units Magnitude.one).toRat = x.toRat := by
  have hleading := Magnitude.leadingOf_le hx
  unfold digitLimit at h
  obtain ⟨n, hn⟩ := x.exists_toRat_eq
    (Decimal.leadingOf x.units Magnitude.one - digits + 1) (by omega)
  rw [Decimal.significant, Decimal.roundAt_eq_of_eq _ Magnitude.one_pos hn, hn]
  rfl

theorem isRounded_rounded (digits : Nat) (hx : ¬ x.isZero) :
    IsRounded (max digits 1) x.toRat (rounded digits x).toRat := by
  have hworked : (rounded digits x).toRat =
      (Decimal.significant (max digits 1) x.units Magnitude.one).toRat := by
    unfold rounded workedDigits
    rcases Nat.le_total (max digits 1) digitLimit with hfew | hmany
    · rw [min_eq_left hfew]
    · rw [min_eq_right hmany, toRat_significant hx le_rfl, toRat_significant hx hmany]
  rw [hworked]
  exact Decimal.isRounded_significant (Magnitude.units_pos hx) Magnitude.one_pos

/-- The second rounding is to a place after the point, and gives what the first one does. -/
theorem toRat_roundedAgain (hx : ¬ x.isZero) (h : isPositional digits (rounded digits x)) :
    (roundedAgain digits x).toRat = (rounded digits x).toRat := by
  have hpositional := of_decide_eq_true h
  have hleading := leading_rounded digits hx
  have hbound := Magnitude.leadingOf_le hx
  have hplaces : 0 ≤ (workedDigits digits : Int) - 1 - (rounded digits x).leading := by
    unfold workedDigits digitLimit
    omega
  rw [roundedAgain, Decimal.fixed, Int.toNat_of_nonneg hplaces,
    show -((workedDigits digits : Int) - 1 - (rounded digits x).leading) =
      (rounded digits x).leading - workedDigits digits + 1 by ring]
  exact Decimal.toRat_roundAt_leading (workedDigits_pos digits) (Magnitude.units_pos hx)
    Magnitude.one_pos

theorem readExponent?_exponentText (leading : ℤ) :
    Binary64.readExponent? ('e' :: exponentText leading) = some leading := by
  have hdigits : (paddedDigits 2 leading.natAbs).all Char.isDigit :=
    List.all_eq_true.mpr fun _ => isDigit_of_mem_paddedDigits
  have hne := paddedDigits_ne_nil 2 leading.natAbs
  unfold exponentText Binary64.readExponent?
  by_cases hneg : leading < 0
  · simp only [hneg, if_true, true_or, hne, hdigits, Bool.not_true, Bool.false_eq_true, or_self,
      if_false, List.head?_cons, ofDigitChars_paddedDigits, Option.some.injEq]
    omega
  · have hplus : some '+' ≠ some '-' := by decide
    simp only [hneg, if_true, true_or, hne, hdigits, Bool.not_true, Bool.false_eq_true, or_self,
      if_false, List.head?_cons, ofDigitChars_paddedDigits, Option.some.injEq, hplus]
    omega

theorem isScientific_mantissa (d : Decimal) :
    IsScientific d.leading (d.mantissa ++ 'e' :: exponentText d.leading) := by
  obtain ⟨digit, rest, hdigits, hmantissa⟩ := d.exists_mantissa_eq
  have hmem := isDigit_of_mem_toDigits d.coefficient
  rw [hdigits] at hmem
  refine ⟨digit, fractionText rest, paddedDigits 2 d.leading.natAbs, by rw [hmantissa]; rfl,
    hmem digit (by simp), Decimal.isFraction_fractionText fun c hc => hmem c (by simp [hc]),
    fun c => isDigit_of_mem_paddedDigits, le_length_paddedDigits 2 _,
    ofDigitChars_paddedDigits 2 _⟩

theorem isPlain_positional (d : Decimal) : IsPlain d.positional :=
  ⟨d.whole, fractionText d.fraction, rfl,
    Decimal.isFraction_fractionText d.isDigit_of_mem_fraction⟩

/-- The text of the value without its sign. -/
def unsigned (digits : Nat) (x : Magnitude) : List Char :=
  if isPositional digits (rounded digits x) then (roundedAgain digits x).positional
  else (rounded digits x).mantissa ++ 'e' :: exponentText (rounded digits x).leading

theorem significant_finite (digits : Nat) (negative : Bool) (hx : ¬ x.isZero) :
    significant digits (.finite negative x) = signed negative (unsigned digits x) := by
  rw [significant, if_neg hx]
  rfl

theorem toRat_ofText?_unsigned (hx : ¬ x.isZero) :
    (ofText? (unsigned digits x)).map Decimal.toRat = some (rounded digits x).toRat := by
  unfold unsigned
  split
  next h => rw [Decimal.toRat_ofText?_positional, toRat_roundedAgain hx h]
  next => exact Decimal.toRat_ofText?_mantissa _ (readExponent?_exponentText _)

theorem IsPlain.isDigit_of_mem_head? {text : List Char} (h : IsPlain text) :
    ∀ c ∈ text.head?, c.isDigit := by
  obtain ⟨whole, fraction, rfl, -⟩ := h
  intro c hc
  rw [List.head?_append_of_ne_nil _ Nat.toDigits_ne_nil] at hc
  exact isDigit_of_mem_toDigits whole c (List.mem_of_mem_head? hc)

theorem IsScientific.isDigit_of_mem_head? {leading : ℤ} {text : List Char}
    (h : IsScientific leading text) : ∀ c ∈ text.head?, c.isDigit := by
  obtain ⟨digit, fraction, exponent, rfl, hdigit, -⟩ := h
  intro c hc
  rwa [← Option.some.inj hc]

theorem isDigit_of_mem_head?_unsigned (digits : Nat) (x : Magnitude) :
    ∀ c ∈ (unsigned digits x).head?, c.isDigit := by
  unfold unsigned
  split
  next => exact (isPlain_positional _).isDigit_of_mem_head?
  next => exact (isScientific_mantissa _).isDigit_of_mem_head?

theorem head?_signed {text : List Char} (h : ∀ c ∈ text.head?, c.isDigit) (negative : Bool) :
    (signed negative text).head? = some '-' ↔ negative := by
  cases negative with
  | true => simp [signed]
  | false =>
    simp only [signed, Bool.false_eq_true, if_false, iff_false]
    intro hminus
    exact absurd (h '-' hminus) (by decide)

theorem exactValue?_signed {text : List Char} (h : ∀ c ∈ text.head?, c.isDigit)
    (negative : Bool) :
    exactValue? (signed negative text) =
      ((ofText? text).map Decimal.toRat).map (signedRat negative) := by
  cases negative with
  | true => simp [signed, signedRat, exactValue?, Function.comp_def]
  | false =>
    have hkept : signedRat false = id := rfl
    rw [hkept, Option.map_id, id]
    unfold signed exactValue?
    split
    next text htext =>
      rw [if_neg (by decide)] at htext
      exact absurd (h '-' (by rw [htext]; rfl)) (by decide)
    next => rfl

/-- With this many digits no value has too many places: four zeros at most come before them. -/
theorem refuses_eq_false (h : digits ≤ 65532) (v : Binary64) : refuses digits v = false := by
  cases v with
  | nan => rfl
  | infinite negative => rfl
  | finite negative x =>
    have hdigits : ¬ maxPlaces < digits - 1 := by
      unfold maxPlaces
      omega
    have hplaces : exceedsPlaces digits (rounded digits x) = false := by
      rw [← Bool.not_eq_true, exceedsPlaces, isPositional, Bool.and_eq_true, decide_eq_true_eq,
        decide_eq_true_eq]
      unfold maxPlaces
      omega
    simp [refuses, hdigits, hplaces]

theorem Options.exists_format {options : Options} (h : options.precision ≤ 65532)
    (v : Binary64) : ∃ text, options.format v = .ok text := by
  rw [format, refuses_eq_false h]
  exact ⟨_, rfl⟩

/-- A finite value other than zero is shown as its one rounding to the digits asked for, in the
form that the leading digit of the rounded number says, and with a sign if it is negative. -/
theorem significant_eq_rounded {v : Binary64} {q : ℚ} (hvalue : v.toRat? = some q) (hq : q ≠ 0)
    (hdigits : max digits 1 ≤ 65532) :
    refuses digits v = false ∧
      ∃ (r : ℚ) (leading : ℤ), (∀ r', IsRounded (max digits 1) q r' ↔ r' = r) ∧
        10 ^ leading ≤ |r| ∧ |r| < 10 ^ (leading + 1) ∧
        exactValue? (significant digits v) = some r ∧
        ((significant digits v).head? = some '-' ↔ q < 0) ∧
        ∃ text, significant digits v = signed (q < 0) text ∧
          if -4 ≤ leading ∧ leading < (max digits 1 : Nat) then IsPlain text
          else IsScientific leading text := by
  refine ⟨refuses_eq_false (by omega) v, ?_⟩
  cases v with
  | nan => cases hvalue
  | infinite negative => cases hvalue
  | finite negative x =>
    obtain rfl := Option.some.inj hvalue
    have hx : ¬ x.isZero := by
      intro hzero
      apply hq
      simp [Magnitude.toRat, Magnitude.isZero_iff.mp hzero, signedRat]
    have hpos := Magnitude.toRat_pos hx
    have hsign := signedRat_lt_zero negative hpos
    have hhead := isDigit_of_mem_head?_unsigned digits x
    have htext := significant_finite digits negative hx
    have hrounded := (isRounded_rounded digits hx).signedRat negative
    obtain ⟨hlower, hupper⟩ :=
      Decimal.zpow_leading_le (coefficient_rounded_pos digits hx)
    have habs := abs_signedRat negative ((Decimal.ten_zpow_pos _).le.trans hlower)
    refine ⟨signedRat negative (rounded digits x).toRat, (rounded digits x).leading,
      fun r' => ⟨fun h => h.unique hrounded, fun h => h ▸ hrounded⟩, ?_, ?_, ?_, ?_,
      unsigned digits x, ?_, ?_⟩
    · rwa [habs]
    · rwa [habs]
    · rw [htext, exactValue?_signed hhead, toRat_ofText?_unsigned hx, Option.map_some]
    · rw [htext, head?_signed hhead, hsign]
    · rw [htext, Bool.eq_iff_iff.mpr (decide_eq_true_iff.trans hsign)]
    · unfold unsigned isPositional
      simp only [decide_eq_true_eq]
      split
      next => exact isPlain_positional _
      next => exact isScientific_mantissa _

/-- With one digit, the value halfway between nine and ten becomes ten, and its leading digit is
one place further. -/
theorem significant_halfway_to_ten :
    (Binary64.ofBits 0xC023000000000000).toRat? = some (-19 / 2) ∧ (-19 / 2 : ℚ) ≠ 0 ∧
      max 1 1 ≤ 65532 ∧ refuses 1 (.ofBits 0xC023000000000000) = false ∧
      significant 1 (.ofBits 0xC023000000000000) = "-1e+01".toList ∧
      IsRounded 1 (-19 / 2) (-10) := by
  have hvalue : (Binary64.ofBits 0xC023000000000000).toRat? = some (-19 / 2) := by
    decide +kernel
  have htext : significant 1 (.ofBits 0xC023000000000000) = "-1e+01".toList := by
    decide +kernel
  obtain ⟨haccepted, r, leading, hrounded, -, -, hexact, -⟩ :=
    significant_eq_rounded hvalue (by norm_num) (show max 1 1 ≤ 65532 by decide)
  have hr : r = -10 := by
    rw [htext, show exactValue? "-1e+01".toList = some (-10) by decide +kernel] at hexact
    exact (Option.some.inj hexact).symm
  exact ⟨hvalue, by norm_num, by decide, haccepted, htext, (hrounded _).mpr hr.symm⟩

end Display

end Reckoner
