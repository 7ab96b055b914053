import Reckoner.Proofs.Decimal.Positional
import Reckoner.Proofs.Decimal.Shortest
import Reckoner.Proofs.Json.Number

/-! The number that a file holds for a finite value: the digits of the shortest decimal, with a
point among them or with an exponent. It is worth as much as the decimal. -/
namespace Reckoner.Json.Number

/-- The digits that follow the point, or a zero where there are none. -/
def pointDigits (digits : List Char) : List Char :=
  if dropTrailingZeros digits = [] then ['0'] else dropTrailingZeros digits

def ofDecimal (negative : Bool) (d : Decimal) : Number :=
  if DigitStyle.stored.isPositional d.leading then
    ⟨negative, Nat.toDigits 10 d.whole, pointDigits d.fraction, none⟩
  else
    ⟨negative, (Nat.toDigits 10 d.coefficient).take 1,
      dropTrailingZeros ((Nat.toDigits 10 d.coefficient).drop 1), some d.leading⟩

theorem isDigit_of_mem_pointDigits {digits : List Char} (h : ∀ c ∈ digits, c.isDigit) :
    ∀ c ∈ pointDigits digits, c.isDigit := by
  unfold pointDigits
  split
  · exact List.forall_mem_singleton.mpr rfl
  · exact isDigit_of_mem_dropTrailingZeros h

theorem isWritten_ofDecimal (negative : Bool) (d : Decimal) : (ofDecimal negative d).IsWritten := by
  unfold ofDecimal
  split
  · exact {
      whole_ne_nil := Nat.toDigits_ne_nil
      isDigit_of_mem_whole := isDigit_of_mem_toDigits _
      whole_of_head?_zero := toDigits_of_head?_zero
      isDigit_of_mem_fraction := isDigit_of_mem_pointDigits d.isDigit_of_mem_fraction }
  · obtain ⟨digit, rest, htoDigits⟩ := exists_toDigits_eq_cons d.coefficient
    have hmem := isDigit_of_mem_toDigits d.coefficient
    rw [htoDigits] at hmem ⊢
    exact {
      whole_ne_nil := by simp
      isDigit_of_mem_whole := fun c hc => hmem c (List.mem_of_mem_take hc)
      whole_of_head?_zero := by simp
      isDigit_of_mem_fraction :=
        isDigit_of_mem_dropTrailingZeros fun c hc => hmem c (List.mem_of_mem_drop hc) }

theorem fractionText_dropTrailingZeros (digits : List Char) :
    fractionText (dropTrailingZeros digits) = Reckoner.fractionText digits := by
  unfold fractionText Reckoner.fractionText
  cases dropTrailingZeros digits with
  | nil => rfl
  | cons digit rest => rfl

theorem negative_ofDecimal (negative : Bool) (d : Decimal) :
    (ofDecimal negative d).negative = negative := by
  unfold ofDecimal
  split <;> rfl

theorem digitsText_ofDecimal (negative : Bool) (x : Magnitude) :
    (ofDecimal negative (x.shortest .toEven)).digitsText = DigitStyle.stored.render x := by
  unfold ofDecimal DigitStyle.render
  rw [show DigitStyle.stored.tie = .toEven from rfl]
  generalize x.shortest .toEven = d
  split
  next hpositional =>
    simp only [hpositional, if_true, digitsText, exponentText, List.append_nil]
    unfold pointDigits Decimal.positional
    rw [← fractionText_dropTrailingZeros]
    split
    next hnil => simp [hnil, fractionText, DigitStyle.stored]
    next hcons =>
      rw [if_neg]
      cases hdigits : dropTrailingZeros d.fraction with
      | nil => exact absurd hdigits hcons
      | cons digit rest => simp [fractionText]
  next hpositional =>
    obtain ⟨digit, rest, hdigits⟩ := exists_toDigits_eq_cons d.coefficient
    simp only [hpositional, digitsText, exponentText, Decimal.mantissa, hdigits,
      fractionText_dropTrailingZeros]
    by_cases hneg : d.leading < 0
    · simp [hneg]
    · simp [hneg, DigitStyle.stored]

theorem toRat_pointDigits (whole digits : List Char) (exponent : Int) :
    Decimal.toRat ⟨Nat.ofDigitChars 10 (whole ++ pointDigits digits) 0,
        exponent - (pointDigits digits).length⟩ =
      Decimal.toRat ⟨Nat.ofDigitChars 10 (whole ++ digits) 0, exponent - digits.length⟩ := by
  rw [← Decimal.toRat_dropTrailingZeros whole digits]
  unfold pointDigits
  split
  next hnil =>
    -- the one zero after the point would be dropped in its turn
    rw [hnil, ← Decimal.toRat_dropTrailingZeros whole ['0']]
    rfl
  next => rfl

theorem toRat_decimal_ofDecimal (negative : Bool) (d : Decimal) :
    (ofDecimal negative d).decimal.toRat = d.toRat := by
  unfold ofDecimal decimal
  split
  · simp only [Option.getD_none]
    rw [toRat_pointDigits, Decimal.toRat_whole_fraction]
  · simp only [Option.getD_some]
    rw [Decimal.toRat_dropTrailingZeros, List.take_append_drop, Nat.ofDigitChars_ten_toDigits,
      List.length_drop]
    exact d.toRat_leading

theorem ofDigitChars_dropTrailingZeros_le (whole digits : List Char) :
    Nat.ofDigitChars 10 (whole ++ dropTrailingZeros digits) 0 ≤
      Nat.ofDigitChars 10 (whole ++ digits) 0 := by
  obtain ⟨k, hk⟩ := exists_dropTrailingZeros_append digits
  conv_rhs => rw [hk, ← List.append_assoc, ofDigitChars_append_replicate_zero]
  exact Nat.le_mul_of_pos_right _ (Nat.pow_pos (by decide))

theorem coefficient_decimal_ofDecimal_le (negative : Bool) {d : Decimal}
    (h : d.coefficient ≤ 10 ^ 17) :
    (ofDecimal negative d).decimal.coefficient ≤ 10 ^ 17 := by
  unfold ofDecimal decimal
  split
  next hpositional =>
    have hwhole : d.whole < 10 ^ 16 := by
      apply Decimal.whole_lt
      simp only [DigitStyle.stored, decide_eq_true_eq] at hpositional
      omega
    simp only [pointDigits]
    split
    next =>
      rw [Nat.ofDigitChars_append, Nat.ofDigitChars_ten_toDigits]
      simp [Nat.ofDigitChars_cons]
      omega
    next hne =>
      have hneg : d.exponent < 0 := by
        by_contra hnonneg
        rw [Decimal.fraction_of_nonneg (by omega)] at hne
        exact hne (by decide)
      calc Nat.ofDigitChars 10 (Nat.toDigits 10 d.whole ++ dropTrailingZeros d.fraction) 0
          ≤ Nat.ofDigitChars 10 (Nat.toDigits 10 d.whole ++ d.fraction) 0 :=
            ofDigitChars_dropTrailingZeros_le _ _
        _ = d.coefficient := Decimal.ofDigitChars_positional_of_neg hneg
        _ ≤ 10 ^ 17 := h
  next =>
    refine (ofDigitChars_dropTrailingZeros_le _ _).trans ?_
    rwa [List.take_append_drop, Nat.ofDigitChars_ten_toDigits]

theorem le_exponent_decimal_ofDecimal (negative : Bool) (d : Decimal) :
    min d.exponent (-1) ≤ (ofDecimal negative d).decimal.exponent := by
  have hlength (digits : List Char) : (dropTrailingZeros digits).length ≤ digits.length := by
    obtain ⟨k, hk⟩ := exists_dropTrailingZeros_append digits
    have := congrArg List.length hk
    rw [List.length_append] at this
    omega
  unfold ofDecimal decimal
  split
  · simp only [Option.getD_none, pointDigits]
    split
    · simp
    next hne =>
      have hneg : d.exponent < 0 := by
        by_contra hnonneg
        rw [Decimal.fraction_of_nonneg (by omega)] at hne
        exact hne (by decide)
      have := hlength d.fraction
      rw [Decimal.length_fraction_of_neg hneg] at this
      omega
  · have := hlength ((Nat.toDigits 10 d.coefficient).drop 1)
    have hcount := digitCount_pos d.coefficient
    rw [List.length_drop] at this
    simp only [Option.getD_some]
    unfold Decimal.leading
    unfold digitCount at *
    omega

end Reckoner.Json.Number
