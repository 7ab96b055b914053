import Reckoner.Binary64.Reading
import Reckoner.Proofs.Decimal.Positional

/-! The exact decimal that a text is. The two written forms of a decimal are read as a decimal of
the same worth, and neither ends in a point or in a zero after one. -/
namespace Reckoner

namespace Decimal

/-- The decimal that a text without a sign is: digits, with a point and an exponent or without. -/
def ofText? (text : List Char) : Option Decimal :=
  let (whole, afterWhole) := Binary64.splitDigits text
  let (fraction, tail) := Binary64.splitFraction afterWhole
  if whole = [] ∧ fraction = [] then none
  else (Binary64.readExponent? tail).map fun exponent =>
    ⟨Nat.ofDigitChars 10 (whole ++ fraction) 0, exponent - fraction.length⟩

/-- The number that a text is, which may have a minus sign. -/
def exactValue? : List Char → Option ℚ
  | '-' :: text => (ofText? text).map fun d => -d.toRat
  | text => (ofText? text).map toRat

/-- Nothing, or a point and digits of which the last is not zero. -/
inductive IsFraction : List Char → Prop where
  | none : IsFraction []
  | digits {digits : List Char} {last : Char} (hdigits : ∀ c ∈ digits, c.isDigit)
      (hlast : last.isDigit ∧ last ≠ '0') : IsFraction ('.' :: (digits ++ [last]))

theorem getLast?_dropTrailingZeros_ne (digits : List Char) :
    (dropTrailingZeros digits).getLast? ≠ some '0' := by
  rw [dropTrailingZeros, List.getLast?_reverse]
  intro h
  have hhead := List.head?_dropWhile_not (· == '0') digits.reverse
  rw [h] at hhead
  simp at hhead

theorem isFraction_fractionText {digits : List Char} (h : ∀ c ∈ digits, c.isDigit) :
    IsFraction (fractionText digits) := by
  have hkept := isDigit_of_mem_dropTrailingZeros h
  have hlast := getLast?_dropTrailingZeros_ne digits
  unfold fractionText
  generalize dropTrailingZeros digits = kept at *
  split
  next => exact .none
  next digit rest =>
    rcases List.eq_nil_or_concat (digit :: rest) with hnil | ⟨init, last, hconcat⟩
    · cases hnil
    · rw [List.concat_eq_append] at hconcat
      rw [hconcat] at hkept hlast ⊢
      rw [List.getLast?_concat, Ne, Option.some.injEq] at hlast
      exact .digits (fun c hc => hkept c (by simp [hc])) ⟨hkept last (by simp), hlast⟩

/-- The decimal of digits before and after a point is that of all of them. -/
theorem ofText?_append (whole digits tail : List Char) (hne : whole ≠ [])
    (hwhole : ∀ c ∈ whole, c.isDigit) (hdigits : ∀ c ∈ digits, c.isDigit)
    (htail : ∀ c ∈ tail.head?, ¬ c.isDigit ∧ c ≠ '.') :
    (ofText? (whole ++ (fractionText digits ++ tail))).map toRat =
      (Binary64.readExponent? tail).map fun exponent =>
        toRat ⟨Nat.ofDigitChars 10 (whole ++ digits) 0, exponent - digits.length⟩ := by
  have hkept := isDigit_of_mem_dropTrailingZeros hdigits
  have hexact (exponent : Int) := toRat_dropTrailingZeros whole digits exponent
  have hsplit : Binary64.splitDigits (whole ++ (fractionText digits ++ tail)) =
      (whole, fractionText digits ++ tail) := by
    have hrest : ∀ c ∈ (fractionText digits ++ tail).head?, ¬ c.isDigit := by
      unfold fractionText
      split
      · exact fun c hc => (htail c hc).1
      · intro c hc
        obtain rfl := Option.some.inj hc
        decide
    unfold Binary64.splitDigits
    rw [takeWhile_isDigit_append hwhole hrest, dropWhile_isDigit_append hwhole hrest]
  have hfraction : Binary64.splitFraction (fractionText digits ++ tail) =
      (dropTrailingZeros digits, tail) := by
    unfold fractionText
    split
    next hnil =>
      rw [hnil, List.nil_append]
      unfold Binary64.splitFraction
      split
      next rest => exact absurd rfl (htail '.' rfl).2
      next => rfl
    next digit rest hcons =>
      rw [hcons] at hkept ⊢
      have hrest : ∀ c ∈ tail.head?, ¬ c.isDigit := fun c hc => (htail c hc).1
      simp only [List.cons_append, Binary64.splitFraction, Binary64.splitDigits]
      rw [← List.cons_append, takeWhile_isDigit_append hkept hrest,
        dropWhile_isDigit_append hkept hrest]
  unfold ofText?
  simp only [hsplit, hfraction, hne, false_and, if_false, Option.map_map]
  congr 1
  funext exponent
  exact hexact exponent

theorem toRat_ofText?_positional (d : Decimal) :
    (ofText? d.positional).map toRat = some d.toRat := by
  have hread := ofText?_append (Nat.toDigits 10 d.whole) d.fraction []
    Nat.toDigits_ne_nil (isDigit_of_mem_toDigits d.whole) d.isDigit_of_mem_fraction (by simp)
  rw [List.append_nil] at hread
  rw [positional, hread, Binary64.readExponent?, Option.map_some, toRat_whole_fraction]

/-- The scientific form has the digits of the coefficient, the first of them before the point. -/
theorem exists_mantissa_eq (d : Decimal) :
    ∃ digit rest, Nat.toDigits 10 d.coefficient = digit :: rest ∧
      d.mantissa = digit :: fractionText rest := by
  obtain ⟨digit, rest, hdigits⟩ := exists_toDigits_eq_cons d.coefficient
  exact ⟨digit, rest, hdigits, by simp only [mantissa, hdigits]⟩

theorem toRat_ofText?_mantissa (d : Decimal) {exponent : List Char}
    (hexponent : Binary64.readExponent? ('e' :: exponent) = some d.leading) :
    (ofText? (d.mantissa ++ 'e' :: exponent)).map toRat = some d.toRat := by
  obtain ⟨digit, rest, hdigits, hmantissa⟩ := d.exists_mantissa_eq
  have hmem := isDigit_of_mem_toDigits d.coefficient
  rw [hdigits] at hmem
  have hread := ofText?_append [digit] rest ('e' :: exponent)
    (by simp) (fun c hc => hmem c (by simp_all)) (fun c hc => hmem c (by simp [hc])) (by simp)
  have hcount : rest.length = digitCount d.coefficient - 1 := by simp [digitCount, hdigits]
  rw [List.singleton_append, List.singleton_append, ← List.cons_append, ← hmantissa, ← hdigits,
    hexponent, Option.map_some, Nat.ofDigitChars_ten_toDigits, hcount, toRat_leading] at hread
  exact hread

end Decimal

end Reckoner
