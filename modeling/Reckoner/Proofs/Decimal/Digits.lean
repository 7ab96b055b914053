import Mathlib.Data.List.TakeWhile
import Reckoner.Decimal.Basic
import Reckoner.Proofs.Text.Digits

/-! How many digits a number has, and what its digits are worth when zeros are put before them or
taken away from their end. -/
namespace Reckoner

theorem digitCount_pos (n : Nat) : 0 < digitCount n :=
  Nat.length_toDigits_pos

theorem lt_pow_digitCount (n : Nat) : n < 10 ^ digitCount n :=
  (Nat.length_toDigits_le_iff (by decide) (digitCount_pos n)).mp le_rfl

theorem digitCount_le {n k : Nat} (hk : 0 < k) (h : n < 10 ^ k) : digitCount n ≤ k :=
  (Nat.length_toDigits_le_iff (by decide) hk).mpr h

theorem pow_digitCount_le {n : Nat} (h : 0 < n) : 10 ^ (digitCount n - 1) ≤ n := by
  by_contra hlt
  rcases Nat.eq_zero_or_pos (digitCount n - 1) with hzero | hpos
  · rw [hzero] at hlt
    omega
  · have := digitCount_le hpos (Nat.lt_of_not_le hlt)
    omega

/-- No zero stands before other digits. -/
theorem toDigits_of_head?_zero {n : Nat} (h : (Nat.toDigits 10 n).head? = some '0') :
    Nat.toDigits 10 n = ['0'] := by
  cases hdigits : Nat.toDigits 10 n with
  | nil => simp [hdigits] at h
  | cons c rest =>
    rw [hdigits] at h
    obtain rfl := Option.some.inj h
    cases rest with
    | nil => rfl
    | cons d rest =>
      have hrest : ∀ c ∈ d :: rest, c.isDigit := fun c hc =>
        isDigit_of_mem_toDigits n c (by rw [hdigits]; exact List.mem_cons_of_mem _ hc)
      have hlt : n < 10 ^ (d :: rest).length := by
        rw [← Nat.ofDigitChars_ten_toDigits (n := n), hdigits]
        exact ofDigitChars_lt hrest
      have hcount := digitCount_le (by simp) hlt
      rw [digitCount, hdigits, List.length_cons] at hcount
      omega

theorem ofDigitChars_append_replicate_zero (digits : List Char) (k : Nat) :
    Nat.ofDigitChars 10 (digits ++ List.replicate k '0') 0 =
      Nat.ofDigitChars 10 digits 0 * 10 ^ k := by
  rw [Nat.ofDigitChars_append, Nat.ofDigitChars_replicate_zero, Nat.mul_comm]

theorem paddedDigits_eq (width n : Nat) :
    paddedDigits width n =
      List.replicate (width - digitCount n) '0' ++ Nat.toDigits 10 n := by
  unfold paddedDigits digitCount List.leftpad
  rfl

theorem isDigit_of_mem_paddedDigits {width n : Nat} {c : Char} (h : c ∈ paddedDigits width n) :
    c.isDigit := by
  rw [paddedDigits_eq, List.mem_append, List.mem_replicate] at h
  rcases h with ⟨-, rfl⟩ | h
  · decide
  · exact isDigit_of_mem_toDigits n c h

theorem length_paddedDigits {width n : Nat} (hwidth : 0 < width) (h : n < 10 ^ width) :
    (paddedDigits width n).length = width := by
  have := digitCount_le hwidth h
  rw [paddedDigits_eq, List.length_append, List.length_replicate]
  unfold digitCount at *
  omega

theorem paddedDigits_ne_nil (width n : Nat) : paddedDigits width n ≠ [] := by
  rw [paddedDigits_eq]
  exact List.append_ne_nil_of_right_ne_nil _ Nat.toDigits_ne_nil

theorem le_length_paddedDigits (width n : Nat) : width ≤ (paddedDigits width n).length := by
  rw [paddedDigits_eq, List.length_append, List.length_replicate]
  unfold digitCount
  omega

theorem ofDigitChars_paddedDigits (width n : Nat) :
    Nat.ofDigitChars 10 (paddedDigits width n) 0 = n := by
  rw [paddedDigits_eq, Nat.ofDigitChars_append, Nat.ofDigitChars_replicate_zero, Nat.mul_zero,
    Nat.ofDigitChars_ten_toDigits]

theorem exists_dropTrailingZeros_append (digits : List Char) :
    ∃ k, digits = dropTrailingZeros digits ++ List.replicate k '0' := by
  refine ⟨(digits.reverse.takeWhile (· == '0')).length, ?_⟩
  have hzeros : digits.reverse.takeWhile (· == '0') =
      List.replicate (digits.reverse.takeWhile (· == '0')).length '0' := by
    rw [List.eq_replicate_iff]
    exact ⟨rfl, fun c hc => by simpa using List.mem_takeWhile_imp hc⟩
  rw [dropTrailingZeros, ← List.reverse_inj, List.reverse_append, List.reverse_replicate,
    List.reverse_reverse, ← hzeros, List.takeWhile_append_dropWhile]

/-- Zeros after a point stand behind everything before it. -/
theorem dropTrailingZeros_append_point (whole digits : List Char) :
    dropTrailingZeros (whole ++ '.' :: digits) = whole ++ '.' :: dropTrailingZeros digits := by
  have hsplit : (whole ++ '.' :: digits).reverse = digits.reverse ++ '.' :: whole.reverse := by
    simp
  rw [dropTrailingZeros, hsplit, List.dropWhile_append, dropTrailingZeros]
  split
  next h => simp [List.isEmpty_iff.mp h]
  next => simp

theorem isDigit_of_mem_dropTrailingZeros {digits : List Char} (h : ∀ c ∈ digits, c.isDigit) :
    ∀ c ∈ dropTrailingZeros digits, c.isDigit := by
  obtain ⟨k, hk⟩ := exists_dropTrailingZeros_append digits
  intro c hc
  apply h
  rw [hk]
  exact List.mem_append_left _ hc

end Reckoner
