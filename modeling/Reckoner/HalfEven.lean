/-! Rounding a quotient of natural numbers to the nearest one, halves to even. Every
rounding of this library, binary or decimal, is this function on a scaled quotient. -/
namespace Reckoner

/-- The natural number nearest to `num / den`; of two equally near, the even one. -/
def roundHalfEven (num den : Nat) : Nat :=
  let quotient := num / den
  let rest := num % den
  if 2 * rest < den ∨ (2 * rest = den ∧ quotient % 2 = 0) then quotient else quotient + 1

theorem div_le_roundHalfEven (num den : Nat) : num / den ≤ roundHalfEven num den := by
  simp only [roundHalfEven]
  split <;> omega

theorem roundHalfEven_le (num den : Nat) : roundHalfEven num den ≤ num / den + 1 := by
  simp only [roundHalfEven]
  split <;> omega

/-- The rounded quotient is at most half a unit above the exact one. -/
theorem mul_roundHalfEven_le (num den : Nat) :
    2 * (den * roundHalfEven num den) ≤ 2 * num + den := by
  have split_num := Nat.div_add_mod num den
  simp only [roundHalfEven]
  split
  next => omega
  next h => rw [Nat.mul_add]; omega

/-- The rounded quotient is at most half a unit below the exact one. -/
theorem le_mul_roundHalfEven (num : Nat) {den : Nat} (hden : 0 < den) :
    2 * num ≤ 2 * (den * roundHalfEven num den) + den := by
  have split_num := Nat.div_add_mod num den
  have rest_lt := Nat.mod_lt num hden
  simp only [roundHalfEven]
  split
  next h => omega
  next h => rw [Nat.mul_add]; omega

/-- Halfway between two numbers the even one is taken. -/
theorem even_roundHalfEven_of_half {num den : Nat} (h : 2 * (num % den) = den) :
    roundHalfEven num den % 2 = 0 := by
  simp only [roundHalfEven]
  split <;> omega

theorem roundHalfEven_mul_left (n : Nat) {den : Nat} (h : 0 < den) :
    roundHalfEven (den * n) den = n := by
  simp [roundHalfEven, Nat.mul_div_cancel_left n h, h]

end Reckoner
