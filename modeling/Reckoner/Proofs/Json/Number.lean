import Reckoner.Json.Number
import Reckoner.Proofs.Text.Digits

/-! The text of a JSON number, which is read back as that number, and the decimal that it is. -/
namespace Reckoner.Json.Number

def fractionText : List Char → List Char
  | [] => []
  | digits => '.' :: digits

def exponentText : Option Int → List Char
  | none => []
  | some e => 'e' :: (if e < 0 then '-' else '+') :: Nat.toDigits 10 e.natAbs

def digitsText (n : Number) : List Char :=
  n.whole ++ (fractionText n.fraction ++ exponentText n.exponent)

def text (n : Number) : List Char :=
  if n.negative then '-' :: n.digitsText else n.digitsText

/-- Whether the parts are as JSON writes them: digits, of which none before the point are
superfluous. -/
structure IsWritten (n : Number) : Prop where
  whole_ne_nil : n.whole ≠ []
  isDigit_of_mem_whole : ∀ c ∈ n.whole, c.isDigit
  whole_of_head?_zero : n.whole.head? = some '0' → n.whole = ['0']
  isDigit_of_mem_fraction : ∀ c ∈ n.fraction, c.isDigit

/-- Whether a number can end before a text. -/
def Follows (rest : List Char) : Prop :=
  ∀ c ∈ rest.head?, ¬ c.isDigit ∧ c ≠ '.' ∧ c ≠ 'e' ∧ c ≠ 'E'

theorem follows_cons {c : Char} (h : ¬ c.isDigit ∧ c ≠ '.' ∧ c ≠ 'e' ∧ c ≠ 'E')
    (rest : List Char) : Follows (c :: rest) := by
  intro d hd
  rwa [← Option.some.inj hd]

theorem not_isDigit_of_mem_head?_exponentText {rest : List Char} (h : Follows rest)
    (exponent : Option Int) : ∀ c ∈ (exponentText exponent ++ rest).head?, ¬ c.isDigit := by
  intro c hc
  cases exponent with
  | none => exact (h c hc).1
  | some e =>
    obtain rfl := Option.some.inj hc
    decide

theorem not_isDigit_of_mem_head?_fractionText {rest : List Char} (h : Follows rest)
    (fraction : List Char) (exponent : Option Int) :
    ∀ c ∈ (fractionText fraction ++ (exponentText exponent ++ rest)).head?, ¬ c.isDigit := by
  cases fraction with
  | nil => exact not_isDigit_of_mem_head?_exponentText h exponent
  | cons d digits =>
    intro c hc
    obtain rfl := Option.some.inj hc
    decide

theorem readExponent?_text (e : Int) {rest : List Char} (h : ∀ c ∈ rest.head?, ¬ c.isDigit) :
    readExponent? ((if e < 0 then '-' else '+') :: Nat.toDigits 10 e.natAbs ++ rest) =
      some (e, rest) := by
  have hdigits := isDigit_of_mem_toDigits e.natAbs
  have hne : Nat.toDigits 10 e.natAbs ≠ [] := Nat.toDigits_ne_nil
  unfold readExponent?
  by_cases hneg : e < 0
  · simp only [hneg, if_true, List.cons_append, takeWhile_isDigit_append hdigits h,
      dropWhile_isDigit_append hdigits h, hne, if_false, Nat.ofDigitChars_ten_toDigits]
    rw [show -(e.natAbs : Int) = e by omega]
  · simp only [hneg, if_false, List.cons_append, takeWhile_isDigit_append hdigits h,
      dropWhile_isDigit_append hdigits h, hne, Nat.ofDigitChars_ten_toDigits, Bool.false_eq_true]
    rw [show (e.natAbs : Int) = e by omega]

theorem readWhole?_append {whole rest : List Char} (hne : whole ≠ [])
    (hdigits : ∀ c ∈ whole, c.isDigit) (hzero : whole.head? = some '0' → whole = ['0'])
    (hrest : ∀ c ∈ rest.head?, ¬ c.isDigit) :
    readWhole? (whole ++ rest) = some (whole, rest) := by
  unfold readWhole?
  rw [takeWhile_isDigit_append hdigits hrest, dropWhile_isDigit_append hdigits hrest]
  split
  next => exact absurd rfl hne
  next => simp at hzero
  next => rfl

theorem readFraction?_append {fraction rest : List Char} (hdigits : ∀ c ∈ fraction, c.isDigit)
    (hrest : ∀ c ∈ rest.head?, ¬ c.isDigit ∧ c ≠ '.') :
    readFraction? (fractionText fraction ++ rest) = some (fraction, rest) := by
  cases fraction with
  | nil =>
    unfold readFraction? fractionText
    split
    next h => exact absurd rfl (hrest '.' (by rw [← List.nil_append rest, h]; rfl)).2
    next => rfl
  | cons d digits =>
    have hnot : ∀ c ∈ rest.head?, ¬ c.isDigit := fun c hc => (hrest c hc).1
    simp only [fractionText, List.cons_append, readFraction?]
    rw [← List.cons_append, takeWhile_isDigit_append hdigits hnot,
      dropWhile_isDigit_append hdigits hnot]

theorem exists_text_eq_cons {n : Number} (h : n.IsWritten) :
    ∃ c rest, n.text = c :: rest ∧ (c = '-' ∨ c.isDigit) := by
  obtain ⟨c, whole, hwhole⟩ := List.exists_cons_of_ne_nil h.whole_ne_nil
  have hdigit := h.isDigit_of_mem_whole c (by simp [hwhole])
  unfold text digitsText
  split
  · exact ⟨_, _, rfl, .inl rfl⟩
  · exact ⟨c, _, by rw [hwhole]; rfl, .inr hdigit⟩

/-- The sign of a number, and its digits after that. -/
theorem splitSign_text {n : Number} (h : n.IsWritten) (rest : List Char) :
    (match n.text ++ rest with
      | '-' :: rest => (true, rest)
      | rest => (false, rest)) = (n.negative, n.digitsText ++ rest) := by
  obtain ⟨c, whole, hwhole⟩ := List.exists_cons_of_ne_nil h.whole_ne_nil
  have hdigit := h.isDigit_of_mem_whole c (by simp [hwhole])
  unfold text
  cases n.negative with
  | true => rfl
  | false =>
    simp only [Bool.false_eq_true, if_false]
    split
    next hminus =>
      rw [digitsText, hwhole] at hminus
      obtain rfl := (List.cons.inj hminus).1
      exact absurd hdigit (by decide)
    next => rfl

/-- The text of a number is read as that number, up to where it ends. -/
theorem read?_text {n : Number} (h : n.IsWritten) {rest : List Char} (hrest : Follows rest) :
    read? (n.text ++ rest) = some (n, rest) := by
  have hdot : ∀ c ∈ (exponentText n.exponent ++ rest).head?, ¬ c.isDigit ∧ c ≠ '.' := by
    intro c hc
    cases hexponent : n.exponent with
    | none =>
      rw [hexponent] at hc
      exact ⟨(hrest c hc).1, (hrest c hc).2.1⟩
    | some e =>
      rw [hexponent] at hc
      obtain rfl := Option.some.inj hc
      decide
  unfold read?
  split
  next negative text hsign =>
    obtain ⟨rfl, rfl⟩ := Prod.mk.inj (hsign.symm.trans (splitSign_text h rest))
    unfold digitsText
    simp only [List.append_assoc, Option.bind_eq_bind, Option.bind_some,
      readWhole?_append h.whole_ne_nil h.isDigit_of_mem_whole h.whole_of_head?_zero
        (not_isDigit_of_mem_head?_fractionText hrest n.fraction n.exponent),
      readFraction?_append h.isDigit_of_mem_fraction hdot]
    obtain ⟨negative, whole, fraction, exponent⟩ := n
    cases exponent with
    | some e =>
      have hread := readExponent?_text e fun c hc => (hrest c hc).1
      simp only [exponentText, List.cons_append] at hread ⊢
      rw [hread]
      rfl
    | none =>
      simp only [exponentText, List.nil_append]
      split
      next => exact absurd rfl (hrest 'e' rfl).2.2.1
      next => exact absurd rfl (hrest 'E' rfl).2.2.2
      next => rfl

theorem accumulate_eq {digits : List Char} {significand : Nat}
    (h : Nat.ofDigitChars 10 digits significand < significandLimit) :
    accumulate significand digits = (Nat.ofDigitChars 10 digits significand, []) := by
  induction digits generalizing significand with
  | nil => rfl
  | cons c digits ih =>
    rw [Nat.ofDigitChars_cons, Nat.mul_comm] at h
    have hfits := Nat.lt_of_le_of_lt (le_ofDigitChars digits _) h
    rw [accumulate, if_pos hfits, ih h, Nat.ofDigitChars_cons, Nat.mul_comm 10]

theorem accumulate_fst_lt {significand : Nat} (h : significand < significandLimit)
    (digits : List Char) : (accumulate significand digits).1 < significandLimit := by
  induction digits generalizing significand with
  | nil => exact h
  | cons c digits ih =>
    simp only [accumulate]
    split
    next hfits => exact ih hfits
    next => exact h

theorem count?_lt (n : Number) : ∀ count ∈ n.count?, count < significandLimit := by
  intro count hcount
  have hlt := accumulate_fst_lt (show 0 < significandLimit by decide) n.whole
  unfold count? at hcount
  split at hcount
  next heq =>
    rw [heq] at hlt
    split at hcount
    next =>
      obtain rfl := Option.some.inj hcount
      exact hlt
    next => cases hcount
  next => cases hcount

/-- The decimal that a number is, without its sign. -/
def decimal (n : Number) : Decimal where
  coefficient := Nat.ofDigitChars 10 (n.whole ++ n.fraction) 0
  exponent := n.exponent.getD 0 - n.fraction.length

/-- The value of a number whose digits fit into a significand. -/
theorem value?_eq {n : Number} (h : n.decimal.coefficient < significandLimit) :
    n.value? = (scaled? (n.decimal.exponent.natAbs / maxPower) (ofNat n.decimal.coefficient)
      n.decimal.exponent).map fun x => if n.negative then x.neg else x := by
  simp only [decimal, Nat.ofDigitChars_append] at h ⊢
  unfold value?
  rw [accumulate_eq (Nat.lt_of_le_of_lt (le_ofDigitChars _ _) h)]
  simp only [accumulate_eq h, List.length_nil, Nat.sub_zero, Int.natCast_zero, Int.add_zero]

end Reckoner.Json.Number
