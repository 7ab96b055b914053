import Reckoner.Proofs.Display.Plain
import Reckoner.Proofs.Display.Significant

/-! The thousands of a text set apart. Nothing is added but commas, and they cut the whole part of
a number into groups of three from its end. -/
namespace Reckoner

theorem length_le_byteCount (text : List Char) : text.length ≤ byteCount text := by
  induction text with
  | nil => exact Nat.le_refl 0
  | cons c rest ih =>
    have hsize := c.utf8Size_pos
    rw [List.length_cons, byteCount]
    omega

theorem byteCount_digits {digits : List Char} (h : ∀ c ∈ digits, c.isDigit) :
    byteCount digits = digits.length := by
  induction digits with
  | nil => rfl
  | cons c rest ih =>
    have hsize : c.utf8Size = 1 :=
      of_isDigit (p := fun c => c.utf8Size = 1) (by decide) (h c (by simp))
    rw [byteCount, hsize, ih fun c hc => h c (by simp [hc]), List.length_cons, Nat.add_comm]

namespace Display

open Decimal (IsFraction)

/-! The positions are counted in characters and the end in bytes. A subtraction that goes below
zero is refused here, and it turns out that none does. -/

/-- The difference of two numbers unless it is below zero. -/
def difference? (a b : Nat) : Option Nat :=
  if b ≤ a then some (a - b) else none

/-- Whether a comma stands at a position, if that can be worked out. -/
def isBoundary? (bytes position : Nat) : Option Bool :=
  if 0 < position then (difference? bytes position).map (· % 3 == 0) else some false

/-- The digits with their commas, if the place of each can be worked out. -/
def separated? (bytes position : Nat) : List Char → Option (List Char)
  | [] => some []
  | c :: rest => do
    let boundary ← isBoundary? bytes position
    let text ← separated? bytes (position + 1) rest
    some (if boundary then ',' :: c :: text else c :: text)

theorem isBoundary?_eq {bytes position : Nat} (h : position ≤ bytes) :
    isBoundary? bytes position = some (decide (0 < position ∧ (bytes - position) % 3 = 0)) := by
  unfold isBoundary? difference?
  by_cases hpos : 0 < position
  · simp [hpos, h, Bool.beq_eq_decide_eq]
  · simp [hpos]

theorem separated?_eq {bytes position : Nat} {text : List Char}
    (h : position + text.length ≤ bytes) :
    separated? bytes position text = some (separated bytes position text) := by
  induction text generalizing position with
  | nil => rfl
  | cons c rest ih =>
    rw [List.length_cons] at h
    rw [separated?, separated, isBoundary?_eq (by omega), ih (by omega)]
    simp only [Option.bind_eq_bind, Option.bind_some, decide_eq_true_eq]

/-! The parts of a text. -/

def cutSign : List Char → List Char × List Char
  | '-' :: unsigned => (['-'], unsigned)
  | unsigned => ([], unsigned)

def wholePart (text : List Char) : List Char :=
  (cutSign text).2.takeWhile (· ≠ '.')

def fractionPart (text : List Char) : List Char :=
  (cutSign text).2.dropWhile (· ≠ '.')

theorem cutSign_append (text : List Char) :
    (cutSign text).1 ++ wholePart text ++ fractionPart text = text := by
  rw [List.append_assoc, wholePart, fractionPart, List.takeWhile_append_dropWhile]
  unfold cutSign
  split <;> rfl

theorem groupThousands_eq (text : List Char) :
    groupThousands text =
      if text.any (· ∈ ['e', 'n', 'i']) then text
      else (cutSign text).1 ++ separated (byteCount (wholePart text)) 0 (wholePart text) ++
        fractionPart text :=
  rfl

/-- The text with its thousands apart, if the place of each comma can be worked out. -/
def groupThousands? (text : List Char) : Option (List Char) :=
  if text.any (· ∈ ['e', 'n', 'i']) then some text
  else
    (separated? (byteCount (wholePart text)) 0 (wholePart text)).map fun whole =>
      (cutSign text).1 ++ whole ++ fractionPart text

theorem groupThousands?_eq (text : List Char) :
    groupThousands? text = some (groupThousands text) := by
  have hlength : 0 + (wholePart text).length ≤ byteCount (wholePart text) := by
    rw [Nat.zero_add]
    exact length_le_byteCount _
  rw [groupThousands?, groupThousands_eq, separated?_eq hlength]
  split <;> rfl

/-! What is left when the commas are taken away. -/

def withoutCommas (text : List Char) : List Char :=
  text.filter (· ≠ ',')

@[simp] theorem withoutCommas_append (a b : List Char) :
    withoutCommas (a ++ b) = withoutCommas a ++ withoutCommas b :=
  List.filter_append ..

theorem withoutCommas_eq_self {text : List Char} (h : ',' ∉ text) : withoutCommas text = text := by
  rw [withoutCommas, List.filter_eq_self]
  intro c hc
  exact decide_eq_true (ne_of_mem_of_not_mem hc h)

theorem withoutCommas_separated (bytes position : Nat) (text : List Char) :
    withoutCommas (separated bytes position text) = withoutCommas text := by
  induction text generalizing position with
  | nil => rfl
  | cons c rest ih =>
    have hrest := ih (position + 1)
    unfold withoutCommas at hrest ⊢
    rw [separated]
    split
    next => rw [List.filter_cons_of_neg (by decide), List.filter_cons, hrest, List.filter_cons]
    next => rw [List.filter_cons, hrest, List.filter_cons]

theorem withoutCommas_groupThousands (text : List Char) :
    withoutCommas (groupThousands text) = withoutCommas text := by
  rw [groupThousands_eq]
  split
  next => rfl
  next =>
    calc withoutCommas ((cutSign text).1 ++ separated _ 0 (wholePart text) ++ fractionPart text)
      _ = withoutCommas ((cutSign text).1 ++ wholePart text ++ fractionPart text) := by
        simp only [withoutCommas_append, withoutCommas_separated]
      _ = withoutCommas text := by rw [cutSign_append]

/-! Where the commas stand among digits. -/

/-- Digits cut by commas into groups of three, of which only the first may have fewer. -/
def IsGrouped (digits text : List Char) : Prop :=
  ∃ (first : List Char) (groups : List (List Char)), digits = first ++ groups.flatten ∧
    1 ≤ first.length ∧ first.length ≤ 3 ∧ (∀ group ∈ groups, group.length = 3) ∧
    text = [','].intercalate (first :: groups)

theorem intercalate_cons_eq_flatMap (first : List Char) (groups : List (List Char)) :
    [','].intercalate (first :: groups) = first ++ groups.flatMap (',' :: ·) := by
  induction groups generalizing first with
  | nil => rw [List.intercalate_singleton, List.flatMap_nil, List.append_nil]
  | cons group groups ih =>
    rw [List.intercalate_cons_cons, ih, List.flatMap_cons, List.append_assoc]
    rfl

/-- Digits that no boundary stands before are copied. -/
theorem separated_append {bytes position : Nat} {front : List Char} (back : List Char)
    (h : ∀ i < front.length, 0 < position + i → (bytes - (position + i)) % 3 ≠ 0) :
    separated bytes position (front ++ back) =
      front ++ separated bytes (position + front.length) back := by
  induction front generalizing position with
  | nil => rfl
  | cons c front ih =>
    have hfirst : ¬ (0 < position ∧ (bytes - position) % 3 = 0) := by
      rintro ⟨hpos, hboundary⟩
      exact h 0 (by simp) hpos hboundary
    have hrest : ∀ i < front.length, 0 < position + 1 + i →
        (bytes - (position + 1 + i)) % 3 ≠ 0 := by
      intro i hi hpos
      rw [Nat.add_assoc, Nat.add_comm 1] at hpos ⊢
      exact h (i + 1) (by simpa using hi) hpos
    rw [List.cons_append, separated, if_neg hfirst, ih hrest, List.length_cons, List.cons_append,
      Nat.add_assoc, Nat.add_comm 1]

/-- Behind the first digits a comma stands before every group of three. -/
theorem exists_separated_eq_flatMap (count : Nat) {position : Nat} (hposition : 0 < position)
    {digits : List Char} (hlength : digits.length = 3 * count) :
    ∃ groups : List (List Char), digits = groups.flatten ∧ (∀ group ∈ groups, group.length = 3) ∧
      separated (position + 3 * count) position digits = groups.flatMap (',' :: ·) := by
  -- the end stays where it is while the position moves on by one group
  induction count generalizing position digits with
  | zero =>
    obtain rfl := List.length_eq_zero_iff.mp hlength
    exact ⟨[], rfl, by simp, rfl⟩
  | succ count ih =>
    obtain ⟨a, b, c, rest, rfl⟩ : ∃ a b c rest, digits = a :: ([b, c] ++ rest) := by
      match digits, hlength with
      | a :: b :: c :: rest, _ => exact ⟨a, b, c, rest, rfl⟩
    have hrest : rest.length = 3 * count := by
      simp only [List.cons_append, List.nil_append, List.length_cons] at hlength
      omega
    obtain ⟨groups, rfl, hthree, hgroups⟩ := ih (Nat.add_pos_left hposition 3) hrest
    have hbytes : position + 3 * (count + 1) = position + 3 + 3 * count := by omega
    have hboundary : 0 < position ∧ (position + 3 + 3 * count - position) % 3 = 0 := by omega
    have hwithin : ∀ i < [b, c].length, 0 < position + 1 + i →
        (position + 3 + 3 * count - (position + 1 + i)) % 3 ≠ 0 := by
      intro i hi
      simp only [List.length_cons, List.length_nil] at hi
      omega
    refine ⟨[a, b, c] :: groups, rfl, by simpa using hthree, ?_⟩
    rw [hbytes, separated, if_pos hboundary, separated_append _ hwithin, List.flatMap_cons,
      ← hgroups]
    rfl

theorem exists_append_of_ne_nil {digits : List Char} (h : digits ≠ []) :
    ∃ (first rest : List Char) (count : Nat), digits = first ++ rest ∧ 1 ≤ first.length ∧
      first.length ≤ 3 ∧ rest.length = 3 * count := by
  have hpos := List.length_pos_iff.mpr h
  refine ⟨digits.take ((digits.length - 1) % 3 + 1), digits.drop ((digits.length - 1) % 3 + 1),
    (digits.length - 1) / 3, (List.take_append_drop ..).symm, ?_, ?_, ?_⟩
  · rw [List.length_take]
    omega
  · rw [List.length_take]
    omega
  · rw [List.length_drop]
    omega

theorem isGrouped_separated {digits : List Char} (h : digits ≠ []) :
    IsGrouped digits (separated digits.length 0 digits) := by
  obtain ⟨first, rest, count, rfl, hfirst, hthree, hrest⟩ := exists_append_of_ne_nil h
  obtain ⟨groups, rfl, hgroups, hseparated⟩ := exists_separated_eq_flatMap count hfirst hrest
  have hwithin : ∀ i < first.length, 0 < 0 + i →
      (first.length + 3 * count - (0 + i)) % 3 ≠ 0 := by omega
  refine ⟨first, groups, rfl, hfirst, hthree, hgroups, ?_⟩
  rw [List.length_append, hrest, separated_append _ hwithin, Nat.zero_add, hseparated,
    intercalate_cons_eq_flatMap]

theorem cutSign_signed (negative : Bool) (n : Numeral) :
    cutSign (signed negative n.text) = (signed negative [], n.text) := by
  cases negative with
  | true => rfl
  | false =>
    obtain ⟨c, rest, htext, hdigit⟩ := n.exists_text_eq_cons
    simp only [signed, Bool.false_eq_true, if_false, htext]
    unfold cutSign
    split
    next hminus =>
      obtain ⟨rfl, -⟩ := List.cons.inj hminus
      exact absurd hdigit (by decide)
    next => rfl

theorem ne_point_of_mem_whole (n : Numeral) : ∀ c ∈ n.whole, decide (c ≠ '.') := by
  intro c hc
  exact of_isDigit (p := fun c => decide (c ≠ '.')) (by decide) (n.isDigit_of_mem_whole c hc)

theorem wholePart_signed (negative : Bool) (n : Numeral) :
    wholePart (signed negative n.text) = n.whole := by
  rw [wholePart, cutSign_signed, Numeral.text,
    List.takeWhile_append_of_pos (ne_point_of_mem_whole n), Numeral.tail]
  cases n.fraction <;> simp

theorem fractionPart_signed (negative : Bool) (n : Numeral) :
    fractionPart (signed negative n.text) = n.tail := by
  rw [fractionPart, cutSign_signed, Numeral.text,
    List.dropWhile_append_of_pos (ne_point_of_mem_whole n), Numeral.tail]
  cases n.fraction <;> simp

theorem eq_minus_or_mem_of_mem_signed {negative : Bool} {text : List Char} {c : Char}
    (h : c ∈ signed negative text) : c = '-' ∨ c ∈ text := by
  cases negative with
  | false => exact .inr h
  | true => exact List.mem_cons.mp h

/-- A number has none of the letters of the texts that are left alone. -/
theorem any_signed (negative : Bool) (n : Numeral) :
    (signed negative n.text).any (· ∈ ['e', 'n', 'i']) = false := by
  rw [List.any_eq_false]
  intro c hc
  rcases eq_minus_or_mem_of_mem_signed hc with rfl | htext
  · decide
  rcases n.isDigit_or_point_of_mem_text htext with hdigit | rfl
  · exact of_isDigit (p := fun c => ¬ decide (c ∈ ['e', 'n', 'i']) = true) (by decide) hdigit
  · decide

/-- Only the whole part of a number is touched. -/
theorem groupThousands_signed (negative : Bool) (n : Numeral) :
    groupThousands (signed negative n.text) =
      signed negative (separated n.whole.length 0 n.whole ++ n.tail) := by
  rw [groupThousands_eq, any_signed, if_neg Bool.false_ne_true, wholePart_signed,
    fractionPart_signed, cutSign_signed, byteCount_digits n.isDigit_of_mem_whole]
  cases negative <;> rfl

/-! No text of a value has commas of its own. -/

theorem comma_notMem_of_isDigit {digits : List Char} (h : ∀ c ∈ digits, c.isDigit) :
    ',' ∉ digits := by
  intro hmem
  exact absurd (h ',' hmem) (by decide)

theorem comma_notMem_signed {text : List Char} (h : ',' ∉ text) (negative : Bool) :
    ',' ∉ signed negative text := by
  intro hmem
  exact (eq_minus_or_mem_of_mem_signed hmem).elim (by decide) h

theorem comma_notMem_positional (d : Decimal) : ',' ∉ d.positional := by
  rw [← d.text_numeral]
  intro h
  exact absurd (d.numeral.isDigit_or_point_of_mem_text h) (by decide)

theorem comma_notMem_plain (v : Binary64) : ',' ∉ plain v := by
  cases v with
  | nan => decide
  | infinite negative => exact comma_notMem_signed (by decide) negative
  | finite negative x => exact comma_notMem_signed (comma_notMem_positional _) _

theorem comma_notMem_fraction {text : List Char} (h : IsFraction text) : ',' ∉ text := by
  cases h with
  | none => simp
  | @digits digits last hdigits hlast =>
    have hne : ',' ≠ last := by
      rintro rfl
      exact absurd hlast.1 (by decide)
    simp [comma_notMem_of_isDigit hdigits, hne]

theorem IsScientific.comma_notMem {leading : ℤ} {text : List Char}
    (h : IsScientific leading text) : ',' ∉ text := by
  obtain ⟨digit, fraction, exponent, rfl, hdigit, hfraction, hexponent, -⟩ := h
  have hne : ',' ≠ digit := by
    rintro rfl
    exact absurd hdigit (by decide)
  have hsign : ',' ≠ (if leading < 0 then '-' else '+') := by split <;> decide
  simp [hne, hsign, comma_notMem_fraction hfraction, comma_notMem_of_isDigit hexponent]

theorem comma_notMem_unsigned (digits : Nat) (x : Magnitude) : ',' ∉ unsigned digits x := by
  unfold unsigned
  split
  next => exact comma_notMem_positional _
  next => exact (isScientific_mantissa _).comma_notMem

theorem comma_notMem_significant (digits : Nat) (v : Binary64) : ',' ∉ significant digits v := by
  cases v with
  | nan =>
    rw [significant]
    decide
  | infinite negative => exact comma_notMem_signed (by decide) negative
  | finite negative x =>
    by_cases hx : x.isZero
    · rw [significant, if_pos hx]
      decide
    · rw [significant_finite digits negative hx]
      exact comma_notMem_signed (comma_notMem_unsigned digits x) negative

/-- No text makes the difference of a position and the end underflow, and no text gets anything but
commas. The whole part of a number is cut into groups of three. What is shown of a value, with the
commas taken away, is what is shown of it without them. -/
theorem groupThousands_separates :
    (∀ text, groupThousands? text = some (groupThousands text)) ∧
    (∀ text, withoutCommas (groupThousands text) = withoutCommas text) ∧
    (∀ (negative : Bool) (n : Numeral), ∃ whole, IsGrouped n.whole whole ∧
      groupThousands (signed negative n.text) = signed negative (whole ++ n.tail)) ∧
    (∀ v, withoutCommas (grouped v) = plain v) ∧
    ∀ precision v, (Options.format ⟨precision, true⟩ v).map withoutCommas =
      Options.format ⟨precision, false⟩ v := by
  refine ⟨groupThousands?_eq, withoutCommas_groupThousands, ?_, ?_, ?_⟩
  · intro negative n
    exact ⟨_, isGrouped_separated n.whole_ne_nil, groupThousands_signed negative n⟩
  · intro v
    rw [grouped, withoutCommas_groupThousands, withoutCommas_eq_self (comma_notMem_plain v)]
  · intro precision v
    have hself := withoutCommas_eq_self (comma_notMem_significant precision v)
    unfold Options.format
    split
    next => rfl
    next => simp [Except.map, withoutCommas_groupThousands, hself]

-- The end is counted in bytes, so letters that take two are set apart elsewhere than digits.
example :
    groupThousands "-1234567.8901".toList = "-1,234,567.8901".toList ∧
      groupThousands "ææ".toList = "æ,æ".toList := by decide +kernel

end Display

end Reckoner
