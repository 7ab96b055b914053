import Reckoner.Json.Basic
import Reckoner.Proofs.Json.Number

/-! Reading JSON that is laid out over lines: what is read of the parts, with any space before
them, is read of the whole. -/
namespace Reckoner.Json

theorem skipSpace_cons_of_isSpace {c : Char} (h : isSpace c) (text : List Char) :
    skipSpace (c :: text) = skipSpace text := by
  unfold skipSpace
  rw [List.dropWhile_cons_of_pos h]

theorem skipSpace_cons {c : Char} (h : ¬ isSpace c) (text : List Char) :
    skipSpace (c :: text) = c :: text := by
  unfold skipSpace
  rw [List.dropWhile_cons_of_neg h]

theorem skipSpace_replicate_append (n : Nat) (text : List Char) :
    skipSpace (List.replicate n ' ' ++ text) = skipSpace text := by
  induction n with
  | zero => rfl
  | succ n ih =>
    rw [List.replicate_succ, List.cons_append, skipSpace_cons_of_isSpace (by decide), ih]

theorem skipSpace_line (n : Nat) (text : List Char) :
    skipSpace ('\n' :: (List.replicate n ' ' ++ text)) = skipSpace text := by
  rw [skipSpace_cons_of_isSpace (by decide), skipSpace_replicate_append]

@[simp] theorem skipSpace_skipSpace (text : List Char) :
    skipSpace (skipSpace text) = skipSpace text := by
  induction text with
  | nil => rfl
  | cons c text ih =>
    by_cases h : isSpace c
    · rw [skipSpace_cons_of_isSpace h, ih]
    · rw [skipSpace_cons h, skipSpace_cons h]

theorem readValue?_congr {text text' : List Char} (h : skipSpace text = skipSpace text')
    (fuel : Nat) : readValue? fuel text = readValue? fuel text' := by
  cases fuel with
  | zero => rfl
  | succ fuel => unfold readValue?; rw [h]

theorem readFields?_congr {text text' : List Char} (h : skipSpace text = skipSpace text')
    (fuel : Nat) : readFields? fuel text = readFields? fuel text' := by
  cases fuel with
  | zero => rfl
  | succ fuel => unfold readFields?; rw [h]

theorem readItems?_congr {text text' : List Char} (h : skipSpace text = skipSpace text')
    (fuel : Nat) : readItems? fuel text = readItems? fuel text' := by
  cases fuel with
  | zero => rfl
  | succ fuel => unfold readItems?; rw [readValue?_congr h]

/-- Whether a text is read as a value, given enough fuel, before whatever can follow. -/
def Reads (fuel : Nat) (text : List Char) (value : Json) : Prop :=
  ∀ k, fuel ≤ k → ∀ rest, Number.Follows rest →
    readValue? k (text ++ rest) = some (value, rest)

theorem reads_quote (text : List Char) : Reads 1 (quote text) (.string (text.map .char)) := by
  intro k hk rest _
  obtain ⟨k, rfl⟩ : ∃ j, k = j + 1 := Nat.exists_eq_add_one.mpr hk
  unfold quote readValue?
  rw [List.cons_append, List.cons_append, skipSpace_cons (by decide)]
  simp only [List.append_assoc, List.singleton_append, readQuoted?_quote, Option.map_some]

private theorem not_special {c : Char} (h : c = '-' ∨ c.isDigit) :
    ¬ isSpace c ∧ c ≠ '"' ∧ c ≠ '[' ∧ c ≠ '\x7b' ∧ c ≠ 'n' ∧ c ≠ 't' ∧ c ≠ 'f' := by
  rcases h with rfl | h
  · decide
  · exact of_isDigit (p := fun c => ¬ isSpace c ∧ c ≠ '"' ∧ c ≠ '[' ∧ c ≠ '\x7b' ∧ c ≠ 'n' ∧
      c ≠ 't' ∧ c ≠ 'f') (by decide) h

theorem reads_number {n : Number} (hn : n.IsWritten) : Reads 1 n.text (.number n) := by
  intro k hk rest hrest
  obtain ⟨k, rfl⟩ : ∃ j, k = j + 1 := Nat.exists_eq_add_one.mpr hk
  have hread := Number.read?_text hn hrest
  obtain ⟨c, text, htext, hc⟩ := Number.exists_text_eq_cons hn
  obtain ⟨hspace, hquote, harray, hobject, hnull, htrue, hfalse⟩ := not_special hc
  rw [htext, List.cons_append] at hread ⊢
  unfold readValue?
  rw [skipSpace_cons hspace]
  split
  next h => exact absurd (List.cons.inj h).1 hquote
  next h => exact absurd (List.cons.inj h).1 harray
  next h => exact absurd (List.cons.inj h).1 hobject
  next h => exact absurd (List.cons.inj h).1 hnull
  next h => exact absurd (List.cons.inj h).1 htrue
  next h => exact absurd (List.cons.inj h).1 hfalse
  next => rw [hread]; rfl

def member (key text : List Char) : List Char :=
  quote key ++ ':' :: ' ' :: text

theorem skipSpace_member (key text rest : List Char) :
    skipSpace (member key text ++ rest) = member key text ++ rest := by
  unfold member quote
  rw [List.cons_append, List.cons_append, List.cons_append, skipSpace_cons (by decide)]

/-- What comes before the comma or the brace that follows the value of a field. -/
private theorem readFields?_member {fuel : Nat} {key text : List Char} {value : Json}
    (h : Reads fuel text value) {k : Nat} (hk : fuel ≤ k) {rest : List Char}
    (hrest : Number.Follows rest) :
    (∀ more, skipSpace rest = ',' :: more →
      readFields? (k + 1) (member key text ++ rest) =
        (readFields? k more).map fun (fields, rest) => ((key.map .char, value) :: fields, rest)) ∧
    (∀ more, skipSpace rest = '\x7d' :: more →
      readFields? (k + 1) (member key text ++ rest) = some ([(key.map .char, value)], more)) := by
  rw [readFields?, skipSpace_member]
  unfold member quote
  have hvalue : readValue? k (' ' :: (text ++ rest)) = some (value, rest) := by
    rw [readValue?_congr (skipSpace_cons_of_isSpace (by decide) _), h k hk rest hrest]
  simp only [List.cons_append, List.append_assoc, List.nil_append, readQuoted?_quote,
    Option.bind_eq_bind, Option.bind_some, skipSpace_cons (show ¬ isSpace ':' by decide), hvalue]
  constructor
  · intro more hcomma
    rw [hcomma, Option.map_eq_bind]
    rfl
  · intro more hclose
    rw [hclose]
    rfl

theorem readFields?_cons {fuel : Nat} {key text : List Char} {value : Json}
    (h : Reads fuel text value) {k : Nat} (hk : fuel ≤ k) (rest : List Char) :
    readFields? (k + 1) (member key text ++ ',' :: rest) =
      (readFields? k rest).map fun (fields, rest) => ((key.map .char, value) :: fields, rest) := by
  apply (readFields?_member h hk (Number.follows_cons (by decide) _)).1
  exact skipSpace_cons (by decide) rest

theorem readFields?_last {fuel : Nat} {key text : List Char} {value : Json}
    (h : Reads fuel text value) {k : Nat} (hk : fuel ≤ k) (depth : Nat) (rest : List Char) :
    readFields? (k + 1)
        (member key text ++ '\n' :: (List.replicate depth ' ' ++ '\x7d' :: rest)) =
      some ([(key.map .char, value)], rest) := by
  apply (readFields?_member h hk (Number.follows_cons (by decide) _)).2
  rw [skipSpace_line, skipSpace_cons (by decide)]

/-- An object with at least one field, which begins on a line of its own. -/
theorem readValue?_object {k : Nat} {fields : List (List Piece × Json)}
    {key text rest rest' : List Char} (depth : Nat)
    (h : readFields? k (member key text ++ rest) = some (fields, rest')) :
    readValue? (k + 1)
        ('\x7b' :: '\n' :: (List.replicate depth ' ' ++ (member key text ++ rest))) =
      some (.object fields, rest') := by
  unfold readValue?
  rw [skipSpace_cons (by decide)]
  simp only
  rw [skipSpace_line, skipSpace_member]
  split
  next hbrace => exact absurd (List.cons.inj hbrace).1 (by decide)
  next =>
    rw [h]
    rfl

/-- What comes before the comma or the bracket that follows an item. -/
private theorem readItems?_append {fuel : Nat} {text : List Char} {value : Json}
    (h : Reads fuel text value) {k : Nat} (hk : fuel ≤ k) {rest : List Char}
    (hrest : Number.Follows rest) :
    (∀ more, skipSpace rest = ',' :: more →
      readItems? (k + 1) (text ++ rest) =
        (readItems? k more).map fun (items, rest) => (value :: items, rest)) ∧
    (∀ more, skipSpace rest = ']' :: more →
      readItems? (k + 1) (text ++ rest) = some ([value], more)) := by
  rw [readItems?, h k hk rest hrest]
  simp only [Option.bind_eq_bind, Option.bind_some]
  constructor
  · intro more hcomma
    rw [hcomma, Option.map_eq_bind]
    rfl
  · intro more hclose
    rw [hclose]
    rfl

theorem readItems?_cons {fuel : Nat} {text : List Char} {value : Json}
    (h : Reads fuel text value) {k : Nat} (hk : fuel ≤ k) (rest : List Char) :
    readItems? (k + 1) (text ++ ',' :: rest) =
      (readItems? k rest).map fun (items, rest) => (value :: items, rest) := by
  apply (readItems?_append h hk (Number.follows_cons (by decide) _)).1
  exact skipSpace_cons (by decide) rest

theorem readItems?_last {fuel : Nat} {text : List Char} {value : Json}
    (h : Reads fuel text value) {k : Nat} (hk : fuel ≤ k) (depth : Nat) (rest : List Char) :
    readItems? (k + 1) (text ++ '\n' :: (List.replicate depth ' ' ++ ']' :: rest)) =
      some ([value], rest) := by
  apply (readItems?_append h hk (Number.follows_cons (by decide) _)).2
  rw [skipSpace_line, skipSpace_cons (by decide)]

/-- An array with at least one item, which begins on a line of its own. -/
theorem readValue?_array {k : Nat} {items : List Json} {text rest : List Char}
    (h : readItems? k text = some (items, rest)) (hclose : ∀ c ∈ (skipSpace text).head?, c ≠ ']') :
    readValue? (k + 1) ('[' :: '\n' :: text) = some (.array items, rest) := by
  unfold readValue?
  rw [skipSpace_cons (by decide)]
  simp only
  rw [skipSpace_cons_of_isSpace (by decide)]
  split
  next hbracket =>
    rw [hbracket] at hclose
    exact absurd rfl (hclose ']' rfl)
  next =>
    rw [readItems?_congr (skipSpace_skipSpace text), h]
    rfl

end Reckoner.Json
