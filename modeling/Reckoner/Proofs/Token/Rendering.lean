import Reckoner.Proofs.Token.Lexemes

/-! Reading tokens and writing them are inverse to each other. The texts of the tokens that are read
make up what has been read, and the tokens that can be read at all are read back, whether they are
written one after the other or with spaces between them. -/
namespace Reckoner.Token

/-- Whether tokens are such as a text can have: no negation, no two numbers side by side, and every
number with the value that its literal is read as. -/
structure AreLegible (tokens : List Token) : Prop where
  neg_notMem : operator .neg ∉ tokens
  apart : tokens.IsChain fun a b => ¬ (a.isNumber ∧ b.isNumber)
  read?_literal : ∀ value literal, number value literal ∈ tokens →
    IsNumberLexeme literal ∧ Binary64.read? literal = some value

theorem isWritten_iff {t : Token} :
    t.IsWritten ↔ t ≠ operator .neg ∧ ∀ value literal, t = number value literal →
      IsNumberLexeme literal ∧ Binary64.read? literal = some value := by
  constructor
  · intro h
    cases h with
    | number n =>
      refine ⟨nofun, fun value literal heq => ?_⟩
      obtain ⟨rfl, rfl⟩ := number.inj heq
      exact ⟨isNumberLexeme_text n, n.read?_text⟩
    | operator hop => exact ⟨fun heq => hop (operator.inj heq), nofun⟩
    | opening => exact ⟨nofun, nofun⟩
    | closing => exact ⟨nofun, nofun⟩
  · rintro ⟨hneg, hnumber⟩
    cases t with
    | number value literal =>
      obtain ⟨hlexeme, hread⟩ := hnumber value literal rfl
      obtain ⟨n, rfl⟩ := hlexeme.exists_numeral
      obtain rfl : n.value = value := Option.some.inj (n.read?_text.symm.trans hread)
      exact .number n
    | operator op => exact .operator fun hop => hneg (congrArg operator hop)
    | opening => exact .opening
    | closing => exact .closing

theorem areLegible_iff {tokens : List Token} :
    AreLegible tokens ↔ (∀ t ∈ tokens, t.IsWritten) ∧ tokens.IsChain Apart := by
  constructor
  · rintro ⟨hneg, hapart, hread⟩
    refine ⟨fun t ht => isWritten_iff.mpr ⟨?_, ?_⟩, hapart⟩
    · rintro rfl
      exact hneg ht
    · rintro value literal rfl
      exact hread value literal ht
  · rintro ⟨hwritten, hapart⟩
    refine ⟨fun hneg => (isWritten_iff.mp (hwritten _ hneg)).1 rfl, hapart,
      fun value literal hmem => (isWritten_iff.mp (hwritten _ hmem)).2 value literal rfl⟩

/-- Spaces between tokens are not part of them. -/
theorem strip_join (tokens : List Token) :
    strip (join tokens) = strip (tokens.flatMap text) := by
  unfold join
  induction tokens with
  | nil => rfl
  | cons t tokens ih =>
    rw [List.map_cons, List.flatMap_cons, strip_append, ← ih]
    cases tokens with
    | nil => simp [strip]
    | cons t' tokens =>
      have hspace : strip [' '] = [] := by decide
      rw [List.map_cons, List.intercalate_cons_cons, strip_append, strip_append, hspace,
        List.append_nil]

/-- Whatever white space a text holds, it has the same tokens. -/
theorem ofText_congr {text text' : List Char} (h : strip text = strip text') :
    ofText text = ofText text' := by
  unfold ofText
  rw [h]

theorem AreLegible.ofText_flatMap_text {tokens : List Token} (h : AreLegible tokens) :
    ofText (tokens.flatMap text) = .ok tokens := by
  obtain ⟨hwritten, hapart⟩ := areLegible_iff.mp h
  exact Token.ofText_flatMap_text hwritten hapart

theorem AreLegible.ofText_join {tokens : List Token} (h : AreLegible tokens) :
    ofText (join tokens) = .ok tokens :=
  (ofText_congr (strip_join tokens)).trans h.ofText_flatMap_text

/-- Reading and writing are inverse. What is read from a text are the legible tokens whose texts
make up the text without its white space, and with spaces between them they are read again. All
legible tokens are read back from their texts, with or without spaces between them. -/
theorem ofText_inverse_text :
    (∀ (expression : List Char) (tokens : List Token), ofText expression = .ok tokens →
      tokens.flatMap text = strip expression ∧ AreLegible tokens ∧
        ofText (join tokens) = .ok tokens) ∧
    ∀ tokens : List Token, AreLegible tokens →
      ofText (tokens.flatMap text) = .ok tokens ∧ ofText (join tokens) = .ok tokens := by
  refine ⟨fun expression tokens h => ?_, fun tokens h => ⟨h.ofText_flatMap_text, h.ofText_join⟩⟩
  obtain ⟨hwritten, hapart, hstrip⟩ := ofText_eq_ok_iff.mp h
  have hlegible := areLegible_iff.mpr ⟨hwritten, hapart⟩
  exact ⟨hstrip, hlegible, hlegible.ofText_join⟩

/-- A literal is kept as it has been written. -/
example : (ofText "3. *007".toList).map join = .ok "3. * 007".toList := by decide +kernel

end Reckoner.Token
