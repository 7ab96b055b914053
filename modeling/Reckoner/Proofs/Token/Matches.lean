import Mathlib.Data.List.TakeWhile
import Reckoner.Proofs.Outcome
import Reckoner.Token.Lexer

/-! Scanning without positions: a text is taken character by character, and a number is as long as
it can be. That finds the same as searching for matches and for the gaps between them. -/
namespace Reckoner

/-- The number that is being read, its last character first. -/
structure OpenNumber where
  reversed : List Char
  hasPoint : Bool

/-- The lexemes of a text without white space, after the number that is being read, if any. -/
def scanAfter : Option OpenNumber → List Char → Except ExpressionError (List (List Char))
  | none, [] => .ok []
  | some number, [] => .ok [number.reversed.reverse]
  | none, c :: rest =>
    if c.isDigit then scanAfter (some ⟨[c], false⟩) rest
    else if isTokenSymbol c then (scanAfter none rest).map ([c] :: ·)
    else .error (.strayCharacter c)
  | some number, c :: rest =>
    if c.isDigit then scanAfter (some ⟨c :: number.reversed, number.hasPoint⟩) rest
    else if c = '.' ∧ !number.hasPoint then scanAfter (some ⟨c :: number.reversed, true⟩) rest
    else if isTokenSymbol c then
      (scanAfter none rest).map (number.reversed.reverse :: [c] :: ·)
    else .error (.strayCharacter c)

/-! The automaton takes the lexeme that the pattern takes. -/

theorem scanAfter_digits {digits : List Char} (h : ∀ c ∈ digits, c.isDigit)
    (reversed rest : List Char) (hasPoint : Bool) :
    scanAfter (some ⟨reversed, hasPoint⟩) (digits ++ rest) =
      scanAfter (some ⟨digits.reverse ++ reversed, hasPoint⟩) rest := by
  induction digits generalizing reversed with
  | nil => rfl
  | cons c digits ih =>
    rw [List.cons_append, scanAfter, if_pos (h c (by simp)), ih fun c hc => h c (by simp [hc])]
    simp

theorem scanAfter_takeWhile (reversed text : List Char) (hasPoint : Bool) :
    scanAfter (some ⟨reversed, hasPoint⟩) text =
      scanAfter (some ⟨(text.takeWhile Char.isDigit).reverse ++ reversed, hasPoint⟩)
        (text.dropWhile Char.isDigit) := by
  rw [← scanAfter_digits fun c hc => List.mem_takeWhile_imp hc,
    List.takeWhile_append_dropWhile]

/-- A number that is open ends before all that it cannot go on with: the end of the text, a symbol,
and a point where it has one. -/
theorem scanAfter_some {number : OpenNumber} {rest : List Char}
    (h : ∀ c ∈ rest.head?, ¬ c.isDigit ∧ (c = '.' → number.hasPoint)) :
    scanAfter (some number) rest =
      (scanAfter none rest).map (number.reversed.reverse :: ·) := by
  cases rest with
  | nil => rfl
  | cons c rest =>
    obtain ⟨hdigit, hpoint⟩ := h c rfl
    have hends : ¬ (c = '.' ∧ !number.hasPoint) := by
      rintro ⟨hc, hopen⟩
      simp [hpoint hc] at hopen
    rw [scanAfter, scanAfter, if_neg hdigit, if_neg hdigit, if_neg hends]
    split
    next => cases scanAfter none rest <;> rfl
    next => rfl

theorem not_isDigit_of_mem_head?_dropWhile (text : List Char) :
    ∀ c ∈ (text.dropWhile Char.isDigit).head?, ¬ c.isDigit := by
  intro c hc
  have hnot := List.head?_dropWhile_not Char.isDigit text
  rw [Option.mem_def.mp hc] at hnot
  simpa using hnot

theorem exists_of_lexemeAt? {text lexeme : List Char} (h : lexemeAt? text = some lexeme) :
    lexeme ≠ [] ∧ ∃ rest, text = lexeme ++ rest ∧
      scanAfter none text = (scanAfter none rest).map (lexeme :: ·) := by
  cases text with
  | nil => cases h
  | cons c text =>
    unfold lexemeAt? at h
    dsimp only at h
    split at h
    next hdigit =>
      have hopen : scanAfter none (c :: text) =
          scanAfter (some ⟨(c :: text.takeWhile Char.isDigit).reverse, false⟩)
            (text.dropWhile Char.isDigit) := by
        rw [scanAfter, if_pos hdigit, scanAfter_takeWhile, List.reverse_cons]
      have htext := List.takeWhile_append_dropWhile (p := Char.isDigit) (l := text)
      have hhead := not_isDigit_of_mem_head?_dropWhile text
      split at h
      next after hafter =>
        obtain rfl := Option.some.inj h
        refine ⟨by simp, after.dropWhile Char.isDigit, ?_, ?_⟩
        · conv =>
            lhs
            rw [← htext, hafter, ← List.takeWhile_append_dropWhile (p := Char.isDigit) (l := after)]
          simp
        · rw [hopen, hafter, scanAfter, if_neg (by decide), if_pos (by simp), scanAfter_takeWhile,
            scanAfter_some fun c hc => ⟨not_isDigit_of_mem_head?_dropWhile _ c hc, fun _ => rfl⟩]
          simp
      next hpoint =>
        obtain rfl := Option.some.inj h
        refine ⟨by simp, text.dropWhile Char.isDigit, by rw [List.cons_append, htext], ?_⟩
        rw [hopen, scanAfter_some fun c hc => ⟨hhead c hc, ?_⟩, List.reverse_reverse]
        rintro rfl
        obtain ⟨rest, hrest⟩ := List.head?_eq_some_iff.mp hc
        exact absurd hrest (hpoint rest)
    next hdigit =>
      split at h
      next hsymbol =>
        obtain rfl := Option.some.inj h
        exact ⟨by simp, text, rfl, by rw [scanAfter, if_neg hdigit, if_pos hsymbol]⟩
      next => cases h

theorem scanAfter_of_lexemeAt?_eq_none {c : Char} {rest : List Char}
    (h : lexemeAt? (c :: rest) = none) :
    scanAfter none (c :: rest) = .error (.strayCharacter c) := by
  unfold lexemeAt? at h
  dsimp only at h
  split at h
  next => split at h <;> cases h
  next hdigit =>
    split at h
    next => cases h
    next hsymbol => rw [scanAfter, if_neg hdigit, if_neg hsymbol]

/-! The search goes through the text in bytes, and its cursor is at the end of a beginning of it. -/

/-- What belongs to a match is passed over. -/
theorem matchesFrom_append (position : Nat) (lexeme rest : List Char) :
    matchesFrom position lexeme.length (lexeme ++ rest) =
      matchesFrom (position + byteCount lexeme) 0 rest := by
  induction lexeme generalizing position with
  | nil => rfl
  | cons c lexeme ih =>
    rw [List.length_cons, List.cons_append, matchesFrom, ih, byteCount, Nat.add_assoc]

theorem matchesFrom_of_lexemeAt? {lexeme rest : List Char} (position : Nat) (hne : lexeme ≠ [])
    (h : lexemeAt? (lexeme ++ rest) = some lexeme) :
    matchesFrom position 0 (lexeme ++ rest) =
      ⟨position, lexeme⟩ :: matchesFrom (position + byteCount lexeme) 0 rest := by
  obtain ⟨c, tail, rfl⟩ := List.exists_cons_of_ne_nil hne
  rw [List.cons_append] at h ⊢
  rw [matchesFrom]
  simp only [h, List.length_cons, Nat.add_sub_cancel]
  rw [matchesFrom_append, byteCount, Nat.add_assoc]

theorem le_start_of_mem_matchesFrom {position skipped : Nat} {text : List Char} :
    ∀ m ∈ matchesFrom position skipped text, position ≤ m.start := by
  induction text generalizing position skipped with
  | nil => simp [matchesFrom]
  | cons c text ih =>
    have hrest {skipped : Nat} : ∀ m ∈ matchesFrom (position + c.utf8Size) skipped text,
        position ≤ m.start := fun m hm => Nat.le_trans (Nat.le_add_right _ _) (ih m hm)
    unfold matchesFrom
    split
    next => exact hrest
    next =>
      split
      next => exact List.forall_mem_cons.mpr ⟨Nat.le_refl _, hrest⟩
      next => exact hrest

/-- A character that begins no lexeme leaves a gap. -/
theorem withoutGaps_of_lexemeAt?_eq_none {c : Char} {rest : List Char}
    (h : lexemeAt? (c :: rest) = none) (position : Nat) :
    withoutGaps (position + byteCount (c :: rest)) position
      (matchesFrom position 0 (c :: rest)) = .error position := by
  have hsize := c.utf8Size_pos
  have hlater : ∀ m ∈ matchesFrom position 0 (c :: rest), position < m.start := by
    rw [matchesFrom]
    simp only [h]
    exact fun m hm => Nat.lt_of_lt_of_le (by omega) (le_start_of_mem_matchesFrom m hm)
  cases hmatches : matchesFrom position 0 (c :: rest) with
  | nil => rw [withoutGaps, if_neg (by rw [byteCount]; omega)]
  | cons m matches' =>
    have := hlater m (by simp [hmatches])
    rw [withoutGaps, if_neg (by omega)]

theorem strayAt_byteCount (before : List Char) (c : Char) (after : List Char) :
    strayAt (before ++ c :: after) (byteCount before) = .strayCharacter c := by
  rw [strayAt, dropBytes?_append]
  rfl

/-- Whether a search in a text and the automaton have found the same: lexemes, or a character that
a gap begins with. -/
inductive Agrees (text : List Char) :
    Except Nat (List (List Char)) → Except ExpressionError (List (List Char)) → Prop
  | lexemes (found : List (List Char)) : Agrees text (.ok found) (.ok found)
  | gap {before : List Char} {c : Char} {after : List Char} (h : text = before ++ c :: after) :
      Agrees text (.error (byteCount before)) (.error (.strayCharacter c))

theorem Agrees.map {text : List Char} {found : Except Nat (List (List Char))}
    {taken : Except ExpressionError (List (List Char))} (h : Agrees text found taken)
    (f : List (List Char) → List (List Char)) : Agrees text (found.map f) (taken.map f) := by
  cases h with
  | lexemes found => exact .lexemes (f found)
  | gap h => exact .gap h

/-- What has been consumed determines where the cursor is, and the rest what is found. -/
theorem agrees_withoutGaps (before rest : List Char) :
    Agrees (before ++ rest)
      (withoutGaps (byteCount (before ++ rest)) (byteCount before)
        (matchesFrom (byteCount before) 0 rest))
      (scanAfter none rest) := by
  induction hlength : rest.length using Nat.strongRecOn generalizing before rest with
  | ind length ih =>
    cases hrest : rest with
    | nil =>
      rw [matchesFrom, withoutGaps, List.append_nil, if_pos rfl]
      exact .lexemes []
    | cons c tail =>
      rw [← hrest]
      cases hlexeme : lexemeAt? rest with
      | none =>
        rw [hrest] at hlexeme ⊢
        rw [byteCount_append, withoutGaps_of_lexemeAt?_eq_none hlexeme,
          scanAfter_of_lexemeAt?_eq_none hlexeme]
        exact .gap rfl
      | some lexeme =>
        obtain ⟨hne, after, rfl, hscan⟩ := exists_of_lexemeAt? hlexeme
        have hshorter : after.length < length := by
          have := List.length_pos_iff.mpr hne
          rw [← hlength, List.length_append]
          omega
        have hafter := ih _ hshorter (before ++ lexeme) after rfl
        rw [byteCount_append before lexeme, List.append_assoc] at hafter
        rw [matchesFrom_of_lexemeAt? _ hne hlexeme, withoutGaps, if_pos rfl, Match.finish, hscan]
        exact hafter.map _

theorem agrees_cut (text : List Char) : Agrees text (cut text) (scanAfter none text) :=
  agrees_withoutGaps [] text

theorem scan_eq_scanAfter (text : List Char) : scan text = scanAfter none text := by
  have hagrees := agrees_cut text
  unfold scan
  generalize cut text = found at *
  generalize scanAfter none text = taken at *
  cases hagrees with
  | lexemes found => rfl
  | gap h =>
    subst h
    exact congrArg Except.error (strayAt_byteCount _ _ _)

/-- A gap begins with a character, which is the one that is reported. -/
theorem exists_of_cut_eq_error {text : List Char} {position : Nat}
    (h : cut text = .error position) :
    ∃ before c after, text = before ++ c :: after ∧ position = byteCount before ∧
      scan text = .error (.strayCharacter c) := by
  have hagrees := agrees_cut text
  rw [h] at hagrees
  generalize scanAfter none text = taken at hagrees
  cases hagrees with
  | @gap before c after htext =>
    refine ⟨before, c, after, htext, rfl, ?_⟩
    rw [scan, h, htext]
    exact congrArg Except.error (strayAt_byteCount before c after)

end Reckoner
