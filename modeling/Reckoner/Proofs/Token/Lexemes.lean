import Reckoner.Proofs.Token.Written

/-! The lexemes of a text are the one way to cut it into symbols and numbers, no two numbers next to
each other. A text without lexemes is taken as far as it can be, and the character after that is
one that no lexeme begins with. -/
namespace Reckoner

/-- Digits, with or without a point after them, and more digits or none. -/
def IsNumberLexeme (lexeme : List Char) : Prop :=
  ∃ whole point fraction, lexeme = whole ++ point ++ fraction ∧ whole ≠ [] ∧
    (∀ c ∈ whole, c.isDigit) ∧ (point = [] ∨ point = ['.']) ∧ ∀ c ∈ fraction, c.isDigit

def IsSymbolLexeme (lexeme : List Char) : Prop :=
  ∃ c, lexeme = [c] ∧ isTokenSymbol c

structure IsDecomposition (text : List Char) (lexemes : List (List Char)) : Prop where
  flatten : lexemes.flatten = text
  isLexeme : ∀ lexeme ∈ lexemes, IsSymbolLexeme lexeme ∨ IsNumberLexeme lexeme
  apart : lexemes.IsChain fun a b => ¬ (IsNumberLexeme a ∧ IsNumberLexeme b)

theorem isNumberLexeme_text (n : Numeral) : IsNumberLexeme n.text := by
  unfold Numeral.text Numeral.tail
  cases hf : n.fraction with
  | none =>
    exact ⟨n.whole, [], [], by simp, n.whole_ne_nil, n.isDigit_of_mem_whole, .inl rfl, by simp⟩
  | some digits =>
    exact ⟨n.whole, ['.'], digits, by simp, n.whole_ne_nil, n.isDigit_of_mem_whole, .inr rfl,
      n.isDigit_of_mem_fraction digits hf⟩

theorem IsNumberLexeme.exists_numeral {lexeme : List Char} (h : IsNumberLexeme lexeme) :
    ∃ n : Numeral, n.text = lexeme := by
  obtain ⟨whole, point, fraction, rfl, hne, hwhole, rfl | rfl, hfraction⟩ := h
  · refine ⟨⟨whole ++ fraction, none, by simp [hne], fun c hc => ?_, by simp⟩, ?_⟩
    · exact (List.mem_append.mp hc).elim (hwhole c) (hfraction c)
    · simp [Numeral.text, Numeral.tail]
  · refine ⟨⟨whole, some fraction, hne, hwhole, fun digits hdigits => ?_⟩, ?_⟩
    · obtain rfl := Option.some.inj hdigits
      exact hfraction
    · simp [Numeral.text, Numeral.tail]

theorem IsSymbolLexeme.not_isNumberLexeme {lexeme : List Char} (h : IsSymbolLexeme lexeme) :
    ¬ IsNumberLexeme lexeme := by
  intro hnumber
  obtain ⟨c, hc, hsymbol⟩ := h
  obtain ⟨n, hn⟩ := hnumber.exists_numeral
  obtain ⟨d, rest, htext, hdigit⟩ := n.exists_text_eq_cons
  obtain rfl : d = c := (List.cons.inj (htext.symm.trans (hn.trans hc))).1
  exact not_isTokenSymbol hdigit hsymbol

namespace Token

theorem IsWritten.isLexeme {t : Token} (h : t.IsWritten) :
    (IsSymbolLexeme t.text ∨ IsNumberLexeme t.text) ∧ (IsNumberLexeme t.text ↔ t.isNumber) := by
  rcases h.text_cases with ⟨n, rfl⟩ | ⟨hnumber, c, htext, hsymbol, -⟩
  · have hlexeme := isNumberLexeme_text n
    exact ⟨.inr hlexeme, fun _ => rfl, fun _ => hlexeme⟩
  · have hlexeme : IsSymbolLexeme t.text := ⟨c, htext, hsymbol⟩
    exact ⟨.inl hlexeme, fun h => absurd h hlexeme.not_isNumberLexeme, fun h => absurd h hnumber⟩

theorem exists_isWritten_of_isLexeme {lexeme : List Char}
    (h : IsSymbolLexeme lexeme ∨ IsNumberLexeme lexeme) :
    ∃ t : Token, t.IsWritten ∧ t.text = lexeme := by
  rcases h with ⟨c, rfl, hsymbol⟩ | hnumber
  · obtain ⟨t, hwritten, -, htext⟩ := exists_isWritten_of_isTokenSymbol hsymbol
    exact ⟨t, hwritten, htext⟩
  · obtain ⟨n, rfl⟩ := hnumber.exists_numeral
    exact ⟨n.token, .number n, rfl⟩

theorem exists_map_text {lexemes : List (List Char)}
    (h : ∀ lexeme ∈ lexemes, IsSymbolLexeme lexeme ∨ IsNumberLexeme lexeme) :
    ∃ tokens : List Token, (∀ t ∈ tokens, t.IsWritten) ∧ tokens.map text = lexemes := by
  induction lexemes with
  | nil => exact ⟨[], by simp, rfl⟩
  | cons lexeme lexemes ih =>
    obtain ⟨hlexeme, hlexemes⟩ := List.forall_mem_cons.mp h
    obtain ⟨t, hwritten, rfl⟩ := exists_isWritten_of_isLexeme hlexeme
    obtain ⟨tokens, hall, rfl⟩ := ih hlexemes
    exact ⟨t :: tokens, List.forall_mem_cons.mpr ⟨hwritten, hall⟩, rfl⟩

/-- Numbers are next to each other among tokens where they are among the lexemes. -/
theorem isChain_map_text {tokens : List Token} (h : ∀ t ∈ tokens, t.IsWritten) :
    (tokens.map text).IsChain (fun a b => ¬ (IsNumberLexeme a ∧ IsNumberLexeme b)) ↔
      tokens.IsChain Apart := by
  have hiff : ∀ a ∈ tokens, ∀ b ∈ tokens,
      ¬ (IsNumberLexeme a.text ∧ IsNumberLexeme b.text) ↔ Apart a b := fun a ha b hb => by
    rw [(h a ha).isLexeme.2, (h b hb).isLexeme.2, Apart]
  rw [List.isChain_map]
  exact ⟨.imp_of_mem_imp fun a b ha hb => (hiff a ha b hb).mp,
    .imp_of_mem_imp fun a b ha hb => (hiff a ha b hb).mpr⟩

theorem Lexes.isDecomposition {text : List Char} {lexemes : List (List Char)}
    {tokens : List Token} (h : Lexes text lexemes tokens) : IsDecomposition text lexemes := by
  obtain ⟨hwritten, hchain, rfl, rfl⟩ := h
  refine ⟨List.flatMap_def.symm, fun lexeme hlexeme => ?_, (isChain_map_text hwritten).mpr hchain⟩
  obtain ⟨t, ht, rfl⟩ := List.mem_map.mp hlexeme
  exact (hwritten t ht).isLexeme.1

end Token

theorem scan_eq_ok_iff {text : List Char} {lexemes : List (List Char)} :
    scan text = .ok lexemes ↔ IsDecomposition text lexemes := by
  constructor
  · intro h
    obtain ⟨tokens, hlexes⟩ := Token.exists_lexes h
    exact hlexes.isDecomposition
  · rintro ⟨rfl, hlexeme, hapart⟩
    -- every lexeme is the text of a token, for which scanning is known
    obtain ⟨tokens, hwritten, rfl⟩ := Token.exists_map_text hlexeme
    rw [← List.flatMap_def]
    exact Token.scan_flatMap_text hwritten ((Token.isChain_map_text hwritten).mp hapart)

/-! Whether a character can be taken does not depend on what comes after it. -/

/-- Whether the text can be taken to its end, after the number that is being read, if any. -/
def CanScan (number : Option OpenNumber) (text : List Char) : Prop :=
  ∃ lexemes, scanAfter number text = .ok lexemes

theorem canScan_none_iff {text : List Char} :
    CanScan none text ↔ ∃ lexemes, scan text = .ok lexemes := by
  unfold CanScan
  rw [scan_eq_scanAfter]

theorem canScan_nil (number : Option OpenNumber) : CanScan number [] := by
  cases number with
  | none => exact ⟨_, rfl⟩
  | some number => exact ⟨_, rfl⟩

theorem scanAfter_cons_cases (number : Option OpenNumber) (c : Char) :
    (∃ next f, ∀ rest, scanAfter number (c :: rest) = (scanAfter next rest).map f) ∨
      (¬ c.isDigit ∧ ¬ isTokenSymbol c ∧
        ∀ rest, scanAfter number (c :: rest) = .error (.strayCharacter c)) := by
  have hid (x : Except ExpressionError (List (List Char))) : x = x.map id := by
    cases x <;> rfl
  by_cases hdigit : c.isDigit
  · left
    cases number with
    | none => exact ⟨_, id, fun rest => by rw [scanAfter, if_pos hdigit]; exact hid _⟩
    | some number => exact ⟨_, id, fun rest => by rw [scanAfter, if_pos hdigit]; exact hid _⟩
  by_cases hsymbol : isTokenSymbol c
  · left
    have hpoint : c ≠ '.' := by
      rintro rfl
      exact absurd hsymbol (by decide)
    cases number with
    | none =>
      exact ⟨none, ([c] :: ·), fun rest => by rw [scanAfter, if_neg hdigit, if_pos hsymbol]⟩
    | some number =>
      refine ⟨none, (number.reversed.reverse :: [c] :: ·), fun rest => ?_⟩
      rw [scanAfter, if_neg hdigit, if_neg fun h => hpoint h.1, if_pos hsymbol]
  cases number with
  | none =>
    exact .inr ⟨hdigit, hsymbol, fun rest => by rw [scanAfter, if_neg hdigit, if_neg hsymbol]⟩
  | some number =>
    by_cases hpoint : c = '.' ∧ !number.hasPoint
    · left
      exact ⟨_, id, fun rest => by rw [scanAfter, if_neg hdigit, if_pos hpoint]; exact hid _⟩
    · refine .inr ⟨hdigit, hsymbol, fun rest => ?_⟩
      rw [scanAfter, if_neg hdigit, if_neg hpoint, if_neg hsymbol]

theorem canScan_cons_iff {number next : Option OpenNumber} {c : Char}
    {f : List (List Char) → List (List Char)} {rest : List Char}
    (h : scanAfter number (c :: rest) = (scanAfter next rest).map f) :
    CanScan number (c :: rest) ↔ CanScan next rest := by
  unfold CanScan
  rw [h]
  cases scanAfter next rest <;> simp

/-- The beginning of a text that can be taken can be taken. -/
theorem CanScan.of_append {number : Option OpenNumber} {before after : List Char}
    (h : CanScan number (before ++ after)) : CanScan number before := by
  induction before generalizing number with
  | nil => exact canScan_nil number
  | cons c before ih =>
    rcases scanAfter_cons_cases number c with ⟨next, f, htaken⟩ | ⟨-, -, hstray⟩
    · exact (canScan_cons_iff (htaken before)).mpr
        (ih ((canScan_cons_iff (htaken (before ++ after))).mp h))
    · obtain ⟨lexemes, hscan⟩ := h
      rw [List.cons_append, hstray] at hscan
      cases hscan

/-- A text that cannot be taken to its end is taken up to a character that begins no lexeme. -/
theorem exists_stray {number : Option OpenNumber} {text : List Char} {e : ExpressionError}
    (h : scanAfter number text = .error e) :
    ∃ before c after, text = before ++ c :: after ∧ e = .strayCharacter c ∧
      ¬ c.isDigit ∧ ¬ isTokenSymbol c ∧ CanScan number before ∧
        ¬ CanScan number (before ++ [c]) := by
  induction text generalizing number with
  | nil =>
    obtain ⟨lexemes, hscan⟩ := canScan_nil number
    rw [hscan] at h
    cases h
  | cons c text ih =>
    rcases scanAfter_cons_cases number c with ⟨next, f, htaken⟩ | ⟨hdigit, hsymbol, hstray⟩
    · rw [htaken] at h
      obtain ⟨before, d, after, rfl, rfl, hdigit, hsymbol, hbefore, hnot⟩ :=
        ih (map_eq_error_iff.mp h)
      refine ⟨c :: before, d, after, rfl, rfl, hdigit, hsymbol, ?_, ?_⟩
      · exact (canScan_cons_iff (htaken before)).mpr hbefore
      · exact fun hscan => hnot ((canScan_cons_iff (htaken (before ++ [d]))).mp hscan)
    · rw [hstray] at h
      refine ⟨[], c, text, rfl, (Except.error.inj h).symm, hdigit, hsymbol, canScan_nil number, ?_⟩
      rintro ⟨lexemes, hscan⟩
      rw [List.nil_append, hstray] at hscan
      cases hscan

theorem exists_stray_of_scan {text : List Char} {e : ExpressionError}
    (h : scan text = .error e) :
    ∃ before c after, text = before ++ c :: after ∧ e = .strayCharacter c ∧
      ¬ c.isDigit ∧ ¬ isTokenSymbol c ∧ CanScan none before ∧ ¬ CanScan none (before ++ [c]) :=
  exists_stray ((scan_eq_scanAfter text).symm.trans h)

/-- What begins with a text that cannot be taken cannot be taken either, so that it is no longer
than what can. -/
theorem length_le_of_not_canScan {number : Option OpenNumber} {before after longer : List Char}
    {c : Char} (hnot : ¬ CanScan number (before ++ [c])) (hlonger : longer <+: before ++ c :: after)
    (hscan : CanScan number longer) : longer.length ≤ before.length := by
  by_contra hlt
  have hprefix : before ++ [c] <+: longer := by
    apply List.prefix_of_prefix_length_le ⟨after, by simp⟩ hlonger
    rw [List.length_append, List.length_singleton]
    omega
  obtain ⟨rest, rfl⟩ := hprefix
  exact hnot hscan.of_append

/-- Scanning gives the one decomposition of a text, if there is one. If there is none, the error
names the character after the longest beginning of the text that has one, which begins no lexeme.
Every beginning of a text that has a decomposition has one. So searching for matches and looking
for gaps between them does what taking the text character by character does; where a gap begins
there always is a character to name. -/
theorem scan_eq_decomposition (text : List Char) :
    (∀ lexemes, scan text = .ok lexemes ↔ IsDecomposition text lexemes) ∧
    (∀ lexemes lexemes', IsDecomposition text lexemes → IsDecomposition text lexemes' →
      lexemes = lexemes') ∧
    (∀ e, scan text = .error e → ∃ before c after, text = before ++ c :: after ∧
      e = .strayCharacter c ∧ ¬ c.isDigit ∧ c ∉ ['+', '-', '*', '/', '(', ')'] ∧
      (∃ lexemes, scan before = .ok lexemes) ∧
      ∀ longer lexemes, longer <+: text → scan longer = .ok lexemes →
        longer.length ≤ before.length) ∧
    (∀ before lexemes, before <+: text → scan text = .ok lexemes →
      ∃ found, scan before = .ok found) ∧
    scan text = scanAfter none text ∧
    ∀ position, cut text = .error position → ∃ before c after, text = before ++ c :: after ∧
      position = byteCount before ∧ scan text = .error (.strayCharacter c) := by
  refine ⟨fun lexemes => scan_eq_ok_iff, fun lexemes lexemes' h h' => ?_, fun e h => ?_, ?_,
    scan_eq_scanAfter text, fun position => exists_of_cut_eq_error⟩
  · have hscan := scan_eq_ok_iff.mpr h
    rw [scan_eq_ok_iff.mpr h'] at hscan
    exact (Except.ok.inj hscan).symm
  · obtain ⟨before, c, after, rfl, rfl, hdigit, hsymbol, hbefore, hnot⟩ :=
      exists_stray_of_scan h
    refine ⟨before, c, after, rfl, rfl, hdigit, by simpa [isTokenSymbol] using hsymbol,
      canScan_none_iff.mp hbefore, fun longer lexemes hlonger hscan => ?_⟩
    exact length_le_of_not_canScan hnot hlonger (canScan_none_iff.mpr ⟨lexemes, hscan⟩)
  · rintro before lexemes ⟨after, rfl⟩ h
    exact canScan_none_iff.mp (CanScan.of_append (canScan_none_iff.mpr ⟨lexemes, h⟩))

/-- A number takes one dot, so the second dot is the character that cannot be read. -/
example : scan ['1', '.', '2', '.', '3'] = .error (.strayCharacter '.') := by decide

end Reckoner
