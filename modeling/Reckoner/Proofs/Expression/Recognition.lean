import Mathlib.Data.List.Infix
import Reckoner.Expression.Recognition
import Reckoner.Proofs.Expression.Resolution
import Reckoner.Proofs.Text.Trim

/-! What is taken for an expression: a text of the right characters in which there is an operator
with two operands, or something in parentheses. Such operators are found where the conversion puts
them out. In parentheses, and only there, white space can make a difference. -/
namespace Reckoner.Expression

/-- Whether a text has parentheses with something between them that is not a `)`. -/
def HoldsGroup (text : List Char) : Prop :=
  ∃ inside, inside ≠ [] ∧ ')' ∉ inside ∧ ['('] ++ inside ++ [')'] <:+: text

/-- Whether a text has parentheses with white space between them and nothing else. -/
def HoldsBlankGroup (text : List Char) : Prop :=
  ∃ inside, inside ≠ [] ∧ (∀ c ∈ inside, isBlank c) ∧ ['('] ++ inside ++ [')'] <:+: text

theorem isExpressionChar_iff {c : Char} :
    isExpressionChar c ↔ c.isDigit ∨ isBlank c ∨ c = '.' ∨ isTokenSymbol c := by
  simp [isExpressionChar, isTokenSymbol, or_assoc]

theorem mem_iff_exists_before {c : Char} {text : List Char} :
    c ∈ text ↔ ∃ before, c ∉ before ∧ before ++ [c] <+: text := by
  constructor
  · intro h
    obtain ⟨before, after, rfl, hbefore⟩ := List.eq_append_cons_of_mem h
    exact ⟨before, hbefore, after, by simp⟩
  · rintro ⟨before, -, hbegins⟩
    exact hbegins.subset (by simp)

theorem holdsGroup_cons_iff {c : Char} {rest : List Char} :
    HoldsGroup (c :: rest) ↔
      (∃ inside, inside ≠ [] ∧ ')' ∉ inside ∧ ['('] ++ inside ++ [')'] <+: c :: rest) ∨
        HoldsGroup rest := by
  simp only [HoldsGroup, List.infix_cons_iff, and_or_left, exists_or]

/-- A group begins with a `(` if it has a first character and a `)` follows. -/
theorem exists_group_begins_iff {c : Char} {rest : List Char} :
    (∃ inside, inside ≠ [] ∧ ')' ∉ inside ∧ ['('] ++ inside ++ [')'] <+: '(' :: c :: rest) ↔
      c ≠ ')' ∧ ')' ∈ rest := by
  rw [mem_iff_exists_before]
  constructor
  · rintro ⟨inside, hne, hclosing, hbegins⟩
    obtain ⟨d, inside, rfl⟩ := List.exists_cons_of_ne_nil hne
    simp only [List.nil_append, List.cons_append, List.cons_prefix_cons, true_and] at hbegins
    obtain ⟨rfl, hbegins⟩ := hbegins
    rw [List.mem_cons, not_or] at hclosing
    exact ⟨Ne.symm hclosing.1, inside, hclosing.2, hbegins⟩
  · rintro ⟨hc, inside, hclosing, hbegins⟩
    exact ⟨c :: inside, by simp, by simp [hc.symm, hclosing], by simpa using hbegins⟩

theorem hasParentheses_iff {text : List Char} : hasParentheses text ↔ HoldsGroup text := by
  fun_induction hasParentheses text with
  | case1 c rest ih =>
    rw [holdsGroup_cons_iff, exists_group_begins_iff, Bool.or_eq_true, ih]
    simp
  | case2 c rest hrest ih =>
    rw [ih, holdsGroup_cons_iff, or_iff_right]
    rintro ⟨inside, hne, -, hbegins⟩
    obtain ⟨d, inside, rfl⟩ := List.exists_cons_of_ne_nil hne
    simp only [List.nil_append, List.cons_append, List.cons_prefix_cons] at hbegins
    obtain ⟨rfl, hbegins⟩ := hbegins
    obtain ⟨after, rfl⟩ := hbegins
    exact hrest _ _ rfl rfl
  | case3 => simp [HoldsGroup]

/-! A number by itself holds neither of what makes an expression. -/

/-- Whether a character can stand in a number. -/
def IsNumberChar (c : Char) : Prop :=
  c.isDigit ∨ c = '.'

theorem IsNumberChar.not_operator {c : Char} (h : IsNumberChar c) :
    c ∉ ['+', '*', '/'] ∧ c ≠ '-' ∧ c ≠ '(' := by
  rcases h with hdigit | rfl
  · exact of_isDigit (p := fun c => c ∉ ['+', '*', '/'] ∧ c ≠ '-' ∧ c ≠ '(') (by decide) hdigit
  · decide

/-- After the characters of a number stands an operand. -/
theorem hasOperatorAfter_append {number : List Char} (h : ∀ c ∈ number, IsNumberChar c)
    (hne : number ≠ []) (after : Bool) (rest : List Char) :
    hasOperatorAfter after (number ++ rest) = hasOperatorAfter true rest := by
  induction number generalizing after with
  | nil => exact absurd rfl hne
  | cons c number ih =>
    obtain ⟨hc, hnumber⟩ := List.forall_mem_cons.mp h
    have hflag : (c.isDigit || c == '.' || c == ')') = true := by
      rcases hc with hdigit | rfl
      · simp [hdigit]
      · rfl
    obtain ⟨hoperator, hminus, -⟩ := hc.not_operator
    rw [List.cons_append, hasOperatorAfter, hflag]
    simp only [hoperator, decide_false, beq_eq_false_iff_ne.mpr hminus, Bool.false_and,
      Bool.false_or]
    cases number with
    | nil => rfl
    | cons d number => exact ih hnumber (by simp) true

theorem exists_of_isPlainNumber {text : List Char} (h : isPlainNumber text) :
    ∃ number, number ≠ [] ∧ (∀ c ∈ number, IsNumberChar c) ∧
      (strip text = number ∨ strip text = '-' :: number) := by
  have hparts {number : List Char}
      (h : (number ≠ [] && number.all fun c => c.isDigit || c == '.') = true) :
      number ≠ [] ∧ ∀ c ∈ number, IsNumberChar c := by
    simpa [IsNumberChar] using h
  unfold isPlainNumber at h
  dsimp only at h
  split at h
  next number hstrip => exact ⟨number, (hparts h).1, (hparts h).2, .inr hstrip⟩
  next => exact ⟨strip text, (hparts h).1, (hparts h).2, .inl rfl⟩

theorem hasOperator_of_isPlainNumber {text : List Char} (h : isPlainNumber text) :
    hasOperator text = false := by
  obtain ⟨number, hne, hnumber, hstrip⟩ := exists_of_isPlainNumber h
  have hrest := hasOperatorAfter_append hnumber hne false []
  rw [List.append_nil] at hrest
  unfold hasOperator
  rcases hstrip with hstrip | hstrip
  · rw [hstrip, hrest]
    rfl
  · rw [hstrip, hasOperatorAfter]
    exact hrest

theorem not_holdsGroup_of_isPlainNumber {text : List Char} (h : isPlainNumber text) :
    ¬ HoldsGroup text := by
  rintro ⟨inside, -, -, hpart⟩
  obtain ⟨number, -, hnumber, hstrip⟩ := exists_of_isPlainNumber h
  have hmem : '(' ∈ strip text :=
    mem_strip_iff.mpr ⟨hpart.subset (by simp), by decide⟩
  rcases hstrip with hstrip | hstrip
  · rw [hstrip] at hmem
    exact (hnumber _ hmem).not_operator.2.2 rfl
  · rw [hstrip, List.mem_cons, or_iff_right (by decide)] at hmem
    exact (hnumber _ hmem).not_operator.2.2 rfl

/-- White space is no matter to whether operators are found. -/
theorem hasOperator_congr {text text' : List Char} (h : strip text = strip text') :
    hasOperator text = hasOperator text' := by
  rw [hasOperator, h, hasOperator]

theorem holdsGroup_trim_iff {text : List Char} : HoldsGroup (trim text) ↔ HoldsGroup text := by
  unfold HoldsGroup
  simp only [infix_trim_iff (c := '(') (d := ')') (by decide) (by decide)]

theorem all_isExpressionChar_trim_iff {text : List Char} :
    (trim text).all isExpressionChar ↔ ∀ c ∈ strip text, isExpressionChar c := by
  rw [← strip_trim, List.all_eq_true]
  refine ⟨fun h c hc => h c (mem_strip_iff.mp hc).1, fun h c hc => ?_⟩
  by_cases hblank : isBlank c
  · exact isExpressionChar_iff.mpr (.inr (.inl hblank))
  · exact h c (mem_strip_iff.mpr ⟨hc, hblank⟩)

/-- A text with an operator or a group is neither blank nor a single number. -/
theorem looksLikeOne_iff {text : List Char} :
    looksLikeOne text ↔
      (∀ c ∈ strip text, isExpressionChar c) ∧ (hasOperator text ∨ HoldsGroup text) := by
  rw [← all_isExpressionChar_trim_iff, ← hasOperator_congr (strip_trim text),
    ← holdsGroup_trim_iff, ← hasParentheses_iff]
  unfold looksLikeOne
  dsimp only
  generalize trim text = trimmed
  constructor
  · intro h
    simp only [Bool.and_eq_true, Bool.or_eq_true] at h
    exact ⟨h.1.1.2, h.2⟩
  · rintro ⟨hchars, hfound⟩
    have hne : trimmed ≠ [] := by
      rintro rfl
      exact absurd hfound (by decide)
    have hnumber : isPlainNumber trimmed = false := by
      by_contra hnumber
      rw [Bool.not_eq_false] at hnumber
      rw [hasOperator_of_isPlainNumber hnumber, hasParentheses_iff] at hfound
      exact hfound.elim Bool.false_ne_true (not_holdsGroup_of_isPlainNumber hnumber)
    simp [hne, hchars, hnumber, hfound]

/-! In the texts of tokens a `-` is found to have two operands where it is not negation. -/

open Token (endsOperand resolve resolveAfter inPlace)

theorem mem_binaries_iff {op : Operator} : op ∈ Operator.binaries ↔ op ≠ .neg := by
  cases op <;> decide

/-- Whether some operator among the tokens takes two operands. -/
def HoldsBinary (tokens : List Token) : Prop :=
  ∃ op ∈ Operator.binaries, .operator op ∈ tokens

theorem holdsBinary_cons_iff {t : Token} {tokens : List Token} :
    HoldsBinary (t :: tokens) ↔ (∃ op ≠ .neg, t = .operator op) ∨ HoldsBinary tokens := by
  simp only [HoldsBinary, mem_binaries_iff, List.mem_cons, and_or_left, exists_or, eq_comm]

theorem hasOperatorAfter_flatMap_text {tokens : List Token} (h : ∀ t ∈ tokens, t.IsWritten)
    (previous : Option Token) :
    hasOperatorAfter (previous.any endsOperand) (tokens.flatMap Token.text) ↔
      HoldsBinary (resolveAfter previous tokens) := by
  induction tokens generalizing previous with
  | nil => simp [hasOperatorAfter, resolveAfter, HoldsBinary]
  | cons t tokens ih =>
    obtain ⟨ht, htokens⟩ := List.forall_mem_cons.mp h
    rw [List.flatMap_cons, resolveAfter, holdsBinary_cons_iff, ← ih htokens (some t),
      Option.any_some]
    cases ht with
    | number n =>
      obtain ⟨c, rest, htext, -⟩ := n.exists_text_eq_cons
      rw [Token.text_numeral, hasOperatorAfter_append
        (fun c hc => n.isDigit_or_point_of_mem_text hc) (by simp [htext])]
      simp [inPlace, Numeral.token, endsOperand]
    | @operator op hop =>
      by_cases hminus : op = .sub ∧ previous.any endsOperand = false
      · obtain ⟨rfl, hafter⟩ := hminus
        rw [Token.inPlace_sub hafter, hafter]
        simp [Token.text, Operator.symbol, hasOperatorAfter, endsOperand]
      · rw [Token.inPlace_operator hminus]
        cases op <;> simp_all [Token.text, Operator.symbol, hasOperatorAfter]
    | opening => simp [inPlace, Token.text, hasOperatorAfter, endsOperand]
    | closing => simp [inPlace, Token.text, hasOperatorAfter, endsOperand]

theorem exists_tokens_of_rpn {text : List Char} {out : List Token} (h : rpn text = .ok out) :
    ∃ tokens, (∀ t ∈ tokens, t.IsWritten) ∧ tokens.flatMap Token.text = strip text ∧
      Rpn.ofTokens tokens = .ok out := by
  obtain ⟨tokens, htokens, hconvert⟩ := bind_eq_ok_iff.mp h
  obtain ⟨hwritten, -, htext⟩ := Token.ofText_eq_ok_iff.mp htokens
  exact ⟨tokens, hwritten, htext, hconvert⟩

/-- An operator with two operands is found in a text where one is put out for it. -/
theorem hasOperator_iff_of_rpn {text : List Char} {out : List Token} (h : rpn text = .ok out) :
    hasOperator text ↔ HoldsBinary out := by
  obtain ⟨tokens, hwritten, htext, hconvert⟩ := exists_tokens_of_rpn h
  have hfound := hasOperatorAfter_flatMap_text hwritten none
  rw [htext] at hfound
  refine hfound.trans ?_
  simp only [HoldsBinary, Rpn.operator_mem_iff_of_ofTokens hconvert, resolve]

theorem isExpressionChar_of_rpn {text : List Char} {out : List Token} (h : rpn text = .ok out) :
    ∀ c ∈ strip text, isExpressionChar c := by
  obtain ⟨tokens, hwritten, htext, -⟩ := exists_tokens_of_rpn h
  intro c hc
  rw [← htext] at hc
  exact isExpressionChar_iff.mpr
    ((Token.isTokenChar_of_mem_flatMap_text hwritten hc).imp_right .inr)

/-- Of the characters of expressions only a point can be out of place for a lexer. -/
theorem ofText_of_isExpressionChar {text : List Char} (h : ∀ c ∈ strip text, isExpressionChar c) :
    (∃ tokens, Token.ofText text = .ok tokens) ∨
      Token.ofText text = .error (.strayCharacter '.') := by
  cases htokens : Token.ofText text with
  | ok tokens => exact .inl ⟨tokens, rfl⟩
  | error e =>
    obtain ⟨before, c, after, htext, rfl, hdigit, hsymbol, -⟩ :=
      exists_stray_of_scan (Token.scan_of_ofText_error htokens)
    have hc : c ∈ strip text := by simp [htext]
    rcases isExpressionChar_iff.mp (h c hc) with hdigit' | hblank | rfl | hsymbol'
    · exact absurd hdigit' hdigit
    · exact absurd hblank (mem_strip_iff.mp hc).2
    · exact .inr rfl
    · exact absurd hsymbol' hsymbol

/-- What looks like an expression has tokens, unless a point is out of place. Where a text can be
put in order, an operator with two operands is found in it exactly if one is put out, and the text
looks like an expression exactly if one is put out or there are parentheses with something between
them. -/
theorem looksLikeOne_agrees_with_rpn (text : List Char) :
    (looksLikeOne text → (∃ tokens, Token.ofText text = .ok tokens) ∨
      Token.ofText text = .error (.strayCharacter '.')) ∧
    ∀ out, rpn text = .ok out →
      (hasOperator (trim text) ↔ ∃ op ∈ Operator.binaries, .operator op ∈ out) ∧
      (looksLikeOne text ↔ (∃ op ∈ Operator.binaries, .operator op ∈ out) ∨
        ∃ inside, inside ≠ [] ∧ ')' ∉ inside ∧ ['('] ++ inside ++ [')'] <:+: trim text) := by
  refine ⟨fun h => ofText_of_isExpressionChar (looksLikeOne_iff.mp h).1, fun out h => ⟨?_, ?_⟩⟩
  · rw [hasOperator_congr (strip_trim text)]
    exact hasOperator_iff_of_rpn h
  · rw [looksLikeOne_iff, and_iff_right (isExpressionChar_of_rpn h), ← holdsGroup_trim_iff]
    exact or_congr (hasOperator_iff_of_rpn h) Iff.rfl

/-- In `-3. - -1` the second of three signs has two operands. -/
theorem looksLikeOne_agrees_with_rpn_signs :
    let three : Token := .number (.ofBits 0x4008000000000000) "3.".toList
    let one : Token := .number (.ofBits 0x3FF0000000000000) ['1']
    let out : List Token := [three, .operator .neg, one, .operator .neg, .operator .sub]
    rpn " -3. - -1".toList = .ok out ∧ looksLikeOne " -3. - -1".toList := by
  intro three one out
  have hrpn : rpn " -3. - -1".toList = .ok out := by decide +kernel
  refine ⟨hrpn, ?_⟩
  rw [((looksLikeOne_agrees_with_rpn _).2 out hrpn).2]
  exact .inl ⟨.sub, by decide, by decide +kernel⟩

/-! White space matters between parentheses that have nothing else between them. -/

theorem HoldsBlankGroup.holdsGroup {text : List Char} (h : HoldsBlankGroup text) :
    HoldsGroup text := by
  obtain ⟨inside, hne, hblank, hpart⟩ := h
  exact ⟨inside, hne, fun hclosing => absurd (hblank _ hclosing) (by decide), hpart⟩

/-- A group of the text without its white space is one of the text. -/
theorem holdsGroup_of_strip {text : List Char} (h : HoldsGroup (strip text)) :
    HoldsGroup text := by
  obtain ⟨inside, hne, hclosing, before, after, htext⟩ := h
  -- the text is cut where the parts of the group begin
  have hcut : strip text = before ++ ('(' :: (inside ++ ')' :: after)) := by simp [← htext]
  obtain ⟨front, back, rfl, -, hback⟩ := List.filter_eq_append_iff.mp hcut
  obtain ⟨front', back', rfl, -, -, hback'⟩ := List.filter_eq_cons_iff.mp hback
  obtain ⟨inside', rest, rfl, hinside, hrest⟩ := List.filter_eq_append_iff.mp hback'
  obtain ⟨blanks, tail, rfl, hblanks, -, -⟩ := List.filter_eq_cons_iff.mp hrest
  refine ⟨inside' ++ blanks, ?_, ?_, front ++ front', tail, by simp⟩
  · rintro hnil
    rw [(List.append_eq_nil_iff.mp hnil).1] at hinside
    exact hne hinside.symm
  · rw [List.mem_append, not_or]
    refine ⟨fun hmem => hclosing ?_, fun hmem => absurd (hblanks _ hmem) (by decide)⟩
    rw [← hinside]
    exact List.mem_filter.mpr ⟨hmem, by decide⟩

theorem holdsGroup_iff {text : List Char} :
    HoldsGroup text ↔ HoldsGroup (strip text) ∨ HoldsBlankGroup text := by
  constructor
  · rintro ⟨inside, hne, hclosing, hpart⟩
    by_cases hblank : strip inside = []
    · refine .inr ⟨inside, hne, fun c hc => ?_, hpart⟩
      by_contra hc'
      exact absurd (mem_strip_iff.mpr ⟨hc, hc'⟩) (by simp [hblank])
    · refine .inl ⟨strip inside, hblank, fun h => hclosing (mem_strip_iff.mp h).1, ?_⟩
      have hstrip : strip (['('] ++ inside ++ [')']) = ['('] ++ strip inside ++ [')'] := by
        rw [strip_append, strip_append]
        rfl
      rw [← hstrip]
      exact hpart.filter _
  · rintro (h | h)
    · exact holdsGroup_of_strip h
    · exact h.holdsGroup

theorem looksLikeOne_iff_strip {text : List Char} :
    looksLikeOne text ↔ looksLikeOne (strip text) ∨
      (∀ c ∈ strip text, isExpressionChar c) ∧ HoldsBlankGroup text := by
  rw [looksLikeOne_iff, looksLikeOne_iff, holdsGroup_iff, hasOperator_congr (strip_strip text),
    strip_strip, ← or_assoc, and_or_left]

/-- Two texts that differ in white space only are told apart exactly if one of them has parentheses
with nothing but white space between them and the other has not, and nothing else in them decides:
all their characters are such as expressions have, and without white space they do not look like
an expression. -/
theorem looksLikeOne_eq_iff_of_strip_eq {text text' : List Char} (h : strip text = strip text') :
    looksLikeOne text = looksLikeOne text' ↔
      looksLikeOne (strip text) ∨ (∃ c ∈ strip text, ¬ isExpressionChar c) ∨
        (HoldsBlankGroup text ↔ HoldsBlankGroup text') := by
  rw [Bool.eq_iff_iff, looksLikeOne_iff_strip, @looksLikeOne_iff_strip text', ← h]
  by_cases hchars : ∀ c ∈ strip text, isExpressionChar c
  · have hnone : ¬ ∃ c ∈ strip text, ¬ isExpressionChar c := by simpa using hchars
    by_cases hstrip : looksLikeOne (strip text)
    · simp only [hstrip, true_or]
    · simp only [hstrip, hnone, Bool.false_eq_true, false_or, and_iff_right hchars]
  · have hsome : ∃ c ∈ strip text, ¬ isExpressionChar c := by simpa using hchars
    simp only [hchars, hsome, false_and, or_false, true_or, or_true]

/-- A wide space and a tab between parentheses are the same as one space. -/
theorem looksLikeOne_eq_iff_of_strip_eq_spaces :
    strip "(\u2003\t)".toList = strip "( )".toList ∧
      looksLikeOne "(\u2003\t)".toList = looksLikeOne "( )".toList := by
  have hstrip : strip "(\u2003\t)".toList = strip "( )".toList := by decide
  refine ⟨hstrip, (looksLikeOne_eq_iff_of_strip_eq hstrip).mpr (.inr (.inr ?_))⟩
  have hwide : HoldsBlankGroup "(\u2003\t)".toList :=
    ⟨"\u2003\t".toList, by decide, List.all_eq_true.mp (by decide), [], [], rfl⟩
  have hspace : HoldsBlankGroup "( )".toList :=
    ⟨[' '], by decide, List.forall_mem_singleton.mpr (by decide), [], [], rfl⟩
  exact iff_of_true hwide hspace

/-- Parentheses with a space between them look like an expression, and without it they do not. -/
theorem looksLikeOne_ne_of_strip_eq :
    strip "( )".toList = strip "()".toList ∧ looksLikeOne "( )".toList = true ∧
      looksLikeOne "()".toList = false := by
  decide

end Reckoner.Expression
