import Reckoner.Expression
import Reckoner.Proofs.Expression.Conversion
import Reckoner.Proofs.Token.Lexemes

/-! Why an expression has no value: each stage fails for reasons of its own. The lexer finds stray
characters, the conversion unpaired parentheses, and only the calculation the rest. -/
namespace Reckoner

/-- What the lexer cuts off can always be read, so that the tokens of a text fail where cutting
fails. -/
theorem Token.scan_of_ofText_error {text : List Char} {e : ExpressionError}
    (h : Token.ofText text = .error e) : scan (strip text) = .error e := by
  rcases bind_eq_error_iff.mp h with hscan | ⟨lexemes, hscan, hlexemes⟩
  · exact hscan
  · obtain ⟨tokens, hlexes⟩ := exists_lexes hscan
    rw [← hlexes.map_text,
      mapM_eq_ok fun t ht => ofLexeme_text (hlexes.isWritten t ht)] at hlexemes
    cases hlexemes

theorem Token.ofText_error {text : List Char} {e : ExpressionError}
    (h : Token.ofText text = .error e) : ∃ c, e = .strayCharacter c := by
  obtain ⟨-, c, -, -, rfl, -⟩ := exists_stray_of_scan (scan_of_ofText_error h)
  exact ⟨c, rfl⟩

namespace Rpn

namespace State

theorem close_error {stack : List Waiting} {reversed : List Token} {e : ExpressionError}
    (h : close stack reversed = .error e) : e = .extraClosing := by
  induction stack generalizing reversed with
  | nil => exact (Except.error.inj h).symm
  | cons top stack ih =>
    cases top with
    | opening => cases h
    | operator top => exact ih h

theorem drain_error {stack : List Waiting} {reversed : List Token} {e : ExpressionError}
    (h : drain stack reversed = .error e) : e = .unclosedOpening := by
  induction stack generalizing reversed with
  | nil => cases h
  | cons top stack ih =>
    cases top with
    | opening => exact (Except.error.inj h).symm
    | operator top => exact ih h

theorem step_error {s : State} {t : Token} {e : ExpressionError} (h : s.step t = .error e) :
    e = .extraClosing := by
  cases t with
  | number value literal => cases h
  | operator op =>
    rw [step] at h
    split at h <;> cases h
  | opening => cases h
  | closing => exact close_error (map_eq_error_iff.mp h)

end State

theorem ofTokens_error {tokens : List Token} {e : ExpressionError}
    (h : ofTokens tokens = .error e) : e = .extraClosing ∨ e = .unclosedOpening := by
  rcases bind_eq_error_iff.mp h with hrun | ⟨s, -, hfinish⟩
  · exact .inl (foldlM_error_induction (p := (· = .extraClosing))
      (fun _ _ _ _ => State.step_error) hrun)
  · exact .inr (State.drain_error (map_eq_error_iff.mp hfinish))

theorem mem_putOut {t : Token} {ops : List Operator} {reversed : List Token} :
    t ∈ putOut ops reversed ↔ (∃ op ∈ ops, t = .operator op) ∨ t ∈ reversed := by
  simp [putOut, eq_comm]

/-- Whether a token is put out for these tokens: one of their numbers, or an operator. -/
def IsListedFor (tokens : List Token) (t : Token) : Prop :=
  (t.isNumber ∧ t ∈ tokens) ∨ ∃ op, t = .operator op

theorem isListedFor_of_mem_putOut {tokens reversed : List Token} {ops : List Operator}
    (h : ∀ t ∈ reversed, IsListedFor tokens t) :
    ∀ t ∈ putOut ops reversed, IsListedFor tokens t := by
  intro t ht
  rcases mem_putOut.mp ht with ⟨op, -, rfl⟩ | ht
  · exact .inr ⟨op, rfl⟩
  · exact h t ht

theorem State.isListedFor_step {tokens : List Token} {s s' : State} {t : Token} (ht : t ∈ tokens)
    (h : ∀ t ∈ s.reversed, IsListedFor tokens t) (hstep : s.step t = .ok s') :
    ∀ t ∈ s'.reversed, IsListedFor tokens t := by
  cases takes_of_step hstep with
  | number value literal => exact List.forall_mem_cons.mpr ⟨.inl ⟨rfl, ht⟩, h⟩
  | negation | opening => exact h
  | operator | closing => exact isListedFor_of_mem_putOut h

/-- No parenthesis and no other number is put out. -/
theorem isListedFor_of_ofTokens {tokens out : List Token} (h : ofTokens tokens = .ok out) :
    ∀ t ∈ out, IsListedFor tokens t := by
  obtain ⟨s, hrun, hfinish⟩ := bind_eq_ok_iff.mp h
  have hlisted : ∀ t ∈ s.reversed, IsListedFor tokens t :=
    foldlM_ok_induction (p := fun s => ∀ t ∈ s.reversed, IsListedFor tokens t)
      (fun t ht _ _ => State.isListedFor_step ht) (by simp [State.start]) hrun
  obtain ⟨reversed, hdrain, rfl⟩ := map_eq_ok_iff.mp hfinish
  obtain ⟨ops, -, rfl⟩ := State.exists_of_drain hdrain
  intro t ht
  exact isListedFor_of_mem_putOut hlisted t (List.mem_reverse.mp ht)

theorem calculate_error {tokens : List Token} {t : Token} (ht : IsListedFor tokens t)
    {stack : List Binary64} {e : ExpressionError} (h : calculate stack t = .error e) :
    e = .missingOperand ∨ e = .divisionByZero := by
  cases t with
  | number value literal => cases h
  | operator op =>
    unfold calculate at h
    simp only at h
    split at h
    next => cases h
    next =>
      split at h
      next => exact .inr (Except.error.inj h).symm
      next => cases h
    next => exact .inl (Except.error.inj h).symm
  | opening => simp [IsListedFor, Token.isNumber] at ht
  | closing => simp [IsListedFor, Token.isNumber] at ht

theorem value_error {tokens out : List Token} (hlisted : ∀ t ∈ out, IsListedFor tokens t)
    {e : ExpressionError} (h : value out = .error e) :
    e = .missingOperand ∨ e = .surplusOperand ∨ e = .divisionByZero := by
  rcases bind_eq_error_iff.mp h with hrun | ⟨stack, -, hresult⟩
  · have hstep : e = .missingOperand ∨ e = .divisionByZero :=
      foldlM_error_induction (p := fun e => e = .missingOperand ∨ e = .divisionByZero)
        (fun t ht _ _ => calculate_error (hlisted t ht)) hrun
    exact hstep.imp_right .inr
  · split at hresult
    next => cases hresult
    next => exact .inl (Except.error.inj hresult).symm
    next => exact .inr (.inl (Except.error.inj hresult).symm)

end Rpn

namespace Expression

/-- Whether an error is found before anything is calculated. -/
def IsFoundInForm (e : ExpressionError) : Prop :=
  (∃ c, e = .strayCharacter c) ∨ e = .extraClosing ∨ e = .unclosedOpening

theorem isFoundInForm_of_rpn {text : List Char} {e : ExpressionError} (h : rpn text = .error e) :
    IsFoundInForm e := by
  rcases bind_eq_error_iff.mp h with htokens | ⟨tokens, -, hconvert⟩
  · exact .inl (Token.ofText_error htokens)
  · exact .inr (Rpn.ofTokens_error hconvert)

theorem IsFoundInForm.isSyntactic {e : ExpressionError} (h : IsFoundInForm e) :
    e.isSyntactic := by
  rcases h with ⟨c, rfl⟩ | rfl | rfl
  · rfl
  · rfl
  · rfl

theorem value_error_of_rpn {text : List Char} {out : List Token} (hrpn : rpn text = .ok out)
    {e : ExpressionError} (h : Rpn.value out = .error e) :
    e = .missingOperand ∨ e = .surplusOperand ∨ e = .divisionByZero := by
  obtain ⟨tokens, -, hconvert⟩ := bind_eq_ok_iff.mp hrpn
  exact Rpn.value_error (Rpn.isListedFor_of_ofTokens hconvert) h

/-- Nothing is wrong with the form of a blank text. -/
theorem rpn_of_trim_eq_nil {text : List Char} (h : trim text = []) : rpn text = .ok [] := by
  have hstrip : strip text = [] := by rw [← strip_trim, h]; rfl
  rw [rpn, Token.ofText, hstrip]
  rfl

theorem check_eq_some_iff_rpn {text : List Char} {e : ExpressionError} :
    check text = some e ↔ rpn text = .error e := by
  unfold check
  cases rpn text <;> simp

/-- An expression without a value is found wrong in its form, or has no operator, operand or
divisor to calculate with. -/
theorem value_error_cases {text : List Char} {e : ExpressionError} (h : value text = .error e) :
    (rpn text = .error e ∧ IsFoundInForm e) ∨
      ((∃ out, rpn text = .ok out) ∧
        (e = .empty ∨ e = .missingOperand ∨ e = .surplusOperand ∨ e = .divisionByZero)) := by
  rw [value] at h
  split at h
  next hblank =>
    exact .inr ⟨⟨[], rpn_of_trim_eq_nil hblank⟩, .inl (Except.error.inj h).symm⟩
  next =>
    rcases bind_eq_error_iff.mp h with hrpn | ⟨out, hrpn, hvalue⟩
    · exact .inl ⟨hrpn, isFoundInForm_of_rpn hrpn⟩
    · exact .inr ⟨⟨out, hrpn⟩, .inr (value_error_of_rpn hrpn hvalue)⟩

theorem value_of_rpn_error {text : List Char} {e : ExpressionError} (h : rpn text = .error e) :
    value text = .error e := by
  rw [value, if_neg, h]
  · rfl
  · intro hblank
    rw [rpn_of_trim_eq_nil hblank] at h
    cases h

theorem check_eq_some_iff {text : List Char} {e : ExpressionError} :
    check text = some e ↔ value text = .error e ∧ e.isSyntactic := by
  rw [check_eq_some_iff_rpn]
  constructor
  · intro h
    exact ⟨value_of_rpn_error h, (isFoundInForm_of_rpn h).isSyntactic⟩
  · rintro ⟨h, hsyntactic⟩
    rcases value_error_cases h with ⟨hrpn, -⟩ | ⟨-, hother⟩
    · exact hrpn
    · rcases hother with rfl | rfl | rfl | rfl <;> cases hsyntactic

theorem check_eq_none_iff {text : List Char} :
    check text = none ↔ (∃ v, value text = .ok v) ∨
      value text = .error .empty ∨ value text = .error .missingOperand ∨
        value text = .error .surplusOperand ∨ value text = .error .divisionByZero := by
  constructor
  · intro h
    cases hvalue : value text with
    | ok v => exact .inl ⟨v, rfl⟩
    | error e =>
      rcases value_error_cases hvalue with ⟨hrpn, -⟩ | ⟨-, hother⟩
      · rw [check_eq_some_iff_rpn.mpr hrpn] at h
        cases h
      · right
        rcases hother with rfl | rfl | rfl | rfl <;> simp
  · intro h
    cases hcheck : check text with
    | none => rfl
    | some e =>
      obtain ⟨hvalue, hsyntactic⟩ := check_eq_some_iff.mp hcheck
      rw [hvalue] at h
      simp only [reduceCtorEq, exists_false, Except.error.injEq, false_or] at h
      rcases h with rfl | rfl | rfl | rfl <;> cases hsyntactic

/-- The check tells what evaluation tells of the form of a text, in the same words, and nothing of
its operands and divisors. That is a stray character or a parenthesis without its partner: a
number that is found can be read, and no parenthesis is left to calculate with. -/
theorem check_message_iff (text : List Char) :
    (∀ message, (check text).map ExpressionError.message = some message ↔
      ∃ e, value text = .error e ∧ e.isSyntactic ∧ e.message = message) ∧
    (check text = none ↔ (∃ v, value text = .ok v) ∨
      value text = .error .empty ∨ value text = .error .missingOperand ∨
        value text = .error .surplusOperand ∨ value text = .error .divisionByZero) ∧
    (∀ literal, value text ≠ .error (.unreadableNumber literal)) ∧
    (∀ opening, value text ≠ .error (.strayParenthesis opening)) ∧
    (∀ e, check text = some e ∨ (value text = .error e ∧ e.isSyntactic) →
      (∃ c, e = .strayCharacter c) ∨ e = .extraClosing ∨ e = .unclosedOpening) := by
  refine ⟨?_, check_eq_none_iff, ?_, ?_, ?_⟩
  · intro message
    rw [Option.map_eq_some_iff]
    simp only [check_eq_some_iff, and_assoc]
  · intro literal h
    have hcases := value_error_cases h
    simp [IsFoundInForm] at hcases
  · intro opening h
    have hcases := value_error_cases h
    simp [IsFoundInForm] at hcases
  · intro e h
    rw [← check_eq_some_iff, or_self, check_eq_some_iff_rpn] at h
    exact isFoundInForm_of_rpn h

end Expression

end Reckoner
