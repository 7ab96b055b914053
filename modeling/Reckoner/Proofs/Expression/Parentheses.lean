import Reckoner.Proofs.Expression.Acceptance
import Reckoner.Proofs.Expression.Failure

/-! Which token lists can be converted. The parentheses on the stack are always those that are open,
whatever waits between them, so that only parentheses make the conversion fail: one that is closed
and was not open, and else one that is left open at the end. -/
namespace Reckoner

namespace Token

def isParenthesis : Token → Bool
  | opening | closing => true
  | _ => false

/-- Whether a parenthesis is closed somewhere that was not open. -/
def ClosesUnopened (tokens : List Token) : Prop :=
  ∃ before, before <+: tokens ∧ before.count .opening < before.count .closing

theorem not_closesUnopened_iff {tokens : List Token} :
    ¬ ClosesUnopened tokens ↔
      ∀ before, before <+: tokens → before.count .closing ≤ before.count .opening := by
  simp [ClosesUnopened]

theorem not_closesUnopened_nil : ¬ ClosesUnopened [] := by
  simp [not_closesUnopened_iff]

theorem closesUnopened_append_singleton {tokens : List Token} {t : Token} :
    ClosesUnopened (tokens ++ [t]) ↔
      ClosesUnopened tokens ∨
        (tokens ++ [t]).count .opening < (tokens ++ [t]).count .closing := by
  simp only [ClosesUnopened, List.prefix_concat_iff, or_and_right, exists_or, exists_eq_left]
  exact or_comm

theorem count_filter_isParenthesis (tokens : List Token) :
    (tokens.filter isParenthesis).count .opening = tokens.count .opening ∧
      (tokens.filter isParenthesis).count .closing = tokens.count .closing :=
  ⟨List.count_filter rfl, List.count_filter rfl⟩

theorem closesUnopened_filter_isParenthesis {tokens : List Token} :
    ClosesUnopened (tokens.filter isParenthesis) ↔ ClosesUnopened tokens := by
  constructor
  · rintro ⟨before, hbefore, hcount⟩
    obtain ⟨whole, hwhole, rfl⟩ := List.prefix_filter_iff.mp hbefore
    rw [(count_filter_isParenthesis whole).1, (count_filter_isParenthesis whole).2] at hcount
    exact ⟨whole, hwhole, hcount⟩
  · rintro ⟨before, hbefore, hcount⟩
    rw [← (count_filter_isParenthesis before).1, ← (count_filter_isParenthesis before).2] at hcount
    exact ⟨_, hbefore.filter isParenthesis, hcount⟩

end Token

namespace Rpn

open Token (ClosesUnopened)

namespace State

theorem count_of_close_error {stack : List Waiting} {reversed : List Token} {e : ExpressionError}
    (h : close stack reversed = .error e) : stack.count .opening = 0 := by
  induction stack generalizing reversed with
  | nil => rfl
  | cons top stack ih =>
    cases top with
    | opening => cases h
    | operator op => simpa using ih h

theorem depth_of_takes {s s' : State} {t : Token} (h : Takes s t s') :
    s'.depth + [t].count .closing = s.depth + [t].count .opening := by
  cases h with
  | number => rfl
  | negation | operator | opening | closing => simp [depth]

/-- A step counts the parenthesis that it takes. It fails only where there is none to be closed. -/
theorem depth_step (s : State) (t : Token) :
    (t = .closing ∧ s.depth = 0 ∧ s.step t = .error .extraClosing) ∨
      ∃ s', s.step t = .ok s' ∧ s'.depth + [t].count .closing = s.depth + [t].count .opening := by
  cases hstep : s.step t with
  | ok s' => exact .inr ⟨s', rfl, depth_of_takes (takes_of_step hstep)⟩
  | error e =>
    cases t with
    | number value literal => cases hstep
    | operator op =>
      rw [step] at hstep
      split at hstep <;> cases hstep
    | opening => cases hstep
    | closing =>
      have hclose := map_eq_error_iff.mp hstep
      exact .inl ⟨rfl, count_of_close_error hclose, by rw [close_error hclose]⟩

/-- After any tokens as many parentheses wait as are open, unless one has been closed that was
not. -/
theorem depth_run (tokens : List Token) :
    (ClosesUnopened tokens ∧ tokens.foldlM step start = .error .extraClosing) ∨
      (¬ ClosesUnopened tokens ∧ ∃ s, tokens.foldlM step start = .ok s ∧
        s.depth + tokens.count .closing = tokens.count .opening) := by
  -- from the end, as the last token is the step that adds one beginning
  induction tokens using List.reverseRecOn with
  | nil => exact .inr ⟨Token.not_closesUnopened_nil, start, rfl, rfl⟩
  | append_singleton tokens t ih =>
    rw [Token.closesUnopened_append_singleton, List.foldlM_append, List.count_append,
      List.count_append]
    rcases ih with ⟨hcloses, hrun⟩ | ⟨hcloses, s, hrun, hdepth⟩
    · rw [hrun]
      exact .inl ⟨.inl hcloses, rfl⟩
    · rw [hrun, ok_bind, List.foldlM_cons]
      rcases s.depth_step t with ⟨rfl, hzero, hstep⟩ | ⟨s', hstep, hdepth'⟩
      · rw [hstep]
        refine .inl ⟨.inr ?_, rfl⟩
        rw [show [Token.closing].count .opening = 0 from rfl, List.count_singleton_self]
        omega
      · rw [hstep]
        refine .inr ⟨?_, s', rfl, by omega⟩
        rw [or_iff_right hcloses]
        omega

/-- At the end everything is put out if no parenthesis waits. -/
theorem drain_of_count (stack : List Waiting) (reversed : List Token) :
    (0 < stack.count .opening ∧ drain stack reversed = .error .unclosedOpening) ∨
      (stack.count .opening = 0 ∧ ∃ out, drain stack reversed = .ok out) := by
  induction stack generalizing reversed with
  | nil => exact .inr ⟨rfl, reversed, rfl⟩
  | cons top stack ih =>
    cases top with
    | opening => exact .inl ⟨by simp, rfl⟩
    | operator op => simpa [drain] using ih (.operator op :: reversed)

end State

/-- A conversion fails at the first parenthesis that is closed and was not open. -/
theorem ofTokens_of_closesUnopened {tokens : List Token} (h : ClosesUnopened tokens) :
    ofTokens tokens = .error .extraClosing := by
  rcases State.depth_run tokens with ⟨-, hrun⟩ | ⟨hcloses, -⟩
  · rw [ofTokens, hrun]
    rfl
  · exact absurd h hcloses

/-- Where none is, the number of parentheses decides. -/
theorem ofTokens_of_not_closesUnopened {tokens : List Token} (h : ¬ ClosesUnopened tokens) :
    (tokens.count .closing < tokens.count .opening ∧
        ofTokens tokens = .error .unclosedOpening) ∨
      (tokens.count .closing = tokens.count .opening ∧ ∃ out, ofTokens tokens = .ok out) := by
  rcases State.depth_run tokens with ⟨hcloses, -⟩ | ⟨-, s, hrun, hdepth⟩
  · exact absurd hcloses h
  · unfold State.depth at hdepth
    rw [ofTokens, hrun, ok_bind, State.finish]
    rcases State.drain_of_count s.stack s.reversed with
      ⟨hopen, hdrain⟩ | ⟨hclosed, out, hdrain⟩
    · rw [hdrain]
      exact .inl ⟨by omega, rfl⟩
    · rw [hdrain]
      exact .inr ⟨by omega, out.reverse, rfl⟩

theorem ofTokens_eq_extraClosing_iff {tokens : List Token} :
    ofTokens tokens = .error .extraClosing ↔ ClosesUnopened tokens := by
  refine ⟨fun h => ?_, ofTokens_of_closesUnopened⟩
  by_contra hcloses
  rcases ofTokens_of_not_closesUnopened hcloses with ⟨-, herror⟩ | ⟨-, out, hok⟩
  · rw [herror] at h
    cases h
  · rw [hok] at h
    cases h

theorem ofTokens_eq_unclosedOpening_iff {tokens : List Token} :
    ofTokens tokens = .error .unclosedOpening ↔
      ¬ ClosesUnopened tokens ∧ tokens.count .closing < tokens.count .opening := by
  by_cases hcloses : ClosesUnopened tokens
  · simp [ofTokens_of_closesUnopened hcloses, hcloses]
  · rcases ofTokens_of_not_closesUnopened hcloses with ⟨hlt, herror⟩ | ⟨heq, out, hok⟩
    · simp [herror, hcloses, hlt]
    · simp [hok, heq]

theorem exists_ofTokens_iff {tokens : List Token} :
    (∃ out, ofTokens tokens = .ok out) ↔
      ¬ ClosesUnopened tokens ∧ tokens.count .closing = tokens.count .opening := by
  by_cases hcloses : ClosesUnopened tokens
  · simp [ofTokens_of_closesUnopened hcloses, hcloses]
  · rcases ofTokens_of_not_closesUnopened hcloses with ⟨hlt, herror⟩ | ⟨heq, hok⟩
    · simp [herror, hlt.ne]
    · simp [hok, hcloses, heq]

/-- Numbers and operators have no influence on whether a conversion fails, and how. -/
theorem ofTokens_error_filter_iff {tokens : List Token} {e : ExpressionError} :
    ofTokens (tokens.filter Token.isParenthesis) = .error e ↔ ofTokens tokens = .error e := by
  have hiff : ∀ e, e = .extraClosing ∨ e = .unclosedOpening →
      (ofTokens (tokens.filter Token.isParenthesis) = .error e ↔ ofTokens tokens = .error e) := by
    rintro e (rfl | rfl)
    · rw [ofTokens_eq_extraClosing_iff, ofTokens_eq_extraClosing_iff,
        Token.closesUnopened_filter_isParenthesis]
    · rw [ofTokens_eq_unclosedOpening_iff, ofTokens_eq_unclosedOpening_iff,
        Token.closesUnopened_filter_isParenthesis, (Token.count_filter_isParenthesis tokens).1,
        (Token.count_filter_isParenthesis tokens).2]
  exact ⟨fun h => (hiff e (ofTokens_error h)).mp h, fun h => (hiff e (ofTokens_error h)).mpr h⟩

/-- A conversion fails for a `)` too many exactly if some beginning of the tokens has more of them
than of `(`, for a `(` too many exactly if no beginning has and all tokens have more of these, and
it succeeds in all other cases. All other tokens can be left out. -/
theorem ofTokens_error_iff_parentheses (tokens : List Token) :
    (ofTokens tokens = .error .extraClosing ↔
      ∃ before, before <+: tokens ∧ before.count .opening < before.count .closing) ∧
    (ofTokens tokens = .error .unclosedOpening ↔
      (∀ before, before <+: tokens → before.count .closing ≤ before.count .opening) ∧
        tokens.count .closing < tokens.count .opening) ∧
    ((∃ out, ofTokens tokens = .ok out) ↔
      (∀ before, before <+: tokens → before.count .closing ≤ before.count .opening) ∧
        tokens.count .closing = tokens.count .opening) ∧
    ∀ e, ofTokens (tokens.filter Token.isParenthesis) = .error e ↔ ofTokens tokens = .error e := by
  rw [← Token.not_closesUnopened_iff]
  exact ⟨ofTokens_eq_extraClosing_iff, ofTokens_eq_unclosedOpening_iff, exists_ofTokens_iff,
    fun _ => ofTokens_error_filter_iff⟩

end Rpn

end Reckoner
