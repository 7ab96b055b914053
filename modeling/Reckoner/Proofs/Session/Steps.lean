import Reckoner.Proofs.Outcome
import Reckoner.Session.Basic

/-! What one line can do to a session, and what a session is after many of them. -/
namespace Reckoner

theorem Display.nonFiniteName?_eq_none_iff {v : Binary64} :
    nonFiniteName? v = none ↔ v.isFinite := by
  cases v with
  | nan => exact ⟨nofun, nofun⟩
  | infinite negative => exact ⟨nofun, nofun⟩
  | finite negative x => exact ⟨fun _ => rfl, fun _ => rfl⟩

namespace Session

/-- Whether a question can come after another one and a line: numbers and operators in it are those
that were there before, or have been read from the line. -/
def Follows (line : Line) (before : Question) : Question → Prop
  | .operator a => before = .operator a ∨ number? (trim line.text) = some a
  | .secondNumber a op =>
    before = .secondNumber a op ∨
      (before = .operator a ∧ operator? (trim line.text) = some op)
  | _ => True

theorem follows_self (line : Line) (question : Question) : Follows line question question := by
  cases question <;> simp [Follows]

/-- Whether a line gives the second number of a calculation that has a finite result. -/
structure Completes (line : Line) (op : Operator) (a b : Binary64) : Prop where
  not_isQuit : ¬ isQuit (trim line.text)
  number?_eq : number? (trim line.text) = some b
  divisor : ¬ (op = .div ∧ b.isZero)
  isFinite : (op.apply a b).isFinite

/-- What a line can do: a change of the mode or the question, which leaves the calculations alone, a
clear that is confirmed, or a calculation that is recorded. -/
inductive Step (s : Session) (line : Line) : Session → Prop
  | moves (mode : Mode) (question : Question) (h : Follows line s.question question) :
      Step s line { s with mode := mode, question := question }
  | clears (hquestion : s.question = .confirmClear)
      (htext : trim line.text = ['y'] ∨ trim line.text = ['Y']) :
      Step s line { s with history := s.history.clear, question := .command }
  | evaluates {text : List Char} {v : Binary64} (hquestion : s.question = .command)
      (hmode : s.mode = .expression) (hcommand : Command.ofText (trim line.text) = .input text)
      (hvalue : Expression.value text = .ok v) (hfinite : v.isFinite) :
      Step s line (s.record text v line.time)
  | calculates {a b : Binary64} {op : Operator} (hquestion : s.question = .secondNumber a op)
      (h : Completes line op a b) :
      Step s line ({ s with question := .command }.record (stepExpression a op b) (op.apply a b)
        line.time)

variable {s next : Session} {line : Line} {text out : List Char} {time : Instant}

theorem Step.stays : Step s line s :=
  .moves s.mode s.question (follows_self line s.question)

theorem evaluate_cases (h : s.evaluate text time = .ok (next, out)) :
    next = s ∨
      ∃ v, Expression.value text = .ok v ∧ v.isFinite ∧ next = s.record text v time := by
  unfold evaluate at h
  split at h
  next =>
    obtain rfl := fst_eq_of_ok h
    exact .inl rfl
  split at h
  next v hvalue =>
    split at h
    next =>
      obtain rfl := fst_eq_of_ok h
      exact .inl rfl
    next hname =>
      obtain ⟨shown, -, hrecord⟩ := bind_eq_ok_iff.mp h
      obtain rfl := fst_eq_of_ok hrecord
      exact .inr ⟨v, hvalue, Display.nonFiniteName?_eq_none_iff.mp hname, rfl⟩
  next =>
    obtain rfl := fst_eq_of_ok h
    exact .inl rfl
  next =>
    obtain rfl := fst_eq_of_ok h
    exact .inl rfl

/-- A calculation in steps is recorded unless it divides by zero or its result is not finite. -/
theorem evaluateStep_cases {a b : Binary64} {op : Operator}
    (h : s.evaluateStep a op b time = .ok (next, out)) :
    (¬ (op = .div ∧ b.isZero) ∧ (op.apply a b).isFinite ∧
        next = s.record (stepExpression a op b) (op.apply a b) time) ∨
      (¬ (¬ (op = .div ∧ b.isZero) ∧ (op.apply a b).isFinite) ∧ next = s) := by
  unfold evaluateStep at h
  split at h
  next hdiv =>
    obtain rfl := fst_eq_of_ok h
    exact .inr ⟨fun hboth => hboth.1 hdiv, rfl⟩
  next hdiv =>
    dsimp only at h
    split at h
    next name hname =>
      obtain rfl := fst_eq_of_ok h
      refine .inr ⟨fun hboth => ?_, rfl⟩
      rw [Display.nonFiniteName?_eq_none_iff.mpr hboth.2] at hname
      cases hname
    next hname =>
      obtain ⟨left, -, h⟩ := bind_eq_ok_iff.mp h
      obtain ⟨right, -, h⟩ := bind_eq_ok_iff.mp h
      obtain ⟨shown, -, h⟩ := bind_eq_ok_iff.mp h
      obtain rfl := fst_eq_of_ok h
      exact .inl ⟨hdiv, Display.nonFiniteName?_eq_none_iff.mp hname, rfl⟩

/-- A line in answer to the second number completes the calculation, or only the question can be
another one. -/
theorem answer_secondNumber {a : Binary64} {op : Operator}
    (hquestion : s.question = .secondNumber a op) (h : s.answer line = .ok (next, out)) :
    (∃ b, Completes line op a b ∧ next = { s with question := .command }.record
        (stepExpression a op b) (op.apply a b) line.time) ∨
      ((∀ b, ¬ Completes line op a b) ∧
        ∃ question, Follows line s.question question ∧ next = { s with question := question }) := by
  unfold answer at h
  simp only [hquestion] at h
  split at h
  next hquit =>
    obtain rfl := fst_eq_of_ok h
    exact .inr ⟨fun b hb => hb.not_isQuit hquit, .nothing, trivial, rfl⟩
  next hquit =>
    split at h
    next b hnumber =>
      rcases evaluateStep_cases h with ⟨hdiv, hfinite, hnext⟩ | ⟨hfails, hnext⟩
      · exact .inl ⟨b, ⟨hquit, hnumber, hdiv, hfinite⟩, hnext⟩
      · refine .inr ⟨fun c hc => hfails ?_, .command, trivial, hnext⟩
        obtain rfl : b = c := Option.some.inj (hnumber.symm.trans hc.number?_eq)
        exact ⟨hc.divisor, hc.isFinite⟩
    next hnumber =>
      obtain rfl := fst_eq_of_ok h
      refine .inr ⟨fun b hb => ?_, s.question, follows_self line s.question, rfl⟩
      rw [hb.number?_eq] at hnumber
      cases hnumber

theorem step_of_obey {command : Command} (hquestion : s.question = .command)
    (hcommand : Command.ofText (trim line.text) = command)
    (h : s.obey line.time command = .ok (next, out)) : Step s line next := by
  cases command with
  | quit =>
    obtain rfl := fst_eq_of_ok h
    exact .moves s.mode .nothing trivial
  | help =>
    obtain rfl := fst_eq_of_ok h
    exact .stays
  | switchMode =>
    obtain rfl := fst_eq_of_ok h
    exact .moves s.mode.other s.question (follows_self line s.question)
  | showHistory =>
    obtain rfl := fst_eq_of_ok h
    exact .stays
  | clearHistory =>
    obtain rfl := fst_eq_of_ok h
    exact .moves s.mode .confirmClear trivial
  | copy =>
    obtain rfl := fst_eq_of_ok h
    exact .stays
  | input text =>
    unfold obey at h
    dsimp only at h
    -- any other text is an expression, or begins a calculation in steps
    split at h
    next hmode =>
      rcases evaluate_cases h with rfl | ⟨v, hvalue, hfinite, rfl⟩
      · exact .stays
      · exact .evaluates hquestion hmode hcommand hvalue hfinite
    next =>
      obtain rfl := fst_eq_of_ok h
      exact .moves s.mode .firstNumber trivial

theorem step_of_answer (h : s.answer line = .ok (next, out)) : Step s line next := by
  cases hquestion : s.question with
  | nothing =>
    simp only [answer, hquestion] at h
    obtain rfl := fst_eq_of_ok h
    exact .stays
  | command =>
    simp only [answer, hquestion] at h
    exact step_of_obey hquestion rfl h
  | confirmClear =>
    simp only [answer, hquestion] at h
    split at h
    next htext =>
      obtain rfl := fst_eq_of_ok h
      exact .clears hquestion htext
    next =>
      obtain rfl := fst_eq_of_ok h
      exact .moves s.mode .command trivial
  | firstNumber =>
    simp only [answer, hquestion] at h
    split at h
    next =>
      obtain rfl := fst_eq_of_ok h
      exact .moves s.mode .nothing trivial
    split at h
    next a hnumber =>
      obtain rfl := fst_eq_of_ok h
      exact .moves s.mode (.operator a) (.inr hnumber)
    next =>
      obtain rfl := fst_eq_of_ok h
      exact .stays
  | operator a =>
    simp only [answer, hquestion] at h
    split at h
    next =>
      obtain rfl := fst_eq_of_ok h
      exact .moves s.mode .nothing trivial
    split at h
    next op hoperator =>
      obtain rfl := fst_eq_of_ok h
      exact .moves s.mode (.secondNumber a op) (.inr ⟨hquestion, hoperator⟩)
    next =>
      obtain rfl := fst_eq_of_ok h
      exact .stays
  | secondNumber a op =>
    rcases answer_secondNumber hquestion h with ⟨b, hb, rfl⟩ | ⟨-, question, hfollows, rfl⟩
    · exact .calculates hquestion hb
    · exact .moves s.mode question hfollows

/-- The session after some lines, whatever is written for them. -/
def after (s : Session) (input : List Line) : Except Display.Refusal Session :=
  input.foldlM (fun s line => (s.answer line).map Prod.fst) s

theorem after_cons (input : List Line) :
    s.after (line :: input) = s.answer line >>= fun answered => answered.1.after input := by
  rw [after, List.foldlM_cons]
  cases s.answer line <;> rfl

theorem after_append (input more : List Line) :
    s.after (input ++ more) = s.after input >>= fun m => m.after more :=
  List.foldlM_append

theorem after_of_nothing (h : s.question = .nothing) (input : List Line) :
    s.after input = .ok s := by
  induction input with
  | nil => rfl
  | cons line input ih =>
    have hanswer : s.answer line = .ok (s, []) := by simp only [answer, h]
    rw [after_cons, hanswer, ok_bind, ih]

/-- A whole session leaves what is left at the end of input after all its lines, also where it is
over before the last of them. -/
theorem proceed_eq (input : List Line) :
    (s.proceed input).map Prod.fst = (s.after input).map fun last => last.endOfInput.1 := by
  induction input generalizing s with
  | nil => rfl
  | cons line input ih =>
    rw [proceed, after_cons]
    cases hanswer : s.answer line with
    | error refusal => rfl
    | ok answered =>
      rw [ok_bind, ok_bind]
      dsimp only
      split
      next hover =>
        -- the lines that are left change nothing, and neither does the end of input
        rw [after_of_nothing hover]
        simp only [map_ok, endOfInput, hover]
        rfl
      next =>
        rw [← ih]
        cases answered.1.proceed input <;> rfl

/-- Whether the numbers and the operator of a question have been read from some lines. -/
def ReadFrom (input : List Line) : Question → Prop
  | .operator a => ∃ line ∈ input, number? (trim line.text) = some a
  | .secondNumber a op =>
    (∃ line ∈ input, number? (trim line.text) = some a) ∧
      ∃ line ∈ input, operator? (trim line.text) = some op
  | _ => True

theorem Follows.readFrom {input : List Line} {before question : Question}
    (h : Follows line before question) (hline : line ∈ input) (hbefore : ReadFrom input before) :
    ReadFrom input question := by
  cases question with
  | operator a =>
    rcases h with rfl | hnumber
    · exact hbefore
    · exact ⟨line, hline, hnumber⟩
  | secondNumber a op =>
    rcases h with rfl | ⟨rfl, hoperator⟩
    · exact hbefore
    · exact ⟨hbefore, line, hline, hoperator⟩
  | command => trivial
  | confirmClear => trivial
  | firstNumber => trivial
  | nothing => trivial

theorem Step.readFrom {input : List Line} (h : Step s line next) (hline : line ∈ input)
    (hs : ReadFrom input s.question) : ReadFrom input next.question := by
  cases h with
  | moves mode question hfollows => exact hfollows.readFrom hline hs
  | clears hquestion htext => trivial
  | evaluates hquestion hmode hcommand hvalue hfinite => exact hs
  | calculates hquestion h => trivial

/-- In a session that begins with a command, the numbers and the operator that are known at a time
are lines that were given. -/
theorem readFrom_after {input : List Line} {m : Session} (hs : s.question = .command)
    (h : s.after input = .ok m) : ReadFrom input m.question := by
  refine foldlM_ok_induction (p := fun s => ReadFrom input s.question) ?_ ?_ h
  · intro line hline s next hread hstep
    obtain ⟨⟨next, out⟩, hanswer, rfl⟩ := map_eq_ok_iff.mp hstep
    exact (step_of_answer hanswer).readFrom hline hread
  · rw [hs]
    trivial

end Session

end Reckoner
