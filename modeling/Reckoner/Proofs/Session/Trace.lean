import Reckoner.Proofs.Display.Significant
import Reckoner.Proofs.History.Log
import Reckoner.Proofs.Session.Replay
import Reckoner.Proofs.Text.Trim

/-! What a session does to its history over many lines. Only a calculation with a finite result and
a clear that is confirmed change it; the last result is that of the last calculation. -/
namespace Reckoner

namespace Session

open History (Operation)

/-- The change that a line makes to the history of a session: it keeps a calculation whose result is
finite, or it confirms a clear. -/
inductive Changes (s : Session) (line : Line) : Operation → Prop
  | evaluates {v : Binary64} (hquestion : s.question = .command) (hmode : s.mode = .expression)
      (hcommand : Command.ofText (trim line.text) = .input (trim line.text))
      (hvalue : Expression.value (trim line.text) = .ok v) (hfinite : v.isFinite) :
      Changes s line (.push ⟨trim line.text, v, line.time⟩)
  | calculates {a b : Binary64} {op : Operator} (hquestion : s.question = .secondNumber a op)
      (h : Completes line op a b) :
      Changes s line (.push ⟨stepExpression a op b, op.apply a b, line.time⟩)
  | clears (hquestion : s.question = .confirmClear)
      (htext : trim line.text = ['y'] ∨ trim line.text = ['Y']) : Changes s line .clear

/-- The session after a line has changed its history. -/
def IsChangedBy (op : Operation) (s next : Session) : Prop :=
  next.history = s.history.perform op ∧
    next.lastResult = (op.pushed?.map Entry.result).or s.lastResult

variable {s next m : Session} {line : Line} {out : List Char} {op : Operation} {e : Entry}

theorem evaluate_of_value {text : List Char} {v : Binary64} {time : Instant}
    (hvalue : Expression.value text = .ok v) (hfinite : v.isFinite)
    (h : s.evaluate text time = .ok (next, out)) : next = s.record text v time := by
  have hne : text ≠ [] := by
    rintro rfl
    cases hvalue
  unfold evaluate at h
  rw [if_neg hne] at h
  simp only [hvalue, Display.nonFiniteName?_eq_none_iff.mpr hfinite] at h
  obtain ⟨shown, -, hrecord⟩ := bind_eq_ok_iff.mp h
  exact (fst_eq_of_ok hrecord).symm

theorem Changes.isChangedBy (h : Changes s line op) (hanswer : s.answer line = .ok (next, out)) :
    IsChangedBy op s next := by
  cases h with
  | evaluates hquestion hmode hcommand hvalue hfinite =>
    simp only [answer, hquestion, hcommand, obey, hmode] at hanswer
    obtain rfl := evaluate_of_value hvalue hfinite hanswer
    exact ⟨rfl, rfl⟩
  | calculates hquestion hcompletes =>
    rcases answer_secondNumber hquestion hanswer with ⟨b, hb, rfl⟩ | ⟨hnone, -⟩
    · obtain rfl := Option.some.inj (hb.number?_eq.symm.trans hcompletes.number?_eq)
      exact ⟨rfl, rfl⟩
    · exact absurd hcompletes (hnone _)
  | clears hquestion htext =>
    simp only [answer, hquestion, if_pos htext] at hanswer
    obtain rfl := fst_eq_of_ok hanswer
    exact ⟨rfl, rfl⟩

/-- The input that a command holds is the whole line. -/
theorem eq_trim_of_ofText {text : List Char}
    (h : Command.ofText (trim line.text) = .input text) : text = trim line.text := by
  unfold Command.ofText at h
  simp only [trim_trim] at h
  repeat' split at h
  all_goals cases h
  rfl

/-- Any other line leaves what has been calculated as it is. -/
theorem unchanged_of_answer (h : ∀ op, ¬ Changes s line op)
    (hanswer : s.answer line = .ok (next, out)) :
    next.history = s.history ∧ next.lastResult = s.lastResult := by
  cases step_of_answer hanswer with
  | moves mode question hfollows => exact ⟨rfl, rfl⟩
  | clears hquestion htext => exact absurd (.clears hquestion htext) (h _)
  | evaluates hquestion hmode hcommand hvalue hfinite =>
    obtain rfl := eq_trim_of_ofText hcommand
    exact absurd (.evaluates hquestion hmode hcommand hvalue hfinite) (h _)
  | calculates hquestion hcompletes => exact absurd (.calculates hquestion hcompletes) (h _)

theorem history_of_answer (h : s.answer line = .ok (next, out)) :
    (∃ op, Changes s line op ∧ IsChangedBy op s next) ∨
      ((∀ op, ¬ Changes s line op) ∧ next.history = s.history ∧
        next.lastResult = s.lastResult) := by
  by_cases hchanges : ∃ op, Changes s line op
  · obtain ⟨op, hop⟩ := hchanges
    exact .inl ⟨op, hop, hop.isChangedBy h⟩
  · have hnone := not_exists.mp hchanges
    exact .inr ⟨hnone, unchanged_of_answer hnone h⟩

/-- Numbers and operators are asked for in the mode of calculations in steps only. -/
def IsOrderly (s : Session) : Prop :=
  match s.question with
  | .firstNumber | .operator _ | .secondNumber _ _ => s.mode = .stepByStep
  | _ => True

theorem isOrderly_of_mode (h : s.mode = .stepByStep) : s.IsOrderly := by
  unfold IsOrderly
  split <;> trivial

theorem isOrderly_of_command (h : s.question = .command) : s.IsOrderly := by
  simp only [IsOrderly, h]

theorem isOrderly_of_obey {command : Command} {time : Instant} (hquestion : s.question = .command)
    (h : s.obey time command = .ok (next, out)) : next.IsOrderly := by
  cases command with
  | input text =>
    unfold obey at h
    dsimp only at h
    split at h
    next =>
      rcases evaluate_cases h with rfl | ⟨v, -, -, rfl⟩ <;> exact isOrderly_of_command hquestion
    next hmode =>
      obtain rfl := fst_eq_of_ok h
      exact hmode
  | quit => obtain rfl := fst_eq_of_ok h; trivial
  | clearHistory => obtain rfl := fst_eq_of_ok h; trivial
  | switchMode => obtain rfl := fst_eq_of_ok h; exact isOrderly_of_command hquestion
  | help => obtain rfl := fst_eq_of_ok h; exact isOrderly_of_command hquestion
  | showHistory => obtain rfl := fst_eq_of_ok h; exact isOrderly_of_command hquestion
  | copy => obtain rfl := fst_eq_of_ok h; exact isOrderly_of_command hquestion

theorem isOrderly_of_answer (hs : s.IsOrderly) (h : s.answer line = .ok (next, out)) :
    next.IsOrderly := by
  cases hquestion : s.question with
  | nothing =>
    simp only [answer, hquestion] at h
    obtain rfl := fst_eq_of_ok h
    exact hs
  | command =>
    simp only [answer, hquestion] at h
    exact isOrderly_of_obey hquestion h
  | confirmClear =>
    simp only [answer, hquestion] at h
    split at h <;> obtain rfl := fst_eq_of_ok h <;> trivial
  | firstNumber =>
    -- the mode stays, whether or not a number has been given
    simp only [IsOrderly, hquestion] at hs
    simp only [answer, hquestion] at h
    split at h
    next => obtain rfl := fst_eq_of_ok h; trivial
    split at h <;> obtain rfl := fst_eq_of_ok h <;> exact isOrderly_of_mode hs
  | operator a =>
    simp only [IsOrderly, hquestion] at hs
    simp only [answer, hquestion] at h
    split at h
    next => obtain rfl := fst_eq_of_ok h; trivial
    split at h <;> obtain rfl := fst_eq_of_ok h <;> exact isOrderly_of_mode hs
  | secondNumber a op =>
    simp only [IsOrderly, hquestion] at hs
    rcases answer_secondNumber hquestion h with ⟨b, -, rfl⟩ | ⟨-, question, -, rfl⟩
    · trivial
    · exact isOrderly_of_mode hs

theorem Changes.isFinite (h : Changes s line op) : ∀ e ∈ op.pushed?, e.result.isFinite := by
  intro e he
  cases h with
  | evaluates hquestion hmode hcommand hvalue hfinite =>
    obtain rfl := Option.some.inj he
    exact hfinite
  | calculates hquestion hcompletes =>
    obtain rfl := Option.some.inj he
    exact hcompletes.isFinite
  | clears hquestion htext => cases he

/-- Where whole expressions are entered, the line is kept and its value is the result. -/
theorem Changes.value_eq (hs : s.IsOrderly) (hmode : s.mode = .expression)
    (h : Changes s line (.push e)) :
    e.expression = trim line.text ∧ Expression.value e.expression = .ok e.result := by
  cases h with
  | evaluates hquestion hmode hcommand hvalue hfinite => exact ⟨rfl, hvalue⟩
  | calculates hquestion hcompletes =>
    simp [IsOrderly, hquestion, hmode] at hs

theorem options_of_answer (h : s.answer line = .ok (next, out)) : next.options = s.options := by
  cases step_of_answer h <;> rfl

theorem exists_evaluate (h : s.options.precision ≤ 65532) (text : List Char) (time : Instant) :
    ∃ answered, s.evaluate text time = .ok answered := by
  unfold evaluate
  split
  next => exact ⟨_, rfl⟩
  split
  next v hvalue =>
    obtain ⟨shown, hshown⟩ := Display.Options.exists_format h v
    rw [hshown]
    split <;> exact ⟨_, rfl⟩
  next => exact ⟨_, rfl⟩
  next => exact ⟨_, rfl⟩

theorem exists_evaluateStep (h : s.options.precision ≤ 65532) (a : Binary64) (op : Operator)
    (b : Binary64) (time : Instant) : ∃ answered, s.evaluateStep a op b time = .ok answered := by
  obtain ⟨left, hleft⟩ := Display.Options.exists_format h a
  obtain ⟨right, hright⟩ := Display.Options.exists_format h b
  obtain ⟨shown, hshown⟩ := Display.Options.exists_format h (op.apply a b)
  unfold evaluateStep
  split
  next => exact ⟨_, rfl⟩
  dsimp only
  rw [hleft, hright, hshown]
  split <;> exact ⟨_, rfl⟩

/-- No line stops a session whose results can all be laid out. -/
theorem exists_answer (h : s.options.precision ≤ 65532) (line : Line) :
    ∃ next out, s.answer line = .ok (next, out) := by
  suffices hanswered : ∃ answered, s.answer line = .ok answered by
    obtain ⟨⟨next, out⟩, hanswer⟩ := hanswered
    exact ⟨next, out, hanswer⟩
  cases hquestion : s.question <;> simp only [answer, hquestion]
  case command =>
    cases Command.ofText (trim line.text) <;> simp only [obey]
    case input text =>
      split
      next => exact exists_evaluate h text line.time
      next => exact ⟨_, rfl⟩
    all_goals exact ⟨_, rfl⟩
  case secondNumber a op =>
    split
    next => exact ⟨_, rfl⟩
    split
    next b hb => exact exists_evaluateStep (s := { s with question := .command }) h a op b _
    next => exact ⟨_, rfl⟩
  case nothing => exact ⟨_, rfl⟩
  case confirmClear => split <;> exact ⟨_, rfl⟩
  case firstNumber | operator => split <;> [skip; split] <;> exact ⟨_, rfl⟩

/-- What the lines of a session have done to its history, in their order. -/
inductive Trace : Session → List Line → List Operation → Session → Prop
  | done (s : Session) : Trace s [] [] s
  | changes {s next m : Session} {line : Line} {out : List Char} {op : Operation}
      {input : List Line} {operations : List Operation} (h : Changes s line op)
      (hanswer : s.answer line = .ok (next, out)) (hrest : Trace next input operations m) :
      Trace s (line :: input) (op :: operations) m
  | passes {s next m : Session} {line : Line} {out : List Char} {input : List Line}
      {operations : List Operation} (h : ∀ op, ¬ Changes s line op)
      (hanswer : s.answer line = .ok (next, out)) (hrest : Trace next input operations m) :
      Trace s (line :: input) operations m

theorem exists_trace (h : s.options.precision ≤ 65532) (input : List Line) :
    ∃ m operations, s.after input = .ok m ∧ Trace s input operations m := by
  induction input generalizing s with
  | nil => exact ⟨s, [], rfl, .done s⟩
  | cons line input ih =>
    obtain ⟨next, out, hanswer⟩ := exists_answer h line
    obtain ⟨m, operations, hafter, hrest⟩ := ih (s := next) (by rwa [options_of_answer hanswer])
    have hlines : s.after (line :: input) = .ok m := by rw [after_cons, hanswer, ok_bind, hafter]
    by_cases hchanges : ∃ op, Changes s line op
    · obtain ⟨op, hop⟩ := hchanges
      exact ⟨m, op :: operations, hlines, .changes hop hanswer hrest⟩
    · exact ⟨m, operations, hlines, .passes (not_exists.mp hchanges) hanswer hrest⟩

namespace Trace

variable {input : List Line} {operations : List Operation}

theorem history_eq (h : Trace s input operations m) :
    m.history = operations.foldl History.perform s.history := by
  induction h with
  | done => rfl
  | changes h hanswer hrest ih => rw [ih, (h.isChangedBy hanswer).1, List.foldl_cons]
  | passes h hanswer hrest ih => rw [ih, (unchanged_of_answer h hanswer).1]

theorem lastResult_eq (h : Trace s input operations m) :
    m.lastResult =
      ((operations.filterMap Operation.pushed?).getLast?.map Entry.result).or s.lastResult := by
  induction h with
  | done => rfl
  | @changes _ _ _ _ _ op _ _ h hanswer hrest ih =>
    rw [ih, (h.isChangedBy hanswer).2, List.filterMap_cons]
    cases op.pushed? with
    | none => rfl
    | some e =>
      rw [List.getLast?_cons]
      cases (List.filterMap Operation.pushed? _).getLast? <;> rfl
  | passes h hanswer hrest ih => rw [ih, (unchanged_of_answer h hanswer).2]

theorem isFinite (h : Trace s input operations m) :
    ∀ e ∈ operations.filterMap Operation.pushed?, e.result.isFinite := by
  induction h with
  | done => simp
  | changes h hanswer hrest ih =>
    intro e he
    obtain ⟨op, hop, hpushed⟩ := List.mem_filterMap.mp he
    rcases List.mem_cons.mp hop with rfl | hlater
    · exact h.isFinite e hpushed
    · exact ih e (List.mem_filterMap.mpr ⟨op, hlater, hpushed⟩)
  | passes h hanswer hrest ih => exact ih

theorem isOrderly (h : Trace s input operations m) (hs : s.IsOrderly) : m.IsOrderly := by
  induction h with
  | done => exact hs
  | changes h hanswer hrest ih => exact ih (isOrderly_of_answer hs hanswer)
  | passes h hanswer hrest ih => exact ih (isOrderly_of_answer hs hanswer)

theorem options_eq (h : Trace s input operations m) : m.options = s.options := by
  induction h with
  | done => rfl
  | changes h hanswer hrest ih => rw [ih, options_of_answer hanswer]
  | passes h hanswer hrest ih => rw [ih, options_of_answer hanswer]

theorem limit_eq (h : Trace s input operations m) : m.history.limit = s.history.limit := by
  induction h with
  | done => rfl
  | changes h hanswer hrest ih =>
    rw [ih, (h.isChangedBy hanswer).1]
    cases h <;> rfl
  | passes h hanswer hrest ih => rw [ih, (unchanged_of_answer h hanswer).1]

end Trace

/-- The end of input leaves what has been calculated as it is. -/
theorem history_endOfInput (s : Session) :
    s.endOfInput.1.history = s.history ∧ s.endOfInput.1.lastResult = s.lastResult := by
  unfold endOfInput
  split <;> exact ⟨rfl, rfl⟩

theorem exists_run {input : List Line} (h : s.after input = .ok m) :
    ∃ last out, s.run input = .ok (last, out) ∧ last.history = m.history ∧
      last.lastResult = m.lastResult := by
  have hproceed := proceed_eq (s := s) input
  rw [h, map_ok] at hproceed
  obtain ⟨⟨last, out⟩, hlast, rfl⟩ := map_eq_ok_iff.mp hproceed
  refine ⟨m.endOfInput.1, s.opening ++ out, ?_, history_endOfInput m⟩
  rw [run, hlast]
  rfl

/-- In a session whose results can be laid out every line is answered, in whatever state the lines
before it have left the session. The history is the first one, changed only by calculations that are
kept and by clears that are confirmed, and it keeps to its limit. A result that is kept is finite;
where whole expressions are entered, it is the value of the line. The last result is that of the
last calculation, also when the history has been cleared or has dropped it, and any other line, or
the end of input, leaves both alone. -/
theorem history_after (history : History) {options : Display.Options} (zone : Zone)
    (clipboard : Clipboard) (h : options.precision ≤ 65532) (input : List Line) :
    ∃ m operations, after { history, options, zone, clipboard } input = .ok m ∧
      Trace { history, options, zone, clipboard } input operations m ∧
      m.history = operations.foldl History.perform history ∧
      m.lastResult =
        (operations.filterMap Operation.pushed?).getLast?.map Entry.result ∧
      (∀ e ∈ operations.filterMap Operation.pushed?, e.result.isFinite) ∧
      m.history.limit = history.limit ∧ m.history.entries.length ≤ history.limit ∧
      (∀ line, ∃ next out, m.answer line = .ok (next, out) ∧
        ((∃ op, Changes m line op ∧ next.history = m.history.perform op ∧
            next.lastResult = (op.pushed?.map Entry.result).or m.lastResult) ∨
          ((∀ op, ¬ Changes m line op) ∧ next.history = m.history ∧
            next.lastResult = m.lastResult)) ∧
        ∀ e, Changes m line (.push e) → m.mode = .expression →
          e.expression = trim line.text ∧ Expression.value e.expression = .ok e.result) ∧
      ∃ last out, run { history, options, zone, clipboard } input = .ok (last, out) ∧
        last.history = m.history ∧ last.lastResult = m.lastResult := by
  obtain ⟨m, operations, hafter, htrace⟩ :=
    exists_trace (s := { history, options, zone, clipboard }) h input
  have hlimit : m.history.limit = history.limit := htrace.limit_eq
  have horderly := htrace.isOrderly (isOrderly_of_command rfl)
  refine ⟨m, operations, hafter, htrace, htrace.history_eq, ?_, htrace.isFinite, hlimit, ?_,
    fun line => ?_, exists_run hafter⟩
  · rw [htrace.lastResult_eq]
    exact Option.or_none
  · exact m.history.length_le.trans_eq hlimit
  · obtain ⟨next, out, hanswer⟩ := exists_answer (s := m) (by rwa [htrace.options_eq]) line
    exact ⟨next, out, hanswer, history_of_answer hanswer,
      fun e he hmode => he.value_eq horderly hmode⟩

/-- After a clear that is confirmed and a division by zero the last result still is `5`, though no
entry is left. -/
theorem history_after_clear :
    fresh.options.precision ≤ 65532 ∧ ∃ m operations,
      fresh.after (["2+3", "clear history", " Y ", "1/0"].map typed) = .ok m ∧
      Trace fresh (["2+3", "clear history", " Y ", "1/0"].map typed) operations m ∧
      (operations.filterMap Operation.pushed?).getLast?.map Entry.result =
        some (.ofBits 0x4014000000000000) ∧
      m.history.entries = [] := by
  have hprecision : fresh.options.precision ≤ 65532 := by decide
  have hlast : (fresh.after (["2+3", "clear history", " Y ", "1/0"].map typed)).map
      (fun m => (m.lastResult, m.history.entries)) =
        .ok (some (.ofBits 0x4014000000000000), []) := by decide +kernel
  obtain ⟨m, operations, hafter, htrace, -, hresult, -⟩ := history_after
    (.empty History.defaultLimit) .universal .disabled hprecision
    (["2+3", "clear history", " Y ", "1/0"].map typed)
  change fresh.after _ = _ at hafter
  rw [hafter, map_ok] at hlast
  obtain ⟨hvalue, hentries⟩ := Prod.mk.inj (Except.ok.inj hlast)
  exact ⟨hprecision, m, operations, hafter, htrace, hresult.symm.trans hvalue, hentries⟩

end Session

end Reckoner
