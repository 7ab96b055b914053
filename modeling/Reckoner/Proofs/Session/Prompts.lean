import Reckoner.Proofs.Expression.Tree
import Reckoner.Proofs.Session.Replay
import Reckoner.Proofs.Session.Trace

/-! The prompts of a calculation in steps. Each passes over the lines that it cannot read, so that
what the calculation comes to depends on the three lines that are read. -/
namespace Reckoner

/-- Two numbers and an operator in reverse Polish order are a calculation like any other. -/
theorem Rpn.value_binary {op : Operator} (hop : op ≠ .neg) (a b : Binary64) :
    value [.ofValue a, .ofValue b, .operator op] =
      if op = .div ∧ b.isZero then .error .divisionByZero else .ok (op.apply a b) := by
  have htree := value_postOrder
    (.binary op hop (.number a (DigitStyle.literal.write a))
      (.number b (DigitStyle.literal.write b)))
  simpa [Expression.Tree.postOrder, Expression.Tree.dividesByZero,
    Expression.Tree.value_binary, Expression.Tree.value, Token.ofValue] using htree

namespace Session

/-- What a session is at the end of its input, whatever is written on the way. -/
def final (s : Session) (input : List Line) : Except Display.Refusal Session :=
  (s.proceed input).map Prod.fst

section final

variable {s m : Session} {line : Line} {input : List Line}

theorem final_eq_after (s : Session) (input : List Line) :
    s.final input = (s.after input).map fun last => last.endOfInput.1 :=
  proceed_eq input

theorem final_nil (s : Session) : s.final [] = .ok s.endOfInput.1 := rfl

theorem final_cons (s : Session) (line : Line) (input : List Line) :
    s.final (line :: input) = s.answer line >>= fun answered => answered.1.final input := by
  rw [final_eq_after, after_cons]
  cases s.answer line with
  | error refusal => rfl
  | ok answered => rw [ok_bind, ok_bind, final_eq_after]

theorem final_of_nothing (h : s.question = .nothing) (input : List Line) :
    s.final input = .ok s := by
  rw [final_eq_after, after_of_nothing h, map_ok, endOfInput, h]

theorem final_append {before : List Line} (h : s.after before = .ok m) (input : List Line) :
    s.final (before ++ input) = m.final input := by
  rw [final_eq_after, after_append, h, ok_bind, final_eq_after]

end final

section prompt

variable {α : Type}

/-- Whether a prompt that reads lines with `read?` asks once more after a line. -/
def isRejected (read? : List Char → Option α) (line : Line) : Bool :=
  !isQuit (trim line.text) && (read? (trim line.text)).isNone

/-- What a prompt takes of some lines: the first one that it does not reject, unless that ends the
session, as what it reads and as it stands, and the lines after it. -/
def taken? (read? : List Char → Option α) (input : List Line) : Option (α × Line × List Line) :=
  match input.dropWhile (isRejected read?) with
  | [] => none
  | line :: rest =>
    if isQuit (trim line.text) then none
    else (read? (trim line.text)).map fun a => (a, line, rest)

variable {read? : List Char → Option α} {line : Line}

theorem taken?_of_isRejected (h : isRejected read? line) (input : List Line) :
    taken? read? (line :: input) = taken? read? input := by
  rw [taken?, taken?, List.dropWhile_cons_of_pos h]

theorem taken?_of_not_isRejected (h : ¬ isRejected read? line) (input : List Line) :
    taken? read? (line :: input) =
      if isQuit (trim line.text) then none
      else (read? (trim line.text)).map fun a => (a, line, input) := by
  rw [taken?, List.dropWhile_cons_of_neg h]

/-- A session at a prompt that reads lines with `read?`, and how it goes on from what is read. -/
structure Awaits (s : Session) (read? : List Char → Option α) (goOn : α → Line → Answer) :
    Prop where
  answer_eq : ∃ message, ∀ line, s.answer line =
    if isQuit (trim line.text) then .ok s.quit
    else
      match read? (trim line.text) with
      | some a => goOn a line
      | none => .ok (s, message)
  endOfInput_eq : s.endOfInput = s.quit

variable {s : Session} {goOn : α → Line → Answer}

theorem Awaits.answer_of_isRejected (h : s.Awaits read? goOn) (hline : isRejected read? line) :
    ∃ out, s.answer line = .ok (s, out) := by
  obtain ⟨message, hanswer⟩ := h.answer_eq
  simp only [isRejected, Bool.and_eq_true, Bool.not_eq_true', Option.isNone_iff_eq_none] at hline
  refine ⟨message, ?_⟩
  rw [hanswer, hline.2, if_neg (Bool.not_eq_true _ ▸ hline.1)]

/-- The end of a session at a prompt is decided by the first line that is not rejected. -/
theorem Awaits.final_eq (h : s.Awaits read? goOn) (input : List Line) :
    s.final input =
      match taken? read? input with
      | none => .ok s.quit.1
      | some (a, line, rest) => goOn a line >>= fun answered => answered.1.final rest := by
  induction input with
  | nil => rw [final_nil, h.endOfInput_eq]; rfl
  | cons line input ih =>
    rw [final_cons]
    by_cases hrejected : isRejected read? line
    · obtain ⟨out, hanswer⟩ := h.answer_of_isRejected hrejected
      rw [hanswer, ok_bind, ih, taken?_of_isRejected hrejected]
    · obtain ⟨message, hanswer⟩ := h.answer_eq
      rw [hanswer, taken?_of_not_isRejected hrejected]
      by_cases hquit : isQuit (trim line.text)
      · rw [if_pos hquit, if_pos hquit, ok_bind, final_of_nothing rfl]
      · rw [if_neg hquit, if_neg hquit]
        cases hread : read? (trim line.text) with
        | none => exact absurd (by simp [isRejected, hquit, hread]) hrejected
        | some a => rfl

end prompt

section questions

variable {s : Session} {a b : Binary64} {op : Operator} {line : Line} {time : Instant}

theorem awaits_firstNumber (h : s.question = .firstNumber) :
    s.Awaits number? fun a _ => .ok ({ s with question := .operator a }, []) where
  answer_eq := ⟨invalidNumber, fun line => by
    simp only [answer, h]
    cases number? (trim line.text) <;> rfl⟩
  endOfInput_eq := by simp only [endOfInput, h]

theorem awaits_operator (h : s.question = .operator a) :
    s.Awaits operator? fun op _ => .ok ({ s with question := .secondNumber a op }, []) where
  answer_eq := ⟨invalidOperator, fun line => by
    simp only [answer, h]
    cases operator? (trim line.text) <;> rfl⟩
  endOfInput_eq := by simp only [endOfInput, h]

theorem awaits_secondNumber (h : s.question = .secondNumber a op) :
    s.Awaits number? fun b line =>
      { s with question := .command }.evaluateStep a op b line.time where
  answer_eq := ⟨invalidNumber, fun line => by
    simp only [answer, h]
    cases number? (trim line.text) <;> rfl⟩
  endOfInput_eq := by simp only [endOfInput, h]

/-- Whether a session in the middle of a calculation in steps asks once more after a line. -/
def AsksAgain (s : Session) (line : Line) : Prop :=
  match s.question with
  | .firstNumber | .secondNumber _ _ => isRejected number? line
  | .operator _ => isRejected operator? line
  | _ => False

theorem AsksAgain.answer (h : s.AsksAgain line) : ∃ out, s.answer line = .ok (s, out) := by
  unfold AsksAgain at h
  cases hquestion : s.question <;> simp only [hquestion] at h
  case firstNumber => exact (awaits_firstNumber hquestion).answer_of_isRejected h
  case operator => exact (awaits_operator hquestion).answer_of_isRejected h
  case secondNumber => exact (awaits_secondNumber hquestion).answer_of_isRejected h

/-- The session after the second number: it expects a command, and it has recorded a result that is
finite, if there is one. It is refused to lay out numbers with too many places. -/
def concluded (s : Session) (a : Binary64) (op : Operator) (b : Binary64) (time : Instant) :
    Except Display.Refusal Session :=
  let s := { s with question := .command }
  match Rpn.value [.ofValue a, .ofValue b, .operator op] with
  | .ok r =>
    if r.isFinite then
      if [a, b, r].any (Display.refuses s.options.precision) then .error .tooManyPlaces
      else .ok (s.record (stepExpression a op b) r time)
    else .ok s
  | .error _ => .ok s

theorem map_evaluateStep (hop : op ≠ .neg) (s : Session) (a b : Binary64) (time : Instant) :
    ({ s with question := .command }.evaluateStep a op b time).map Prod.fst =
      s.concluded a op b time := by
  unfold evaluateStep concluded
  rw [Rpn.value_binary hop]
  by_cases hdiv : op = .div ∧ b.isZero
  · rw [if_pos hdiv, if_pos hdiv]
    rfl
  rw [if_neg hdiv, if_neg hdiv]
  dsimp only
  by_cases hfinite : (op.apply a b).isFinite
  · rw [Display.nonFiniteName?_eq_none_iff.mpr hfinite, if_pos hfinite]
    simp only [Display.Options.format, List.any_cons, List.any_nil, Bool.or_false]
    cases Display.refuses s.options.precision a <;>
      cases Display.refuses s.options.precision b <;>
      cases Display.refuses s.options.precision (op.apply a b) <;> rfl
  · rw [if_neg hfinite]
    cases hname : Display.nonFiniteName? (op.apply a b) with
    | none => exact absurd (Display.nonFiniteName?_eq_none_iff.mp hname) hfinite
    | some name => rfl

end questions

/-- What is entered for a calculation in steps, when the last of it is, and the lines after that. -/
structure Entered where
  first : Binary64
  op : Operator
  second : Binary64
  time : Instant
  rest : List Line

/-- What is entered for a calculation in steps, one prompt after the other, unless the session ends
at one of them. -/
def entered? (input : List Line) : Option Entered := do
  let (first, _, input) ← taken? number? input
  let (op, _, input) ← taken? operator? input
  let (second, line, rest) ← taken? number? input
  return { first, op, second, time := line.time, rest }

theorem ne_neg_of_taken? {op : Operator} {line : Line} {input rest : List Line}
    (h : taken? operator? input = some (op, line, rest)) : op ≠ .neg := by
  unfold taken? at h
  split at h
  next => cases h
  next =>
    split at h
    next => cases h
    next =>
      obtain ⟨op, hop, heq⟩ := Option.map_eq_some_iff.mp h
      obtain rfl := (Prod.mk.inj heq).1
      exact ne_neg_of_operator? hop

variable {s m : Session}

theorem final_of_firstNumber (hquestion : s.question = .firstNumber) (input : List Line) :
    s.final input =
      match entered? input with
      | none => .ok { s with question := .nothing }
      | some e => s.concluded e.first e.op e.second e.time >>= fun next => next.final e.rest := by
  rw [(awaits_firstNumber hquestion).final_eq, entered?]
  cases taken? number? input with
  | none => rfl
  | some first =>
    obtain ⟨a, -, input⟩ := first
    dsimp only [ok_bind, Option.bind_eq_bind, Option.bind_some]
    rw [(awaits_operator rfl).final_eq]
    cases hoperator : taken? operator? input with
    | none => rfl
    | some middle =>
      obtain ⟨op, _, input⟩ := middle
      dsimp only [ok_bind, Option.bind_eq_bind, Option.bind_some]
      rw [(awaits_secondNumber rfl).final_eq]
      cases taken? number? input with
      | none => rfl
      | some last =>
        obtain ⟨b, line, rest⟩ := last
        dsimp only [Option.bind_some, Option.pure_def]
        rw [← map_evaluateStep (ne_neg_of_taken? hoperator)]
        cases evaluateStep _ a op b line.time <;> rfl

theorem exists_concluded (h : s.options.precision ≤ 65532) (a : Binary64) (op : Operator)
    (b : Binary64) (time : Instant) : ∃ next, s.concluded a op b time = .ok next := by
  have hlaidOut : ∀ values : List Binary64,
      values.any (Display.refuses s.options.precision) = false := fun values => by
    simp [Display.refuses_eq_false h]
  unfold concluded
  dsimp only
  split
  next r _ =>
    rw [hlaidOut]
    split <;> exact ⟨_, rfl⟩
  next => exact ⟨_, rfl⟩

/-- An input line where calculations are entered in steps begins one. Each of its prompts passes
over the lines that it rejects; a word to quit or the end of input at one of them ends the session,
and nothing is changed. Otherwise the session expects a command again after the last of the three
lines that are read. It has recorded the value of the two numbers and the operator in reverse Polish
order if there is one and it is finite, and else nothing; only numbers that cannot be laid out with
the precision asked for stop it before that. A line that is rejected may be put in or left out
anywhere without any change to what the session comes to. -/
theorem final_eq_concluded (hmode : s.mode = .stepByStep) (hquestion : s.question = .command)
    {line : Line} {text : List Char} (hline : Command.ofText (trim line.text) = .input text)
    (input : List Line) :
    s.final (line :: input) =
      (match entered? input with
      | none => .ok { s with question := .nothing }
      | some e => s.concluded e.first e.op e.second e.time >>= fun next => next.final e.rest) ∧
    (s.options.precision ≤ 65532 →
      ∀ a op b time, ∃ next, s.concluded a op b time = .ok next) ∧
    ∀ before rejected rest m, s.after before = .ok m → m.AsksAgain rejected →
      s.final (before ++ rejected :: rest) = s.final (before ++ rest) := by
  refine ⟨?_, exists_concluded, fun before rejected rest m hbefore hrejected => ?_⟩
  · have hanswer : s.answer line = .ok ({ s with question := .firstNumber }, []) := by
      simp only [answer, hquestion, hline, obey, hmode]
    rw [final_cons, hanswer, ok_bind, final_of_firstNumber rfl]
    rfl
  · obtain ⟨out, hanswer⟩ := hrejected.answer
    rw [final_append hbefore, final_append hbefore, final_cons, hanswer, ok_bind]

def stepwise (precision : Nat) : Session :=
  { fresh with mode := .stepByStep, options := { precision } }

/-- Among lines that are no finite numbers and no operators, `7.5`, `*` and `-2` are read. -/
theorem final_eq_concluded_amongRejected :
    Command.ofText (trim (typed "").text) = .input [] ∧
      ∃ e next, entered? (["x", "7.5", "", "**", "*", "inf", "-2", "1/8"].map typed) = some e ∧
        (stepwise 10).concluded e.first e.op e.second e.time = .ok next ∧
        next.lastResult = some (.ofBits 0xC02E000000000000) ∧
        (stepwise 10).final
          (["", "x", "7.5", "", "**", "*", "inf", "-2", "1/8"].map typed) =
            next.final e.rest := by
  have hline : Command.ofText (trim (typed "").text) = .input [] := by decide +kernel
  have hlast : (entered? (["x", "7.5", "", "**", "*", "inf", "-2", "1/8"].map typed)).map
      (fun e => ((stepwise 10).concluded e.first e.op e.second e.time).map lastResult) =
        some (.ok (some (.ofBits 0xC02E000000000000))) := by decide +kernel
  obtain ⟨e, hentered, hconcludes⟩ := Option.map_eq_some_iff.mp hlast
  obtain ⟨next, hconcluded, hresult⟩ := map_eq_ok_iff.mp hconcludes
  obtain ⟨hfinal, -, -⟩ := final_eq_concluded (s := stepwise 10) rfl rfl hline
    (["x", "7.5", "", "**", "*", "inf", "-2", "1/8"].map typed)
  rw [hentered] at hfinal
  dsimp only at hfinal
  rw [hconcluded, ok_bind] at hfinal
  exact ⟨hline, e, next, hentered, hconcluded, hresult, hfinal⟩

/-- With a precision of 70000 digits `1 + 1` has a finite value, which is not recorded: the session
stops when its numbers are to be laid out. -/
theorem final_refused_of_hugePrecision :
    ∃ e r, entered? (["1", "+", "1"].map typed) = some e ∧
      Rpn.value [.ofValue e.first, .ofValue e.second, .operator e.op] = .ok r ∧ r.isFinite ∧
      (stepwise 70000).final (["", "1", "+", "1"].map typed) = .error .tooManyPlaces := by
  have hvalue : (entered? (["1", "+", "1"].map typed)).map (fun e =>
      (Rpn.value [.ofValue e.first, .ofValue e.second, .operator e.op]).map
        Binary64.isFinite) = some (.ok true) := by decide +kernel
  obtain ⟨e, hentered, he⟩ := Option.map_eq_some_iff.mp hvalue
  obtain ⟨r, hr, hfinite⟩ := map_eq_ok_iff.mp he
  refine ⟨e, r, hentered, hr, hfinite, ?_⟩
  have hrefused : ((stepwise 70000).final (["", "1", "+", "1"].map typed)).map question =
      .error .tooManyPlaces := by decide +kernel
  exact map_eq_error_iff.mp hrefused

end Session

end Reckoner
