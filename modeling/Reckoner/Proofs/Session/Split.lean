import Reckoner.Proofs.Session.Prompts
import Reckoner.Proofs.Session.SingleLine

/-! Ending a session between two lines and beginning a new one with the history that it leaves. The
new session has no last result and the lines come at other times, but neither is seen in what is
calculated. -/
namespace Reckoner

theorem History.SameCalculations.clear {h h' : History} (hsame : h.SameCalculations h') :
    h.clear.SameCalculations h'.clear where
  limit_eq := hsame.limit_eq
  map_calculation := by rw [entries_clear, entries_clear]

namespace Session

/-- Whether two sessions are equal but for the times of what they have calculated, for what can be
copied and for where to. -/
structure Alike (s s' : Session) : Prop where
  history : s.history.SameCalculations s'.history
  options_eq : s.options = s'.options
  mode_eq : s.mode = s'.mode
  question_eq : s.question = s'.question

/-- Whether two lines leave sessions alike, or are refused alike. -/
inductive AnsweredAlike : Answer → Answer → Prop
  | ok {s s' : Session} {out out' : List Char} (h : s.Alike s') :
      AnsweredAlike (.ok (s, out)) (.ok (s', out'))
  | error (refusal : Display.Refusal) : AnsweredAlike (.error refusal) (.error refusal)

namespace Alike

variable {s s' : Session} {line line' : Line}

theorem refl (s : Session) : s.Alike s :=
  ⟨.refl s.history, rfl, rfl, rfl⟩

theorem asks (h : s.Alike s') (question : Question) :
    Alike { s with question := question } { s' with question := question } :=
  ⟨h.history, h.options_eq, h.mode_eq, rfl⟩

theorem record (h : s.Alike s') (expression : List Char) (result : Binary64)
    (time time' : Instant) :
    (s.record expression result time).Alike (s'.record expression result time') :=
  ⟨h.history.push rfl, h.options_eq, h.mode_eq, h.question_eq⟩

theorem evaluate (h : s.Alike s') (text : List Char) (time time' : Instant) :
    AnsweredAlike (s.evaluate text time) (s'.evaluate text time') := by
  unfold Session.evaluate
  rw [h.options_eq]
  by_cases hnil : text = []
  · rw [if_pos hnil, if_pos hnil]
    exact .ok h
  rw [if_neg hnil, if_neg hnil]
  cases Expression.value text with
  | error e => cases e <;> exact .ok h
  | ok v =>
    dsimp only
    cases Display.nonFiniteName? v with
    | some name => exact .ok h
    | none =>
      cases s'.options.format v with
      | error refusal => exact .error refusal
      | ok shown => exact .ok (h.record text v time time')

theorem evaluateStep (h : s.Alike s') (a : Binary64) (op : Operator) (b : Binary64)
    (time time' : Instant) :
    AnsweredAlike (s.evaluateStep a op b time) (s'.evaluateStep a op b time') := by
  unfold Session.evaluateStep
  rw [h.options_eq]
  by_cases hdiv : op = .div ∧ b.isZero
  · rw [if_pos hdiv, if_pos hdiv]
    exact .ok h
  rw [if_neg hdiv, if_neg hdiv]
  dsimp only
  cases Display.nonFiniteName? (op.apply a b) with
  | some name => exact .ok h
  | none =>
    -- the three numbers are laid out alike, or the same one is refused
    cases s'.options.format a with
    | error refusal => exact .error refusal
    | ok left =>
      cases s'.options.format b with
      | error refusal => exact .error refusal
      | ok right =>
        cases s'.options.format (op.apply a b) with
        | error refusal => exact .error refusal
        | ok shown => exact .ok (h.record _ _ time time')

theorem obey (h : s.Alike s') (command : Command) (time time' : Instant) :
    AnsweredAlike (s.obey time command) (s'.obey time' command) := by
  unfold Session.obey
  cases command with
  | input text =>
    dsimp only
    rw [h.mode_eq]
    cases hmode : s'.mode with
    | expression => exact h.evaluate text time time'
    | stepByStep => exact .ok ⟨h.history, h.options_eq, rfl, rfl⟩
  | switchMode => exact .ok ⟨h.history, h.options_eq, congrArg Mode.other h.mode_eq, h.question_eq⟩
  | quit => exact .ok (h.asks .nothing)
  | clearHistory => exact .ok (h.asks .confirmClear)
  | help => exact .ok h
  | showHistory => exact .ok h
  | copy => exact .ok h

/-- At a prompt, sessions that go on alike from what is read are left alike by every line. -/
theorem answer_of_awaits {α : Type} {read? : List Char → Option α} {goOn goOn' : α → Line → Answer}
    (h : s.Alike s') (hline : line.text = line'.text) (hawaits : s.Awaits read? goOn)
    (hawaits' : s'.Awaits read? goOn') (hgoOn : ∀ a, AnsweredAlike (goOn a line) (goOn' a line')) :
    AnsweredAlike (s.answer line) (s'.answer line') := by
  obtain ⟨message, hanswer⟩ := hawaits.answer_eq
  obtain ⟨message', hanswer'⟩ := hawaits'.answer_eq
  rw [hanswer, hanswer', hline]
  split
  next => exact .ok (h.asks .nothing)
  next =>
    cases read? (trim line'.text) with
    | none => exact .ok h
    | some a => exact hgoOn a

theorem answer (h : s.Alike s') (hline : line.text = line'.text) :
    AnsweredAlike (s.answer line) (s'.answer line') := by
  have hquestion := h.question_eq
  generalize hquestion' : s'.question = question at hquestion
  cases question with
  | firstNumber =>
    exact h.answer_of_awaits hline (awaits_firstNumber hquestion) (awaits_firstNumber hquestion')
      fun a => .ok (h.asks (.operator a))
  | operator a =>
    exact h.answer_of_awaits hline (awaits_operator hquestion) (awaits_operator hquestion')
      fun op => .ok (h.asks (.secondNumber a op))
  | secondNumber a op =>
    exact h.answer_of_awaits hline (awaits_secondNumber hquestion) (awaits_secondNumber hquestion')
      fun b => (h.asks .command).evaluateStep a op b line.time line'.time
  | nothing =>
    simp only [Session.answer, hquestion, hquestion']
    exact .ok h
  | command =>
    simp only [Session.answer, hquestion, hquestion', hline]
    exact h.obey _ line.time line'.time
  | confirmClear =>
    simp only [Session.answer, hquestion, hquestion', hline]
    split
    next => exact .ok ⟨h.history.clear, h.options_eq, h.mode_eq, rfl⟩
    next => exact .ok (h.asks .command)

/-- Sessions that are alike take the same lines at any times alike. -/
theorem exists_after {m : Session} {input input' : List Line} (h : s.Alike s')
    (hinput : input.map Line.text = input'.map Line.text) (hafter : s.after input = .ok m) :
    ∃ m', s'.after input' = .ok m' ∧ m.Alike m' := by
  induction input generalizing s s' input' with
  | nil =>
    obtain rfl := List.map_eq_nil_iff.mp hinput.symm
    obtain rfl := Except.ok.inj hafter
    exact ⟨s', rfl, h⟩
  | cons line input ih =>
    cases input' with
    | nil => cases hinput
    | cons line' input' =>
      obtain ⟨hline, hrest⟩ := List.cons.inj hinput
      have hanswered := h.answer hline
      rw [after_cons] at hafter ⊢
      obtain ⟨⟨next, out⟩, hanswer, hafter⟩ := bind_eq_ok_iff.mp hafter
      rw [hanswer] at hanswered
      generalize s'.answer line' = answer' at hanswered ⊢
      cases hanswered with
      | ok hnext => exact ih hnext hrest hafter

end Alike

/-- The lines of a text, each with its end, which the last one may lack. -/
def linesOf : List Char → List (List Char)
  | [] => []
  | '\n' :: text => ['\n'] :: linesOf text
  | c :: text =>
    match linesOf text with
    | [] => [[c]]
    | line :: lines => (c :: line) :: lines

theorem linesOf_cons {c : Char} (hc : c ≠ '\n') (text : List Char) :
    linesOf (c :: text) =
      match linesOf text with
      | [] => [[c]]
      | line :: lines => (c :: line) :: lines := by
  rw [linesOf]
  exact hc

theorem linesOf_ne_nil {text : List Char} (h : text ≠ []) : linesOf text ≠ [] := by
  cases text with
  | nil => exact absurd rfl h
  | cons c text =>
    by_cases hc : c = '\n'
    · subst hc
      simp [linesOf]
    · rw [linesOf_cons hc]
      split <;> simp

/-- No line goes on beyond the end of one. -/
theorem linesOf_append {text : List Char} (h : ∀ c ∈ text.getLast?, c = '\n')
    (more : List Char) : linesOf (text ++ more) = linesOf text ++ linesOf more := by
  induction text with
  | nil => rfl
  | cons c text ih =>
    by_cases htext : text = []
    · subst htext
      obtain rfl := h c rfl
      rfl
    have hrest := ih (by simpa [List.getLast?_cons, List.getLast?_eq_some_getLast htext] using h)
    by_cases hc : c = '\n'
    · subst hc
      simp only [List.cons_append, linesOf, hrest]
    · rw [List.cons_append, linesOf_cons hc, linesOf_cons hc, hrest]
      cases hlines : linesOf text with
      | nil => exact absurd hlines (linesOf_ne_nil htext)
      | cons line lines => rfl

theorem exists_of_linesOf_append {text more : List Char} (h : ∀ c ∈ text.getLast?, c = '\n')
    {both : List Line} (hboth : both.map Line.text = linesOf (text ++ more)) :
    ∃ front back, both = front ++ back ∧ front.map Line.text = linesOf text ∧
      back.map Line.text = linesOf more := by
  rw [linesOf_append h] at hboth
  exact List.map_eq_append_iff.mp hboth

/-- A text that ends with a line, and after which a session expects a command and whole expressions,
can be given to a session of its own: a new session that begins with the history of that one, and is
given the rest, leaves the same calculations as one session that is given both. The lines may come
at any times. -/
theorem run_append_sameCalculations (history : History) {options : Display.Options}
    (zone : Zone) (clipboard : Clipboard) (hprecision : options.precision ≤ 65532)
    {text more : List Char}
    (hends : ∀ c ∈ text.getLast?, c = '\n') {first second both : List Line}
    (hfirst : first.map Line.text = linesOf text) (hsecond : second.map Line.text = linesOf more)
    (hboth : both.map Line.text = linesOf (text ++ more)) {m : Session}
    (hafter : after { history, options, zone, clipboard } first = .ok m)
    (hquestion : m.question = .command) (hmode : m.mode = .expression) :
    ∃ last last' whole out out' out'',
      run { history, options, zone, clipboard } first = .ok (last, out) ∧
      run { history := last.history, options, zone, clipboard } second = .ok (last', out') ∧
      run { history, options, zone, clipboard } both = .ok (whole, out'') ∧
      last'.history.SameCalculations whole.history := by
  obtain ⟨front, back, rfl, hfront, hback⟩ := exists_of_linesOf_append hends hboth
  obtain ⟨last, out, hrun, hlast, -⟩ := exists_run hafter
  have hoptions : m.options = options := by
    obtain ⟨m', _, hsame, htrace⟩ :=
      exists_trace (s := { history, options, zone, clipboard }) hprecision first
    obtain rfl := Except.ok.inj (hafter.symm.trans hsame)
    exact htrace.options_eq
  -- the same lines at other times, in the session that goes on
  obtain ⟨n, hn, halike⟩ := (Alike.refl _).exists_after (hfirst.trans hfront.symm) hafter
  have hfresh : Alike { history := last.history, options, zone, clipboard } n :=
    ⟨hlast ▸ halike.history, hoptions.symm.trans halike.options_eq,
      hmode.symm.trans halike.mode_eq, hquestion.symm.trans halike.question_eq⟩
  obtain ⟨m', -, hafter', -⟩ :=
    exists_trace (s := { history := last.history, options, zone, clipboard }) hprecision second
  obtain ⟨n', hn', halike'⟩ := hfresh.exists_after (hsecond.trans hback.symm) hafter'
  obtain ⟨last', out', hrun', hlast', -⟩ := exists_run hafter'
  have hboth' : after { history, options, zone, clipboard } (front ++ back) = .ok n' := by
    rw [after_append, hn, ok_bind, hn']
  obtain ⟨whole, out'', hwhole, heq, -⟩ := exists_run hboth'
  refine ⟨last, last', whole, out, out', out'', hrun, hrun', hwhole, ?_⟩
  rw [hlast', heq]
  exact halike'.history

/-- A line that is given at a later instant. -/
def typedLater (text : String) : Line where
  text := text.toList
  time := (Instant.sinceEpoch? 60 0).getD .epoch

/-- A calculation in steps before the cut, and after it a request to copy the result, which the new
session does not have. -/
theorem run_append_sameCalculations_copy :
    ∃ last last' whole out out' out'',
      fresh.run (["expr\n", "\n", "6\n", "*\n", "7\n", "expr\n"].map typed) = .ok (last, out) ∧
      run { fresh with history := last.history } (["copy\n", "1/8"].map typed) =
        .ok (last', out') ∧
      fresh.run (["expr\n", "\n", "6\n", "*\n", "7\n", "expr\n", "copy\n", "1/8"].map
        typedLater) = .ok (whole, out'') ∧
      last'.history.SameCalculations whole.history := by
  have hwaits : (fresh.after (["expr\n", "\n", "6\n", "*\n", "7\n", "expr\n"].map typed)).map
      (fun m => (m.question, m.mode)) = .ok (.command, .expression) := by decide +kernel
  obtain ⟨m, hafter, hm⟩ := map_eq_ok_iff.mp hwaits
  obtain ⟨hquestion, hmode⟩ := Prod.mk.inj hm
  have hend : "expr\n\n6\n*\n7\nexpr\n".toList.getLast? = some '\n' := by decide +kernel
  exact run_append_sameCalculations (.empty History.defaultLimit) .universal .disabled
    (show Display.defaultDigits ≤ 65532 by decide)
    (fun c hc => (Option.some.inj (hend.symm.trans hc)).symm)
    (show _ = linesOf "expr\n\n6\n*\n7\nexpr\n".toList by decide +kernel)
    (show _ = linesOf "copy\n1/8".toList by decide +kernel) (by decide +kernel)
    hafter hquestion hmode

end Session

end Reckoner
