import Reckoner.Proofs.Session.Trace
import Reckoner.Proofs.Token.Written
import Reckoner.Query

/-! A session of one line that is an expression, and the same expression by itself. Both find the
same value or none, keep the same calculation and show it in the same form. -/
namespace Reckoner

/-- What a calculation is apart from its time. -/
def Entry.calculation (e : Entry) : List Char × Binary64 :=
  (e.expression, e.result)

/-- Whether two histories are equal but for the times of their entries. -/
structure History.SameCalculations (h h' : History) : Prop where
  limit_eq : h.limit = h'.limit
  map_calculation : h.entries.map Entry.calculation = h'.entries.map Entry.calculation

namespace History.SameCalculations

variable {h h' : History}

theorem refl (h : History) : h.SameCalculations h :=
  ⟨rfl, rfl⟩

theorem push (hsame : h.SameCalculations h') {e e' : Entry}
    (he : e.calculation = e'.calculation) : (h.push e).SameCalculations (h'.push e') where
  limit_eq := hsame.limit_eq
  map_calculation := by
    rw [entries_push, entries_push, map_lastOf, map_lastOf, List.map_append, List.map_append,
      hsame.map_calculation, hsame.limit_eq, List.map_singleton, List.map_singleton, he]

end History.SameCalculations

/-- The words that are commands, in lowercase. -/
def Command.words : List (List Char) :=
  ["q", "quit", "exit", "h", "help", "expr", "history", "hist", "clear history", "copy"].map
    String.toList

theorem Command.ofText_eq_input {text : List Char} (h : lowercase (trim text) ∉ words) :
    ofText text = .input (trim text) := by
  unfold ofText
  generalize lowercase (trim text) = word at *
  simp only [words, List.map_cons, List.map_nil, List.mem_cons, List.not_mem_nil, or_false,
    not_or] at h
  simp only [h, or_self, if_false]

/-- The characters of tokens have no case. -/
theorem head?_lowercase_of_isTokenChar {c : Char} (h : c.isDigit ∨ c = '.' ∨ isTokenSymbol c)
    (rest : List Char) : (lowercase (c :: rest)).head? = some c := by
  have hc : c ≠ 'Σ' ∧ lowercaseChar c = [c] := by
    rcases h with hdigit | rfl | hsymbol
    · exact of_isDigit (p := fun c => c ≠ 'Σ' ∧ lowercaseChar c = [c]) (by decide +kernel) hdigit
    · decide +kernel
    · rcases eq_of_isTokenSymbol hsymbol with rfl | rfl | rfl | rfl | rfl | rfl <;> decide +kernel
  rw [lowercase, lowercaseAfter, if_neg hc.1, hc.2]
  rfl

theorem Command.not_isTokenChar_of_mem_words {word : List Char} (hword : word ∈ words) {c : Char}
    (hc : word.head? = some c) : ¬ (c.isDigit ∨ c = '.' ∨ isTokenSymbol c) := by
  have hwords : words.all fun word => word.head?.all fun c =>
      !decide (c.isDigit ∨ c = '.' ∨ isTokenSymbol c) := by decide +kernel
  have hhead := List.all_eq_true.mp hwords word hword
  rw [hc] at hhead
  simpa using hhead

namespace Expression

theorem finiteValue_eq_ok_iff {text : List Char} {v : Binary64} :
    finiteValue text = .ok v ↔ value text = .ok v ∧ v.isFinite := by
  rw [← Display.nonFiniteName?_eq_none_iff]
  unfold finiteValue
  cases value text with
  | error e => simp
  | ok w =>
    dsimp only
    split
    next name hname =>
      refine ⟨nofun, fun ⟨heq, hnone⟩ => ?_⟩
      rw [Except.ok.inj heq, hnone] at hname
      cases hname
    next hname =>
      exact ⟨fun heq => Except.ok.inj heq ▸ ⟨rfl, hname⟩,
        fun ⟨heq, _⟩ => congrArg Except.ok (Except.ok.inj heq)⟩

/-- A text that has a value begins like a token, so that it is no word. -/
theorem notMem_words_of_value {text : List Char} {v : Binary64} (h : value text = .ok v) :
    lowercase (trim text) ∉ Command.words := by
  unfold value at h
  split at h
  next => cases h
  next hne =>
    obtain ⟨listing, hrpn, -⟩ := bind_eq_ok_iff.mp h
    obtain ⟨tokens, htokens, -⟩ := bind_eq_ok_iff.mp hrpn
    obtain ⟨hwritten, -, hstrip⟩ := Token.ofText_eq_ok_iff.mp htokens
    obtain ⟨c, rest, htrim⟩ := List.exists_cons_of_ne_nil hne
    have hmem := mem_strip_of_mem_head?_trim text c (by rw [htrim]; rfl)
    rw [← hstrip] at hmem
    have hchar := Token.isTokenChar_of_mem_flatMap_text hwritten hmem
    intro hword
    refine Command.not_isTokenChar_of_mem_words hword ?_ hchar
    rw [htrim]
    exact head?_lowercase_of_isTokenChar hchar rest

end Expression

namespace Session

open Expression (finiteValue)

/-- What is written for a calculation. -/
def resultText (expression shown : List Char) : List Char :=
  "Result: ".toList ++ expression ++ " = ".toList ++ shown ++ "\n\n".toList

theorem resultText_inj {expression shown shown' : List Char} :
    resultText expression shown = resultText expression shown' ↔ shown = shown' := by
  unfold resultText
  rw [List.append_left_inj, List.append_right_inj]

theorem not_error_prefix_resultText (expression shown : List Char) :
    ¬ "Error: ".toList <+: resultText expression shown := by
  unfold resultText
  -- the first letters differ, whatever comes after them
  generalize " = ".toList = middle, "\n\n".toList = ending
  simp

variable {s next : Session} {line : Line} {text response : List Char} {v : Binary64}

theorem evaluate_of_finiteValue (hvalue : finiteValue text = .ok v) {shown : List Char}
    (hshown : s.options.format v = .ok shown) (time : Instant) :
    s.evaluate text time = .ok (s.record text v time, resultText text shown) := by
  obtain ⟨hvalue, hfinite⟩ := Expression.finiteValue_eq_ok_iff.mp hvalue
  have hne : text ≠ [] := by
    rintro rfl
    cases hvalue
  simp only [evaluate, if_neg hne, hvalue, Display.nonFiniteName?_eq_none_iff.mpr hfinite, hshown]
  rfl

theorem evaluate_of_finiteValue_error (hne : text ≠ []) {message : List Char}
    (hvalue : finiteValue text = .error message) (time : Instant) :
    ∃ response, s.evaluate text time = .ok (s, response) ∧ "Error: ".toList <+: response := by
  have herror (message : List Char) : "Error: ".toList <+: errorText message :=
    (List.prefix_append ..).trans (List.prefix_append ..)
  unfold finiteValue at hvalue
  unfold evaluate
  rw [if_neg hne]
  split
  next w hexpression =>
    rw [hexpression] at hvalue
    dsimp only at hvalue
    cases hname : Display.nonFiniteName? w with
    | none =>
      rw [hname] at hvalue
      cases hvalue
    | some name => exact ⟨_, rfl, herror name⟩
  next => exact ⟨_, rfl, herror _⟩
  next e hexpression hother =>
    refine ⟨_, rfl, ?_⟩
    simp only [List.append_assoc]
    exact List.prefix_append ..

/-- A session of one line that is an expression. -/
theorem run_single (hquestion : s.question = .command) (hmode : s.mode = .expression)
    (hcommand : Command.ofText (trim line.text) = .input text)
    (hevaluate : s.evaluate text line.time = .ok (next, response))
    (hnext : next.question = .command ∧ next.mode = .expression) :
    s.run [line] = .ok ({ next with question := .nothing },
      s.opening ++ (s.prompt ++ response ++ (s.prompt ++ '\n' :: farewell))) := by
  have hanswer : s.answer line = .ok (next, response) := by
    simp only [answer, hquestion, hcommand, obey, hmode, hevaluate]
  have hprompt : next.prompt = s.prompt := by
    simp only [prompt, hquestion, hmode, hnext.1, hnext.2]
  simp only [run, proceed, hanswer, ok_bind, hnext.1, endOfInput, hprompt]
  rfl

/-- A line that is neither blank nor a command, given to a session where expressions are entered,
has the result that the same text has by itself. The session writes the result if the other does,
and it is the same text; each writes an error if there is none. The histories that are left are
equal but for the time of the entry, and they are as before where there is no result. No expression
that has a value is taken for a command. -/
theorem run_agrees_with_query (hquestion : s.question = .command) (hmode : s.mode = .expression)
    (hprecision : s.options.precision ≤ 65532) (hblank : trim line.text ≠ [])
    (hword : lowercase (trim line.text) ∉ Command.words) (copy : Bool) (time : Instant) :
    (∃ last response reply,
      s.run [line] =
        .ok (last, s.opening ++ (s.prompt ++ response ++ (s.prompt ++ '\n' :: farewell))) ∧
      Query.value.answer s.options copy time line.text s.history = .ok reply ∧
      last.history.SameCalculations reply.history ∧
      (∀ shown, response = resultText (trim line.text) shown ↔
        reply.isSuccess ∧ reply.output = shown ++ ['\n']) ∧
      (¬ reply.isSuccess →
        "Error: ".toList <+: response ∧ "Error: ".toList <+: reply.errors ∧
        last.history = s.history ∧ reply.history = s.history)) ∧
    ∀ text v, Expression.value text = .ok v →
      lowercase (trim text) ∉ Command.words ∧ Command.ofText text = .input (trim text) := by
  have hcommand : Command.ofText (trim line.text) = .input (trim line.text) := by
    have hwords : lowercase (trim (trim line.text)) ∉ Command.words := by rwa [trim_trim]
    have h := Command.ofText_eq_input hwords
    rwa [trim_trim] at h
  refine ⟨?_, fun text v h => ?_⟩
  · cases hvalue : finiteValue (trim line.text) with
    | ok v =>
      obtain ⟨shown, hshown⟩ := Display.Options.exists_format hprecision v
      have hevaluate := evaluate_of_finiteValue hvalue hshown line.time
      refine ⟨_, _, {
          history := s.history.push ⟨trim line.text, v, time⟩
          outcome := .ok shown
          copied := if copy then some (Display.plain v) else none },
        run_single hquestion hmode hcommand hevaluate ⟨hquestion, hmode⟩, ?_, ?_, ?_, nofun⟩
      · simp only [Query.answer, hvalue, hshown]
        rfl
      · exact (History.SameCalculations.refl s.history).push rfl
      · intro shown'
        rw [resultText_inj]
        simp [Reply.isSuccess, Reply.output]
    | error message =>
      obtain ⟨response, hevaluate, herror⟩ :=
        evaluate_of_finiteValue_error (s := s) hblank hvalue line.time
      refine ⟨_, response, { history := s.history, outcome := .error message },
        run_single hquestion hmode hcommand hevaluate ⟨hquestion, hmode⟩, ?_, .refl _, ?_, ?_⟩
      · simp only [Query.answer, hvalue]
      · intro shown
        refine ⟨?_, fun h => absurd h.1 (by simp [Reply.isSuccess])⟩
        rintro rfl
        exact absurd herror (not_error_prefix_resultText _ shown)
      · exact fun _ => ⟨herror, (List.prefix_append ..).trans (List.prefix_append ..), rfl, rfl⟩
  · have hword := Expression.notMem_words_of_value h
    exact ⟨hword, Command.ofText_eq_input hword⟩

/-- White space around the line is not part of the expression. -/
theorem run_agrees_with_query_eighth :
    trim (typed " 1/8 ").text = "1/8".toList ∧ lowercase "1/8".toList ∉ Command.words ∧
      ∃ last reply, fresh.run [typed " 1/8 "] =
          .ok (last, fresh.opening ++ (fresh.prompt ++ resultText "1/8".toList "0.125".toList ++
            (fresh.prompt ++ '\n' :: farewell))) ∧
        Query.value.answer fresh.options true .epoch " 1/8 ".toList fresh.history =
          .ok reply ∧
        reply.output = "0.125\n".toList ∧ last.history.SameCalculations reply.history := by
  have htrim : trim (typed " 1/8 ").text = "1/8".toList := by decide +kernel
  have hword : lowercase "1/8".toList ∉ Command.words := by decide +kernel
  have hreply : (Query.value.answer fresh.options true .epoch " 1/8 ".toList
      fresh.history).map (fun reply => (reply.isSuccess, reply.output)) =
        .ok (true, "0.125\n".toList) := by decide +kernel
  obtain ⟨⟨last, response, reply, hrun, hanswer, hsame, hresult, -⟩, -⟩ :=
    run_agrees_with_query (s := fresh) rfl rfl (by decide)
      (show trim (typed " 1/8 ").text ≠ [] by rw [htrim]; decide) (by rwa [htrim])
      true .epoch
  change Query.value.answer fresh.options true .epoch " 1/8 ".toList _ = _ at hanswer
  rw [hanswer, map_ok] at hreply
  obtain ⟨hsuccess, houtput⟩ := Prod.mk.inj (Except.ok.inj hreply)
  rw [(hresult "0.125".toList).mpr ⟨hsuccess, houtput⟩, htrim] at hrun
  exact ⟨htrim, hword, last, reply, hrun, hanswer, houtput, hsame⟩

end Session

end Reckoner
