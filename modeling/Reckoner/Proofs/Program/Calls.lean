import Reckoner.Program
import Reckoner.Proofs.Display.Significant
import Reckoner.Proofs.History.Reload

/-! Calls of the program with one expression each, one after the other. What they keep goes through
the file of the history from each call to the next. -/
namespace Reckoner

namespace Settings

theorem lt_of_mem_count? (value : Toml) : ∀ n ∈ count? value, n < 2 ^ 64 := by
  intro n hn
  unfold count? at hn
  split at hn
  next =>
    split at hn
    next hrange =>
      obtain rfl := Option.some.inj hn
      unfold countLimit at hrange
      omega
    next => cases hn
  next => cases hn

theorem forall_mem_orDefault {α : Type} {p : α → Prop} {default : α} {read? : Toml → Option α}
    (hdefault : p default) (hread : ∀ value, ∀ a ∈ read? value, p a) (part? : Option Toml) :
    ∀ a ∈ orDefault default read? part?, p a := by
  intro a ha
  cases part? with
  | none =>
    obtain rfl := Option.some.inj ha
    exact hdefault
  | some value => exact hread value a ha

theorem limit_lt_of_historyOf? (section? : Option Toml) :
    ∀ settings ∈ historyOf? section?, settings.limit < 2 ^ 64 := by
  have hdefault : History.defaultLimit < 2 ^ 64 := by decide
  unfold historyOf?
  dsimp only
  split
  next given =>
    apply forall_mem_bind
    intro parts
    split
    next enabled limit file =>
      apply forall_mem_bind
      intro _ settings hsettings
      obtain ⟨limit', hlimit, hrest⟩ := Option.bind_eq_some_iff.mp hsettings
      obtain ⟨file', -, hpure⟩ := Option.bind_eq_some_iff.mp hrest
      obtain rfl := Option.some.inj hpure
      exact forall_mem_orDefault (p := (· < 2 ^ 64)) hdefault lt_of_mem_count? limit limit' hlimit
    next => exact nofun
  next =>
    intro settings hsettings
    obtain rfl := Option.some.inj hsettings
    exact hdefault

theorem limit_lt_of_ofText? (text : List Char) :
    ∀ settings ∈ ofText? text, settings.history.limit < 2 ^ 64 := by
  unfold ofText?
  apply forall_mem_bind
  intro fields
  apply forall_mem_bind
  intro parts
  split
  next history display =>
    intro settings hsettings
    obtain ⟨history', hhistory, hrest⟩ := Option.bind_eq_some_iff.mp hsettings
    obtain ⟨display', -, hpure⟩ := Option.bind_eq_some_iff.mp hrest
    obtain rfl := Option.some.inj hpure
    exact limit_lt_of_historyOf? history history' hhistory
  next => exact nofun

end Settings

theorem Program.limit_lt_of_settings {path : List Char} {found : Found} {given : Settings}
    (h : settings path found = .ok given) : given.history.limit < 2 ^ 64 := by
  unfold settings at h
  split at h
  next =>
    obtain rfl := Except.ok.inj h
    decide
  next => cases h
  next =>
    split at h
    next hgiven =>
      obtain rfl := Except.ok.inj h
      exact Settings.limit_lt_of_ofText? _ _ hgiven
    next => cases h

namespace Query

/-- Whether a query has an answer that is not an error. -/
def isAnswered (query : Query) (text : List Char) : Bool :=
  match query with
  | value => (Expression.finiteValue (trim text)).isOk
  | check => (Expression.check text).isNone
  | rpn => (Expression.rpnText text).isOk

/-- Where results can be laid out a query is answered, and a value that is found is pushed. -/
theorem exists_answer {options : Display.Options} (h : options.precision ≤ 65532) (query : Query)
    (copy : Bool) (time : Instant) (text : List Char) (history : History) :
    ∃ reply, query.answer options copy time text history = .ok reply ∧
      reply.isSuccess = query.isAnswered text ∧
      (query = .value → reply.isSuccess →
        ∃ v, reply.history = history.push ⟨trim text, v, time⟩) := by
  cases query with
  | value =>
    simp only [answer, isAnswered]
    cases hvalue : Expression.finiteValue (trim text) with
    | error message => exact ⟨_, rfl, rfl, fun _ h => by cases h⟩
    | ok v =>
      obtain ⟨shown, hshown⟩ := Display.Options.exists_format h v
      dsimp only
      rw [hshown]
      exact ⟨_, rfl, rfl, fun _ _ => ⟨v, rfl⟩⟩
  | check =>
    simp only [answer, isAnswered]
    cases Expression.check text <;> exact ⟨_, rfl, rfl, nofun⟩
  | rpn =>
    simp only [answer, isAnswered]
    cases Expression.rpnText text <;> exact ⟨_, rfl, rfl, nofun⟩

end Query

/-- A call of the program: its arguments, the lines that it could read and the time. -/
structure Call where
  arguments : List (List Char)
  input : List Line
  time : Instant

namespace Call

def run (call : Call) (host : Host) (storage : Storage) : Except Display.Refusal Outcome :=
  Program.run host call.arguments storage call.input call.time

/-- The storage after some calls. -/
def after (host : Host) (calls : List Call) (storage : Storage) :
    Except Display.Refusal Storage :=
  calls.foldlM (fun storage call => (call.run host storage).map Outcome.storage) storage

/-- The expression that a call keeps: one that it finds the value of, unless it has no history. -/
def kept? (call : Call) : Option (List Char) := do
  let invocation ← Invocation.ofArguments? call.arguments
  let expression ← invocation.expression
  if invocation.query = .value ∧ !invocation.noHistory ∧ invocation.query.isAnswered expression then
    return trim expression
  else none

/-- Whether a call is one with a single expression, with these settings and with this file of the
history, unless it has no history; its time must be one that the file can name, as all are in
universal time. -/
structure Shares (call : Call) (host : Host) (configPath path : List Char) (settings : Settings)
    (invocation : Invocation) (expression : List Char) : Prop where
  ofArguments?_eq : Invocation.ofArguments? call.arguments = some invocation
  expression_eq : invocation.expression = some expression
  configPath_eq : invocation.configPath host.configDirectory = configPath
  historyPath?_eq : invocation.historyPath? settings host.dataDirectory =
    if invocation.noHistory then none else some path
  precision_le : (invocation.options settings).precision ≤ 65532
  keeps : host.zone.Keeps call.time

variable {call : Call} {host : Host} {configPath path expression : List Char}
  {settings : Settings} {invocation : Invocation} {storage current : Storage}

theorem Shares.kept?_eq (h : call.Shares host configPath path settings invocation expression) :
    call.kept? =
      if invocation.query = .value ∧ !invocation.noHistory ∧
          invocation.query.isAnswered expression then some (trim expression)
      else none := by
  unfold kept?
  rw [h.ofArguments?_eq]
  simp only [Option.bind_eq_bind, Option.bind_some, h.expression_eq]
  rfl

/-- What a call does, where a history can be saved: it saves the history with the expression that
it keeps, or it leaves the storage as it is. -/
theorem Shares.exists_run (h : call.Shares host configPath path settings invocation expression)
    (hsettings : Program.settings configPath (current.look host.workingDirectory configPath) =
      .ok settings)
    (hsave : ∀ text v, ∃ next, Program.save host current (some path)
      ((Program.restored settings (current.look host.workingDirectory path)).push
        ⟨text, v, call.time⟩) = .ok next) :
    ∃ outcome, call.run host current = .ok outcome ∧
      (outcome.exitCode = 0 ↔ invocation.query.isAnswered expression) ∧
      match call.kept? with
      | none => outcome.storage = current
      | some text => ∃ v, Program.save host current (some path)
          ((Program.restored settings (current.look host.workingDirectory path)).push
            ⟨text, v, call.time⟩) = .ok outcome.storage := by
  obtain ⟨reply, hreply, hsuccess, hpush⟩ := invocation.query.exists_answer h.precision_le
    invocation.copy call.time expression (Program.restored settings
      (Program.look host current (if invocation.noHistory then none else some path)))
  have hrun : call.run host current =
      Program.keep host current (if invocation.noHistory then none else some path)
        invocation.query reply >>= fun storage => .ok {
        exitCode := if reply.isSuccess then 0 else 1
        output := reply.output
        errors := reply.errors
        storage } := by
    simp only [Program.look] at hreply
    simp only [run, Program.run, h.ofArguments?_eq, Program.perform, h.configPath_eq,
      h.historyPath?_eq, h.expression_eq, Program.look, hsettings]
    rw [hreply]
    rfl
  have hcode : (if reply.isSuccess then 0 else 1) = 0 ↔ reply.isSuccess := by
    cases reply.isSuccess <;> simp
  rw [hrun, h.kept?_eq, ← hsuccess, Program.keep]
  by_cases hvalue : invocation.query = .value ∧ reply.isSuccess
  · obtain ⟨v, hv⟩ := hpush hvalue.1 hvalue.2
    rw [if_pos hvalue]
    cases hhistory : invocation.noHistory with
    | true => exact ⟨_, rfl, hcode, by simp⟩
    | false =>
      simp only [hhistory, Program.look] at hv
      obtain ⟨next, hnext⟩ := hsave (trim expression) v
      have hsaved : Program.save host current (if false then none else some path) reply.history =
          .ok next := by rw [hv]; exact hnext
      rw [hsaved]
      exact ⟨_, rfl, hcode, by simpa [hvalue] using ⟨v, hnext⟩⟩
  · have hunkept : ¬ (invocation.query = .value ∧ !invocation.noHistory ∧ reply.isSuccess) :=
      fun hkept => hvalue ⟨hkept.1, hkept.2.2⟩
    rw [if_neg hvalue, if_neg hunkept]
    exact ⟨_, rfl, hcode, rfl⟩

/-- A storage where calls can begin: the settings are found in it, and no history is, but it could
be saved without a change to the settings. -/
structure IsReady (host : Host) (configPath path : List Char) (settings : Settings)
    (storage : Storage) : Prop where
  settings_eq : Program.settings configPath (storage.look host.workingDirectory configPath) =
    .ok settings
  look_eq_nothing : storage.look host.workingDirectory path = .nothing
  isSome_write? : ∀ content, (storage.write? host.workingDirectory path content).isSome
  look_of_write? : ∀ content written,
    storage.write? host.workingDirectory path content = some written →
      written.look host.workingDirectory configPath =
        storage.look host.workingDirectory configPath

/-- Whether a history holds the last of these expressions, as many as it may, and can be stored. -/
structure Keeps (zone : Zone) (limit : Nat) (kept : List (List Char)) (h : History) : Prop where
  limit_lt : h.limit < Json.Number.significandLimit
  limit_eq : h.limit = limit
  keeps : ∀ e ∈ h.entries, zone.Keeps e.instant
  map_expression : h.entries.map Entry.expression = lastOf limit kept

section keeps

variable {zone : Zone} {limit : Nat} {kept : List (List Char)} {h : History}

theorem Keeps.push (hkeeps : Keeps zone limit kept h) {e : Entry} (he : zone.Keeps e.instant) :
    Keeps zone limit (kept ++ [e.expression]) (h.push e) where
  limit_lt := hkeeps.limit_lt
  limit_eq := hkeeps.limit_eq
  keeps := History.forall_mem_push hkeeps.keeps he
  map_expression := by
    rw [History.entries_push, hkeeps.limit_eq, map_lastOf, List.map_append, hkeeps.map_expression,
      lastOf_lastOf_append]
    rfl

theorem Keeps.reread (hkeeps : Keeps zone limit kept h) : Keeps zone limit kept h.reread where
  limit_lt := hkeeps.limit_lt
  limit_eq := hkeeps.limit_eq
  keeps := by
    rw [History.entries_reread, List.forall_mem_map]
    exact hkeeps.keeps
  map_expression := by
    rw [History.entries_reread, List.map_map, ← hkeeps.map_expression]
    rfl

theorem Keeps.isInMinutes (hkeeps : Keeps zone limit kept h) : h.IsInMinutes zone :=
  fun e he => (hkeeps.keeps e he).isInMinutes

theorem Keeps.exists_text (hkeeps : Keeps zone limit kept h) :
    ∃ text, h.fileText? zone = some text :=
  Option.isSome_iff_exists.mp
    (History.isSome_fileText?_iff.mpr fun e he => (hkeeps.keeps e he).shows)

end keeps

/-- What the calls make of a storage: it stays as it is until an expression is kept, and then has
the file of a history in it that holds the last of them. -/
inductive Leads (host : Host) (path : List Char) (limit : Nat) (storage : Storage) :
    List (List Char) → Storage → Prop
  | stays : Leads host path limit storage [] storage
  | saved {kept : List (List Char)} {h : History} {current : Storage} (hkept : kept ≠ [])
      (hkeeps : Keeps host.zone limit kept h)
      (hsave : h.saveTo? host.zone storage host.workingDirectory path = some current) :
      Leads host path limit storage kept current

variable {kept : List (List Char)}

theorem IsReady.settings_of_leads (hready : IsReady host configPath path settings storage)
    (h : Leads host path settings.history.limit storage kept current) :
    Program.settings configPath (current.look host.workingDirectory configPath) =
      .ok settings := by
  cases h with
  | stays => exact hready.settings_eq
  | saved hkept hkeeps hsave =>
    obtain ⟨text, -, hwrite⟩ := History.exists_text_of_saveTo? hsave
    rw [hready.look_of_write? _ _ hwrite, hready.settings_eq]

theorem IsReady.keeps_restored (hready : IsReady host configPath path settings storage)
    (h : Leads host path settings.history.limit storage kept current) :
    Keeps host.zone settings.history.limit kept
      (Program.restored settings (current.look host.workingDirectory path)) := by
  cases h with
  | stays =>
    rw [hready.look_eq_nothing]
    exact {
      limit_lt := Program.limit_lt_of_settings hready.settings_eq
      limit_eq := rfl
      keeps := by simp [Program.restored]
      map_expression := by simp [Program.restored, lastOf] }
  | saved hkept hkeeps hsave =>
    obtain ⟨text, htext, hwrite⟩ := History.exists_text_of_saveTo? hsave
    rw [Storage.look_of_write? hwrite, Program.restored,
      History.load?_eq_reread hkeeps.limit_lt hkeeps.isInMinutes htext]
    exact hkeeps.reread

theorem save_of_write? {history : History} {text : List Char} {next : Storage}
    (htext : history.fileText? host.zone = some text)
    (hwrite : current.write? host.workingDirectory path text = some next) :
    Program.save host current (some path) history = .ok next := by
  obtain ⟨made, hmade, hnext⟩ := Option.bind_eq_some_iff.mp hwrite
  unfold Program.save
  simp only [hmade, htext, hnext, Option.getD_some]

/-- A history that is saved takes the place of the one that has been saved before. -/
theorem IsReady.exists_save (hready : IsReady host configPath path settings storage)
    (h : Leads host path settings.history.limit storage kept current) {kept' : List (List Char)}
    (hne : kept' ≠ []) {history : History}
    (hkeeps : Keeps host.zone settings.history.limit kept' history) :
    ∃ next, Program.save host current (some path) history = .ok next ∧
      Leads host path settings.history.limit storage kept' next := by
  obtain ⟨text, htext⟩ := hkeeps.exists_text
  obtain ⟨next, hnext⟩ := Option.isSome_iff_exists.mp (hready.isSome_write? text)
  have hsame : current.write? host.workingDirectory path text = some next := by
    cases h with
    | stays => exact hnext
    | saved hkept hkeeps hsave =>
      obtain ⟨before, -, hwrite⟩ := History.exists_text_of_saveTo? hsave
      rw [Storage.write?_of_write? hwrite, hnext]
  exact ⟨next, save_of_write? htext hsame,
    .saved hne hkeeps (Option.bind_eq_some_iff.mpr ⟨text, htext, hnext⟩)⟩

theorem Leads.exists_run (hready : IsReady host configPath path settings storage)
    (h : Leads host path settings.history.limit storage kept current)
    (hshares : call.Shares host configPath path settings invocation expression) :
    ∃ outcome, call.run host current = .ok outcome ∧
      (outcome.exitCode = 0 ↔ invocation.query.isAnswered expression) ∧
      (call.kept? = none → outcome.storage = current) ∧
      Leads host path settings.history.limit storage (kept ++ call.kept?.toList)
        outcome.storage := by
  have hpushed (text : List Char) (v : Binary64) :
      ∃ next, Program.save host current (some path)
        ((Program.restored settings (current.look host.workingDirectory path)).push
          ⟨text, v, call.time⟩) = .ok next ∧
        Leads host path settings.history.limit storage (kept ++ [text]) next :=
    hready.exists_save h (by simp)
      ((hready.keeps_restored h).push (e := ⟨text, v, call.time⟩) hshares.keeps)
  obtain ⟨outcome, hrun, hcode, hstorage⟩ := hshares.exists_run (hready.settings_of_leads h)
    fun text v => (hpushed text v).imp fun _ hsave => hsave.1
  refine ⟨outcome, hrun, hcode, ?_⟩
  cases hkept : call.kept? with
  | none =>
    simp only [hkept] at hstorage
    rw [hstorage, Option.toList_none, List.append_nil]
    exact ⟨fun _ => rfl, h⟩
  | some text =>
    simp only [hkept] at hstorage
    obtain ⟨v, hv⟩ := hstorage
    obtain ⟨next, hsave, hleads⟩ := hpushed text v
    obtain rfl := Except.ok.inj (hv.symm.trans hsave)
    exact ⟨nofun, hleads⟩

theorem after_cons (calls : List Call) :
    after host (call :: calls) storage =
      call.run host storage >>= fun outcome => after host calls outcome.storage := by
  rw [after, List.foldlM_cons]
  cases call.run host storage <;> rfl

theorem exists_after (hready : IsReady host configPath path settings storage) {calls : List Call}
    (hcalls : ∀ call ∈ calls, ∃ invocation expression,
      call.Shares host configPath path settings invocation expression)
    (h : Leads host path settings.history.limit storage kept current) :
    ∃ final, after host calls current = .ok final ∧
      Leads host path settings.history.limit storage (kept ++ calls.filterMap kept?) final := by
  induction calls generalizing kept current with
  | nil => exact ⟨current, rfl, by simpa using h⟩
  | cons call calls ih =>
    obtain ⟨⟨invocation, expression, hshares⟩, hrest⟩ := List.forall_mem_cons.mp hcalls
    obtain ⟨outcome, hrun, -, -, hleads⟩ := h.exists_run hready hshares
    obtain ⟨final, hafter, hfinal⟩ := ih hrest hleads
    refine ⟨final, ?_, ?_⟩
    · rw [after_cons, hrun, ok_bind, hafter]
    · rw [List.append_assoc] at hfinal
      rw [List.filterMap_cons]
      cases hkept : call.kept? <;> simpa [hkept] using hfinal

/-- After any calls that share settings and the file of a history, which was not there at first,
the file can be loaded and holds the last expressions that were kept, as many as the settings
allow, or it still is not there where none was kept. A call that fails, that only checks an
expression or puts it in reverse Polish order, or that has no history, changes nothing. -/
theorem expressions_after (hready : IsReady host configPath path settings storage)
    {calls : List Call} (hcalls : ∀ call ∈ calls, ∃ invocation expression,
      call.Shares host configPath path settings invocation expression) :
    ∃ final, after host calls storage = .ok final ∧
      (calls.filterMap kept? = [] →
        final = storage ∧ final.look host.workingDirectory path = .nothing) ∧
      (calls.filterMap kept? ≠ [] →
        ∃ h : History, (∀ m : History, m.loadFrom? final host.workingDirectory path = some h) ∧
          h.limit = settings.history.limit ∧
          h.entries.map Entry.expression =
            lastOf settings.history.limit (calls.filterMap kept?)) ∧
      ∀ call invocation expression,
        Shares call host configPath path settings invocation expression →
        ∃ outcome, call.run host final = .ok outcome ∧
          (outcome.exitCode = 0 ↔ invocation.query.isAnswered expression) ∧
          (invocation.query ≠ .value ∨ invocation.noHistory ∨ outcome.exitCode ≠ 0 →
            outcome.storage = final) := by
  obtain ⟨final, hafter, hleads⟩ := exists_after hready hcalls .stays
  rw [List.nil_append] at hleads
  refine ⟨final, hafter, fun hnone => ?_, fun hkept => ?_, fun call invocation expression h => ?_⟩
  · rw [hnone] at hleads
    cases hleads with
    | stays => exact ⟨rfl, hready.look_eq_nothing⟩
    | saved hkept hkeeps hsave => exact absurd rfl hkept
  · generalize calls.filterMap kept? = kept at *
    cases hleads with
    | stays => exact absurd rfl hkept
    | @saved _ history _ hkept hkeeps hsave =>
      exact ⟨history.reread, History.loadFrom?_of_saveTo? hkeeps.limit_lt hkeeps.isInMinutes hsave,
        hkeeps.reread.limit_eq, hkeeps.reread.map_expression⟩
  · obtain ⟨outcome, hrun, hcode, hstorage, -⟩ := hleads.exists_run hready h
    refine ⟨outcome, hrun, hcode, fun hcase => hstorage ?_⟩
    rw [h.kept?_eq, if_neg]
    rintro ⟨hquery, hhistory, hanswered⟩
    rcases hcase with hother | hnone | hfails
    · exact hother hquery
    · simp [hnone] at hhistory
    · exact hfails (hcode.mpr hanswered)

def sampleHost : Host where
  workingDirectory := []
  configDirectory := "/c".toList
  dataDirectory := "/d".toList
  zone := .fiveHoursBehind
  clipboard := fun _ _ => .ok ()

/-- The settings are in a file, and allow for one entry. -/
def sampleStorage : Storage where
  nodes := [(["c.toml".toList], .file "[history]
max_entries = 1
".toList)]

def sampleSettings : Settings where
  history := { limit := 1 }

def sampleInvocation (query : Query) (expression : String) : Invocation where
  query := query
  copy := false
  historyFile := some "h.json".toList
  noHistory := false
  config := some "c.toml".toList
  precision := none
  verbosity := 0
  expression := some expression.toList

def sampleCall (arguments : List String) : Call where
  arguments := (["--config=c.toml", "--history-file=h.json"] ++ arguments).map String.toList
  input := []
  time := .epoch

theorem isReady_sampleStorage :
    IsReady sampleHost "c.toml".toList "h.json".toList sampleSettings sampleStorage where
  settings_eq := by decide +kernel
  look_eq_nothing := by decide +kernel
  isSome_write? := fun _ => rfl
  look_of_write? := by
    intro content written h
    obtain rfl := Option.some.inj h
    rfl

theorem shares_sampleCall {arguments : List String} (query : Query) (expression : String)
    (h : Invocation.ofArguments? (sampleCall arguments).arguments =
      some (sampleInvocation query expression)) :
    (sampleCall arguments).Shares sampleHost "c.toml".toList "h.json".toList sampleSettings
      (sampleInvocation query expression) expression.toList where
  ofArguments?_eq := h
  expression_eq := rfl
  configPath_eq := rfl
  historyPath?_eq := rfl
  precision_le := show Display.defaultDigits ≤ 65532 by decide
  keeps := {
    isInMinutes := ⟨-300, rfl⟩
    shows := (by decide : (Zone.fiveHoursBehind.wallClock .epoch).date.isInRange) }

/-- One entry is allowed, and the file holds the last expression that was calculated. -/
theorem expressions_after_three :
    ∃ final, after sampleHost
        [sampleCall ["1+1"], sampleCall [" 3 "], sampleCall ["--check", "4"]] sampleStorage =
        .ok final ∧
      ∃ h : History, (∀ m : History, m.loadFrom? final [] "h.json".toList = some h) ∧
        h.limit = 1 ∧ h.entries.map Entry.expression = ["3".toList] := by
  have hkept : [sampleCall ["1+1"], sampleCall [" 3 "], sampleCall ["--check", "4"]].filterMap
      kept? = ["1+1".toList, "3".toList] := by decide +kernel
  have hcalls : ∀ call ∈ [sampleCall ["1+1"], sampleCall [" 3 "], sampleCall ["--check", "4"]],
      ∃ invocation expression, call.Shares sampleHost "c.toml".toList "h.json".toList
        sampleSettings invocation expression := by
    simp only [List.forall_mem_cons]
    exact ⟨⟨_, _, shares_sampleCall .value "1+1" (by decide +kernel)⟩,
      ⟨_, _, shares_sampleCall .value " 3 " (by decide +kernel)⟩,
      ⟨_, _, shares_sampleCall .check "4" (by decide +kernel)⟩, List.forall_mem_nil _⟩
  obtain ⟨final, hafter, -, hsaved, -⟩ := expressions_after isReady_sampleStorage hcalls
  obtain ⟨h, hload, hlimit, hexpressions⟩ := hsaved (by rw [hkept]; decide)
  rw [hkept] at hexpressions
  exact ⟨final, hafter, h, hload, hlimit, hexpressions⟩

end Call

end Reckoner
