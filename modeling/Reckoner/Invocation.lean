import Reckoner.Query
import Reckoner.Settings

/-! The arguments that the program is called with. -/
namespace Reckoner

inductive Switch where
  | check
  | rpn
  | copy
  | noHistory
  | verbose
deriving DecidableEq

inductive ValuedOption where
  | historyFile
  | config
  | precision
deriving DecidableEq

/-- An argument, or an option and the value after it. -/
inductive Argument where
  | switch (name : Switch)
  | valued (name : ValuedOption) (value : List Char)
  | expression (text : List Char)
deriving DecidableEq

structure Invocation where
  query : Query
  /-- Whether a result is to be copied as well. -/
  copy : Bool
  /-- The history file to use in place of the one that is set. -/
  historyFile : Option (List Char)
  /-- Whether the history is neither read nor kept. -/
  noHistory : Bool
  /-- The file of settings to use in place of the usual one. -/
  config : Option (List Char)
  /-- The significant digits to show in place of those that are set. -/
  precision : Option Nat
  /-- How much is logged; nothing of it is written for the reader. -/
  verbosity : Nat
  /-- The expression; a session is begun where there is none. -/
  expression : Option (List Char)
deriving DecidableEq

namespace Argument

def longSwitch? (name : List Char) : Option Switch :=
  if name = "check".toList then some .check
  else if name = "postfix".toList then some .rpn
  else if name = "copy".toList then some .copy
  else if name = "no-history".toList then some .noHistory
  else if name = "verbose".toList then some .verbose
  else none

def longValued? (name : List Char) : Option ValuedOption :=
  if name = "history-file".toList then some .historyFile
  else if name = "config".toList then some .config
  else if name = "precision".toList then some .precision
  else none

def shortSwitch? : Char → Option Switch
  | 'c' => some .copy
  | 'v' => some .verbose
  | _ => none

def shortValued? : Char → Option ValuedOption
  | 'p' => some .precision
  | _ => none

/-- What one argument says: whole arguments, and an option whose value comes next, if any. -/
abbrev Reading := List Argument × Option ValuedOption

/-- An option with a long name, which may have its value behind an equals sign. -/
def readLong? (text : List Char) : Option Reading :=
  let name := text.takeWhile (· ≠ '=')
  match text.drop name.length with
  | [] =>
    match longSwitch? name with
    | some given => some ([.switch given], none)
    | none => (longValued? name).map fun option => ([], some option)
  | _ :: value => (longValued? name).map fun option => ([.valued option value], none)

/-- Options with short names in one argument. One with a value takes the rest of it, without the
equals sign that may come first. -/
def readShort? : List Char → Option Reading
  | [] => some ([], none)
  | c :: rest =>
    match shortSwitch? c with
    | some given =>
      (readShort? rest).map fun (arguments, next) => (.switch given :: arguments, next)
    | none =>
      (shortValued? c).map fun option =>
        match rest with
        | [] => ([], some option)
        | '=' :: value => ([.valued option value], none)
        | value => ([.valued option value], none)

/-- One argument. A single hyphen is an expression. -/
def read? : List Char → Option Reading
  | '-' :: '-' :: name => readLong? name
  | ['-'] => some ([.expression ['-']], none)
  | '-' :: names => readShort? names
  | text => some ([.expression text], none)

/-- Whether an argument cannot be the value of an option before it. -/
def isOptionLike : List Char → Bool
  | '-' :: _ :: _ => true
  | _ => false

/-- All arguments, after an option whose value comes next, if any. Behind two hyphens all are
expressions. -/
def readAll? : Option ValuedOption → List (List Char) → Option (List Argument)
  | none, [] => some []
  | some _, [] => none
  | some option, value :: rest =>
    if isOptionLike value then none
    else (readAll? none rest).map (.valued option value :: ·)
  | none, text :: rest =>
    if text = ['-', '-'] then some (rest.map .expression)
    else
      match read? text with
      | none => none
      | some (arguments, next) => (readAll? next rest).map (arguments ++ ·)

def count (switch : Switch) (arguments : List Argument) : Nat :=
  arguments.countP (· = .switch switch)

def values (option : ValuedOption) (arguments : List Argument) : List (List Char) :=
  arguments.filterMap fun
    | .valued name value => if name = option then some value else none
    | _ => none

def expressions (arguments : List Argument) : List (List Char) :=
  arguments.filterMap fun
    | .expression text => some text
    | _ => none

/-- The only item of a list that has at most one; `none` for a longer list. -/
def atMostOne? {α : Type} : List α → Option (Option α)
  | [] => some none
  | [item] => some (some item)
  | _ => none

/-- A path, which must not be empty. -/
def path? (text : List Char) : Option (List Char) :=
  if text = [] then none else some text

/-- A count of at most 64 bits, which may have a plus sign. -/
def count? (text : List Char) : Option Nat :=
  let digits :=
    match text with
    | '+' :: digits => digits
    | digits => digits
  if digits = [] ∨ !digits.all Char.isDigit then none
  else
    let n := Nat.ofDigitChars 10 digits 0
    if n < 2 ^ 64 then some n else none

/-- The value of an option that may be left out, if it is well-formed. -/
def value? {α : Type} (read? : List Char → Option α) (option : ValuedOption)
    (arguments : List Argument) : Option (Option α) := do
  match ← atMostOne? (values option arguments) with
  | none => return none
  | some text => return some (← read? text)

end Argument

namespace Invocation

/-- What the arguments call for. Only the switch for more log output may be given twice, and
there is one expression at most. -/
def ofArguments? (texts : List (List Char)) : Option Invocation := do
  let arguments ← Argument.readAll? none texts
  let given (switch : Switch) : Bool := 0 < Argument.count switch arguments
  guard ([Switch.check, .rpn, .copy, .noHistory].all (Argument.count · arguments ≤ 1))
  guard (!(given .check && given .rpn))
  let historyFile ← Argument.value? Argument.path? .historyFile arguments
  let config ← Argument.value? Argument.path? .config arguments
  let precision ← Argument.value? Argument.count? .precision arguments
  let expression ← Argument.atMostOne? (Argument.expressions arguments)
  return {
    query := if given .check then .check else if given .rpn then .rpn else .value
    copy := given .copy
    historyFile
    noHistory := given .noHistory
    config
    precision
    verbosity := Argument.count .verbose arguments
    expression }

/-- Where the history is kept, unless it is not kept. -/
def historyPath? (i : Invocation) (settings : Settings) (dataDirectory : List Char) :
    Option (List Char) :=
  if i.noHistory then none
  else i.historyFile.orElse fun _ => settings.historyPath? dataDirectory

def configPath (i : Invocation) (configDirectory : List Char) : List Char :=
  i.config.getD (Settings.defaultPath configDirectory)

def options (i : Invocation) (settings : Settings) : Display.Options :=
  { settings.display with precision := i.precision.getD settings.display.precision }

end Invocation

end Reckoner
