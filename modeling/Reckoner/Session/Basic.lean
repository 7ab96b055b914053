import Reckoner.Expression
import Reckoner.Expression.Recognition
import Reckoner.History.Basic
import Reckoner.Session.Command
import Reckoner.Session.Messages

/-! An interactive session: what each line of input does to it and what is written for that.
Every line answers the question that was asked last, so that a session is a state machine over
the lines it is given. -/
namespace Reckoner

/-- What the next line answers. -/
inductive Question where
  | command
  | confirmClear
  | firstNumber
  | operator (first : Binary64)
  | secondNumber (first : Binary64) (op : Operator)
  /-- Nothing: the session is over. -/
  | nothing
deriving DecidableEq

/-- Why the clipboard of the system has not taken a text: it could not be opened or not be written,
for causes that it gives. -/
inductive ClipboardFailure where
  | access (causes : List Char)
  | copy (causes : List Char)

def ClipboardFailure.message : ClipboardFailure → List Char
  | access causes => "Failed to access clipboard: ".toList ++ causes
  | copy causes => "Failed to copy to clipboard: ".toList ++ causes

/-- Where a copied result goes: it is only told to the user, or it is handed to the clipboard of
the system, which takes it or does not. -/
inductive Clipboard where
  | disabled
  | system (copy : Instant → List Char → Except ClipboardFailure Unit)

structure Session where
  history : History
  options : Display.Options
  zone : Zone
  clipboard : Clipboard
  mode : Mode := .expression
  lastResult : Option Binary64 := none
  question : Question := .command

namespace Session

/-- A session after a line, and what is written for the line. -/
abbrev Answer := Except Display.Refusal (Session × List Char)

/-- The text that is written before a line is read. -/
def prompt (s : Session) : List Char :=
  match s.question with
  | .command =>
    match s.mode with
    | .expression => "Enter expression (or command): ".toList
    | .stepByStep => "Enter command (or press Enter to calculate): ".toList
  | .confirmClear => "Clear all history? (y/n): ".toList
  | .firstNumber => "Enter first number: ".toList
  | .operator _ => "Enter operator (".toList ++ operatorSymbols ++ "): ".toList
  | .secondNumber _ _ => "Enter second number: ".toList
  | .nothing => []

/-- An error as the user reads it, with an empty line after it. -/
def errorText (message : List Char) : List Char :=
  "Error: ".toList ++ message ++ "\n\n".toList

def divisionText : List Char :=
  errorText "Cannot divide by zero!".toList

def quit (s : Session) : Session × List Char :=
  ({ s with question := .nothing }, farewell)

def record (s : Session) (expression : List Char) (result : Binary64) (time : Instant) :
    Session :=
  { s with
    history := s.history.push ⟨expression, result, time⟩
    lastResult := some result }

/-- Calculates an expression; an empty one is passed over. -/
def evaluate (s : Session) (text : List Char) (time : Instant) : Answer :=
  if text = [] then .ok (s, [])
  else
    match Expression.value text with
    | .ok value =>
      match Display.nonFiniteName? value with
      | some name => .ok (s, errorText name)
      | none => do
        let shown ← s.options.format value
        return (s.record text value time,
          "Result: ".toList ++ text ++ " = ".toList ++ shown ++ "\n\n".toList)
    | .error .divisionByZero => .ok (s, divisionText)
    | .error e =>
      let hint :=
        if Expression.looksLikeOne text then [] else lines ["Type 'h' for a list of commands."]
      .ok (s, "Error: ".toList ++ e.message ++ ['\n'] ++ hint ++ ['\n'])

/-- The expression that is kept for a calculation in steps, in digits that can be read back. -/
def stepExpression (a : Binary64) (op : Operator) (b : Binary64) : List Char :=
  Display.plain a ++ op.symbol :: Display.plain b

def evaluateStep (s : Session) (a : Binary64) (op : Operator) (b : Binary64) (time : Instant) :
    Answer :=
  if op = .div ∧ b.isZero then .ok (s, divisionText)
  else
    let result := op.apply a b
    match Display.nonFiniteName? result with
    | some name => .ok (s, errorText name)
    | none => do
      let left ← s.options.format a
      let right ← s.options.format b
      let shown ← s.options.format result
      return (s.record (stepExpression a op b) result time,
        "\nResult: ".toList ++ left ++ ' ' :: op.symbol :: ' ' :: right ++ " = ".toList ++
          shown ++ "\n\n".toList)

/-- What is written when the last result is copied. -/
def copy (s : Session) (time : Instant) : List Char :=
  match s.lastResult with
  | none => lines ["Nothing to copy yet.", ""]
  | some value =>
    let text := Display.plain value
    match s.clipboard with
    | .disabled => "Clipboard disabled; last result: ".toList ++ text ++ "\n\n".toList
    | .system copy =>
      match copy time text with
      | .ok _ => "Copied ".toList ++ text ++ " to clipboard.\n\n".toList
      | .error failure => errorText failure.message

def shownEntries : Nat := 10

def obey (s : Session) (time : Instant) : Command → Answer
  | .quit => .ok s.quit
  | .help => .ok (s, help)
  | .switchMode =>
    let mode := s.mode.other
    .ok ({ s with mode := mode },
      "\nSwitched to ".toList ++ mode.name ++ " mode\n\n".toList)
  | .showHistory => .ok (s, '\n' :: s.history.listing s.zone (some shownEntries) ++ ['\n'])
  | .clearHistory => .ok ({ s with question := .confirmClear }, [])
  | .copy => .ok (s, s.copy time)
  | .input text =>
    match s.mode with
    | .expression => s.evaluate text time
    | .stepByStep => .ok ({ s with question := .firstNumber }, [])

/-- Whether a line ends the session where a number or an operator is expected. -/
def isQuit (text : List Char) : Bool :=
  let word := lowercase text
  word = "q".toList || word = "quit".toList

def number? (text : List Char) : Option Binary64 :=
  (Binary64.read? text).filter Binary64.isFinite

def invalidNumber : List Char :=
  lines ["Invalid number. Please try again or 'q' to quit."]

def operator? : List Char → Option Operator
  | [c] => Operator.ofSymbol? c
  | _ => none

def invalidOperator : List Char :=
  "Invalid operator. Valid operators: ".toList ++ operatorSymbols ++ ['\n']

/-- Takes a line as the answer to the question that was asked. -/
def answer (s : Session) (line : Line) : Answer :=
  let text := trim line.text
  match s.question with
  | .nothing => .ok (s, [])
  | .command => s.obey line.time (.ofText text)
  | .confirmClear =>
    let s := { s with question := .command }
    if text = ['y'] ∨ text = ['Y'] then
      .ok ({ s with history := s.history.clear }, lines ["History cleared.", ""])
    else .ok (s, [])
  | .firstNumber =>
    if isQuit text then .ok s.quit
    else
      match number? text with
      | some a => .ok ({ s with question := .operator a }, [])
      | none => .ok (s, invalidNumber)
  | .operator a =>
    if isQuit text then .ok s.quit
    else
      match operator? text with
      | some op => .ok ({ s with question := .secondNumber a op }, [])
      | none => .ok (s, invalidOperator)
  | .secondNumber a op =>
    if isQuit text then .ok s.quit
    else
      match number? text with
      | some b => { s with question := .command }.evaluateStep a op b line.time
      | none => .ok (s, invalidNumber)

/-- The end of a session for want of input. A history is not cleared unless that is confirmed,
and then a command is asked for once more. -/
def endOfInput (s : Session) : Session × List Char :=
  match s.question with
  | .nothing => (s, [])
  | .command => ({ s with question := .nothing }, '\n' :: farewell)
  | .confirmClear =>
    ({ s with question := .nothing }, { s with question := .command }.prompt ++ '\n' :: farewell)
  | .firstNumber | .operator _ | .secondNumber _ _ => s.quit

def opening (s : Session) : List Char :=
  greeting ++ "\nMode: ".toList ++ s.mode.name ++ ['\n'] ++
    lines ["Type 'expr' to toggle modes, 'h' for help", ""]

/-- The session after some lines, up to the one that ends it, and all that is written. -/
def proceed (s : Session) : List Line → Answer
  | [] =>
    let (last, text) := s.endOfInput
    .ok (last, s.prompt ++ text)
  | line :: rest => do
    let (next, text) ← s.answer line
    if next.question = .nothing then return (next, s.prompt ++ text)
    let (last, more) ← next.proceed rest
    return (last, s.prompt ++ text ++ more)

/-- A whole session: what it leaves and all that is written. -/
def run (s : Session) (input : List Line) : Answer := do
  let (last, text) ← s.proceed input
  return (last, s.opening ++ text)

end Session

end Reckoner
