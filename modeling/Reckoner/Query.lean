import Reckoner.Expression
import Reckoner.History.Basic

/-! One expression by itself: to be calculated, checked or put in reverse Polish order. -/
namespace Reckoner

inductive Query where
  | value
  | check
  | rpn
deriving DecidableEq

/-- What comes of a query: the history after it, a text for the reader or a message, and a text
for the clipboard of the system if one is to be copied. Whether the clipboard takes that changes
nothing else. -/
structure Reply where
  history : History
  outcome : Except (List Char) (List Char)
  copied : Option (List Char) := none

namespace Query

/-- Answers a query. A value that is found is kept in the history, and copied if that is asked
for; nothing else is. -/
def answer (query : Query) (options : Display.Options) (copy : Bool) (time : Instant)
    (text : List Char) (history : History) : Except Display.Refusal Reply :=
  match query with
  | check =>
    match Expression.check text with
    | none => .ok { history, outcome := .ok "valid".toList }
    | some e => .ok { history, outcome := .error e.message }
  | rpn =>
    match Expression.rpnText text with
    | .ok tokens => .ok { history, outcome := .ok tokens }
    | .error e => .ok { history, outcome := .error e.message }
  | value =>
    let expression := trim text
    match Expression.finiteValue expression with
    | .error message => .ok { history, outcome := .error message }
    | .ok result => do
      let shown ← options.format result
      return {
        history := history.push ⟨expression, result, time⟩
        outcome := .ok shown
        copied := if copy then some (Display.plain result) else none }

end Query

namespace Reply

def output (r : Reply) : List Char :=
  match r.outcome with
  | .ok text => text ++ ['\n']
  | .error _ => []

def errors (r : Reply) : List Char :=
  match r.outcome with
  | .ok _ => []
  | .error message => "Error: ".toList ++ message ++ ['\n']

def isSuccess (r : Reply) : Bool :=
  match r.outcome with
  | .ok _ => true
  | .error _ => false

end Reply

end Reckoner
