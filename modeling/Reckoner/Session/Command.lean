import Reckoner.Instant.Basic
import Reckoner.Text.Blank
import Reckoner.Text.Lowercase

/-! What a line of input asks for where a command is expected. -/
namespace Reckoner

/-- A line of input and when it was given. -/
structure Line where
  text : List Char
  time : Instant

/-- How calculations are entered: as whole expressions, or number by number. -/
inductive Mode where
  | expression
  | stepByStep
deriving DecidableEq

namespace Mode

def name : Mode → List Char
  | expression => "Expression".toList
  | stepByStep => "Step-by-step".toList

def other : Mode → Mode
  | expression => stepByStep
  | stepByStep => expression

end Mode

/-- What a line asks for where a command is expected. -/
inductive Command where
  | quit
  | help
  | switchMode
  | showHistory
  | clearHistory
  | copy
  | input (text : List Char)
deriving DecidableEq

/-- The command in a line. A word of command is read in any case; any other text is input. -/
def Command.ofText (text : List Char) : Command :=
  let word := lowercase (trim text)
  if word = "q".toList ∨ word = "quit".toList ∨ word = "exit".toList then quit
  else if word = "h".toList ∨ word = "help".toList then help
  else if word = "expr".toList then switchMode
  else if word = "history".toList ∨ word = "hist".toList then showHistory
  else if word = "clear history".toList then clearHistory
  else if word = "copy".toList then copy
  else input (trim text)

end Reckoner
