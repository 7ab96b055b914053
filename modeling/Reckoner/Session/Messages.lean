import Reckoner.Operator

/-! The fixed texts of a session. -/
namespace Reckoner.Session

/-- Lines of text, each with its end. -/
def lines (texts : List String) : List Char :=
  texts.flatMap fun text => text.toList ++ ['\n']

def greeting : List Char :=
  let rule := String.ofList (List.replicate 50 '=')
  lines [rule, "Welcome to Command-Line Calculator", rule, "Commands:",
    "  - Enter an expression like (3+4)*2 to calculate",
    "  - 'h' or 'help' - Show help menu",
    "  - 'q' or 'quit' - Exit calculator", rule]

def farewell : List Char :=
  lines ["Thank you for using Calculator. Goodbye!"]

def operatorHelp (op : Operator) : List Char :=
  "  ".toList ++ op.symbol :: " - ".toList ++ op.description ++ ['\n']

def help : List Char :=
  let rule := String.ofList (List.replicate 30 '-')
  lines ["", "Help Menu:", rule, "Available operations:"] ++
    Operator.binaries.flatMap operatorHelp ++
    lines ["", "Expression Mode:",
      "  Enter complete expressions like '3+4*2'",
      "  Supports parentheses: '(3+4)*2' and negation: '-(2+3)'",
      "  Type 'expr' to toggle step-by-step mode",
      "", "History Commands:",
      "  'history' or 'hist' - Show calculation history",
      "  'clear history' - Clear all history",
      "  'copy' - Copy the last result to the clipboard",
      "", "Commands:",
      "  'h' or 'help' - Show this menu",
      "  'q' or 'quit' - Exit calculator", rule]

def operatorSymbols : List Char :=
  ", ".toList.intercalate (Operator.binaries.map fun op => [op.symbol])

end Reckoner.Session
