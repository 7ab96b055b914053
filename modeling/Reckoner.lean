import Reckoner.Main
import Reckoner.Proofs.Expression.Acceptance
import Reckoner.Proofs.History.Reload
import Reckoner.Proofs.Expression.Failure
import Reckoner.Proofs.Expression.Reading
import Reckoner.Proofs.History.Log
import Reckoner.Proofs.Binary64.Equality
import Reckoner.Proofs.Binary64.Places
import Reckoner.Proofs.Display.Plain
import Reckoner.Proofs.Session.Replay
import Reckoner.Proofs.Decimal.Reading
import Reckoner.Proofs.Expression.Operands
import Reckoner.Proofs.Decimal.Rounded
import Reckoner.Proofs.Display.Significant
import Reckoner.Proofs.Session.Trace
import Reckoner.Proofs.Program.Calls
import Reckoner.Proofs.Expression.Parentheses
import Reckoner.Proofs.Binary64.Nearest
import Reckoner.Proofs.Expression.Resolution
import Reckoner.Proofs.Token.Lexemes
import Reckoner.Proofs.Display.PlainReading
import Reckoner.Proofs.Token.Rendering
import Reckoner.Proofs.Session.StepExpression
import Reckoner.Proofs.Session.SingleLine
import Reckoner.Proofs.Display.Grouped
import Reckoner.Proofs.Expression.Groups
import Reckoner.Proofs.Expression.Recognition
import Reckoner.Proofs.History.Search
import Reckoner.Proofs.Session.Prompts
import Reckoner.Proofs.Session.Split
import Reckoner.Proofs.Program.Independence
import Reckoner.Proofs.Display.Canonical
import Reckoner.Proofs.Expression.Layers
import Reckoner.Proofs.Token.Matches
