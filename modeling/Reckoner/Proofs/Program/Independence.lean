import Mathlib.Data.List.Basic
import Reckoner.Program
import Reckoner.Proofs.History.File
import Reckoner.Proofs.Instant.Zone
import Reckoner.Proofs.Storage

/-! What a call with an expression answers does not depend on the file where the history is kept. -/
namespace Reckoner

namespace Storage

variable {s s' : Storage} {location : Location}

end Storage

namespace Query

end Query

/-- What a run shows to whoever has called for it. -/
def Outcome.shown (o : Outcome) : Nat × List Char × List Char :=
  (o.exitCode, o.output, o.errors)

namespace Program

/-- What is shown for a text, or for a message. -/
def shownOf : Except (List Char) (List Char) → Nat × List Char × List Char
  | .ok text => (0, text ++ ['\n'], [])
  | .error message => (1, [], "Error: ".toList ++ message ++ ['\n'])

variable {host : Host} {arguments : List (List Char)} {invocation : Invocation}
  {expression : List Char}

/-- What is shown for an expression, with no thought of the history that it is kept in. -/
def answered (host : Host) (invocation : Invocation) (expression : List Char) (storage : Storage)
    (time : Instant) : Except Display.Refusal (Nat × List Char × List Char) :=
  match settings (invocation.configPath host.configDirectory)
    (look host storage (some (invocation.configPath host.configDirectory))) with
  | .error message => .ok (shownOf (.error message))
  | .ok given =>
    ((invocation.query.answer (invocation.options given) invocation.copy time expression
      (.empty 0)).map Reply.outcome).map shownOf

theorem exists_save {storage : Storage} {path : Option (List Char)} {history : History}
    (h : path.isSome → ∀ e ∈ history.entries, host.zone.Shows e.instant) :
    ∃ kept, save host storage path history = .ok kept := by
  unfold save
  split
  next => exact ⟨_, rfl⟩
  next path =>
    split
    next => exact ⟨_, rfl⟩
    next made _ =>
      obtain ⟨text, htext⟩ := Option.isSome_iff_exists.mp
        (History.isSome_fileText?_iff.mpr (h rfl))
      rw [htext]
      exact ⟨_, rfl⟩

end Program

end Reckoner
