import Reckoner.Display
import Reckoner.History.Basic
import Reckoner.Toml.Document

/-! The user's settings, read from a TOML document. What it leaves out is as by default, and
what it says beyond the known is passed over. -/
namespace Reckoner

structure HistorySettings where
  enabled : Bool := true
  limit : Nat := History.defaultLimit
  file : Option (List Char) := none
deriving DecidableEq

structure Settings where
  history : HistorySettings := {}
  display : Display.Options := {}
deriving DecidableEq

namespace Settings

/-- How many counts there are. -/
def countLimit : Int := 2 ^ 64

def boolean? : Toml → Option Bool
  | .boolean value => some value
  | _ => none

def count? : Toml → Option Nat
  | .integer n => if 0 ≤ n ∧ n < countLimit then some n.toNat else none
  | _ => none

def text? : Toml → Option (List Char)
  | .string value => some value
  | _ => none

/-- The parts of a table with these names. What else the table holds is passed over. -/
def partsOf? (names : List (List Char)) (fields : Toml.Fields) : Option (List (Option Toml)) :=
  if fields.all fun (key, value) => key ∈ names || value.isReadable then
    some (names.map (Toml.find? fields))
  else none

/-- The parts of a section by name, or by position where it is given as an array. A date has no
parts with names of ours. -/
def parts? (names : List (List Char)) : Toml → Option (List (Option Toml))
  | .table _ fields => partsOf? names fields
  | .array items => some (names.mapIdx fun i _ => items[i]?)
  | .dateTime => some (names.map fun _ => none)
  | _ => none

/-- A part that may be left out. -/
def orDefault {α : Type} (default : α) (read? : Toml → Option α) : Option Toml → Option α
  | none => some default
  | some value => read? value

def historyOf? (section? : Option Toml) : Option HistorySettings := do
  let defaults : HistorySettings := {}
  let some given := section? | return defaults
  let names := ["enabled".toList, "max_entries".toList, "file".toList]
  let [enabled, limit, file] ← parts? names given | none
  return {
    enabled := ← orDefault defaults.enabled boolean? enabled
    limit := ← orDefault defaults.limit count? limit
    file := ← orDefault defaults.file (fun value => (text? value).map some) file }

def displayOf? (section? : Option Toml) : Option Display.Options := do
  let defaults : Display.Options := {}
  let some given := section? | return defaults
  let names := ["precision".toList, "thousands_separators".toList]
  let [precision, separators] ← parts? names given | none
  return {
    precision := ← orDefault defaults.precision count? precision
    thousandsSeparators := ← orDefault defaults.thousandsSeparators boolean? separators }

/-- The settings in a document, if it is well-formed and its parts are of the right kinds. -/
def ofText? (text : List Char) : Option Settings := do
  let fields ← Toml.ofText? text
  let [history, display] ← partsOf? ["history".toList, "display".toList] fields | none
  return {
    history := ← historyOf? history
    display := ← displayOf? display }

def directory : List Char := "zcalc".toList

def below (directory path : List Char) : List Char :=
  directory ++ '/' :: path

/-- Where settings are kept, below the user's directory for them. -/
def defaultPath (configDirectory : List Char) : List Char :=
  below (below configDirectory directory) "config.toml".toList

/-- Where the history is kept, unless it is not kept. -/
def historyPath? (s : Settings) (dataDirectory : List Char) : Option (List Char) :=
  if s.history.enabled then
    some (s.history.file.getD (below (below dataDirectory directory) "history.json".toList))
  else none

end Settings

end Reckoner
