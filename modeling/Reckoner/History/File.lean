import Reckoner.History.Basic
import Reckoner.Json.Basic

/-! The file of a history: a JSON object of the limit and the entries. What is read may leave
things out, hold more than is known, and give the parts of an object as an array in order. -/
namespace Reckoner

/-- What a file says of an entry. -/
structure Record where
  expression : List Char
  result : Binary64
  timestamp : List Char
deriving DecidableEq

namespace Entry

/-- The entry as a file has it; none where its instant has no text. -/
def record? (zone : Zone) (e : Entry) : Option Record := do
  let timestamp ← zone.timestamp? e.instant
  return { expression := e.expression, result := e.result, timestamp }

/-- The result of an entry in a file; what JSON has no number for is named. -/
def resultText : Binary64 → List Char
  | .nan => Json.quote "NaN".toList
  | .infinite negative => Json.quote (if negative then "-Infinity".toList else "Infinity".toList)
  | .finite negative x => DigitStyle.stored.write (.finite negative x)

/-- A result in a file: a number, the name of one, or null for no number. -/
def resultOf? : Json → Option Binary64
  | .null => some .nan
  | .number n => n.value?
  | .string pieces => do
    let name ← Json.textOf? pieces
    if name = "Infinity".toList then return .infinite false
    else if name = "-Infinity".toList then return .infinite true
    else if name = "NaN".toList then return .nan
    else none
  | _ => none

/-- The entry in a file that has these three parts. -/
def ofParts? (expression result instant : Json) : Option Entry := do
  let expression ← expression.text?
  let result ← resultOf? result
  let instant ← Instant.ofTimestamp? (← instant.text?)
  return { expression, result, instant }

/-- An entry in a file: an object of its three parts, or an array of them. -/
def ofJson? : Json → Option Entry
  | .object fields => do
    let fields ← Json.keyed? fields
    let expression ← Json.field? fields "expression".toList
    let result ← Json.field? fields "result".toList
    let instant ← Json.field? fields "timestamp".toList
    ofParts? (← expression) (← result) (← instant)
  | .array [expression, result, instant] => ofParts? expression result instant
  | _ => none

end Entry

namespace History

/-- A field of an object on a line of its own, `depth` steps in. -/
def fieldText (depth : Nat) (key value : List Char) : List Char :=
  List.replicate (2 * depth) ' ' ++ Json.quote key ++ ": ".toList ++ value

def recordText (r : Record) : List Char :=
  "    \x7b\n".toList ++
    fieldText 3 "expression".toList (Json.quote r.expression) ++ ",\n".toList ++
    fieldText 3 "result".toList (Entry.resultText r.result) ++ ",\n".toList ++
    fieldText 3 "timestamp".toList (Json.quote r.timestamp) ++ "\n    \x7d".toList

/-- The entries in the file, each on lines of its own. -/
def recordsText : List Record → List Char
  | [] => "[]".toList
  | records => "[\n".toList ++ ",\n".toList.intercalate (records.map recordText) ++ "\n  ]".toList

def layout (limit : Nat) (records : List Record) : List Char :=
  "\x7b\n".toList ++
    fieldText 1 "max_entries".toList (Nat.toDigits 10 limit) ++ ",\n".toList ++
    fieldText 1 "history".toList (recordsText records) ++ "\n\x7d".toList

/-- The text of a history's file, with the times on the wall; none where one of them has none. -/
def fileText? (h : History) (zone : Zone) : Option (List Char) :=
  (h.entries.mapM (Entry.record? zone)).map (layout h.limit)

/-- What a file says: a limit, if it gives one, and entries. -/
structure File where
  limit : Option Nat
  entries : List Entry

namespace File

/-- The limit in a file, which may be left out or null. -/
def limitOf? : Option Json → Option (Option Nat)
  | none | some .null => some none
  | some (.number n) => n.count?.map some
  | _ => none

/-- The entries in a file; none where they are left out. -/
def entriesOf? : Option Json → Option (List Entry)
  | none => some []
  | some (.array items) => items.mapM Entry.ofJson?
  | _ => none

def ofParts? (limit entries : Option Json) : Option File := do
  return { limit := ← limitOf? limit, entries := ← entriesOf? entries }

/-- A file: an object of its two parts, or an array of them with the last left out at will. -/
def ofJson? : Json → Option File
  | .object fields => do
    let fields ← Json.keyed? fields
    ofParts? (← Json.field? fields "max_entries".toList) (← Json.field? fields "history".toList)
  | .array [] => ofParts? none none
  | .array [limit] => ofParts? (some limit) none
  | .array [limit, entries] => ofParts? (some limit) (some entries)
  | _ => none

def ofText? (text : List Char) : Option File :=
  Json.ofText? text >>= ofJson?

end File

/-- The history after a file has been read: its entries take the place of the present ones, and
its limit, if it gives one, that of the present one. A text that is no such file gives none. -/
def load? (h : History) (text : List Char) : Option History :=
  (File.ofText? text).map fun file => ofEntries (file.limit.getD h.limit) file.entries

end History

end Reckoner
