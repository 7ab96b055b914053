/-! TOML values, and how tables grow: which statements may add to a table that is there already
depends on how it came about. -/
namespace Reckoner

namespace Toml

/-- How a table came about. -/
inductive Kind where
  /-- It has a header of its own, or is the document. -/
  | headed
  /-- A longer header goes through it. -/
  | implied
  /-- A dotted key goes through it. -/
  | dotted
  /-- It stands in braces and is complete. -/
  | inline
deriving DecidableEq

end Toml

/-- A TOML value. Of numbers with a fraction and of dates it only matters that they are
well-formed. -/
inductive Toml where
  | string (value : List Char)
  | integer (value : Int)
  | boolean (value : Bool)
  | float
  /-- A number that has no value, as it is out of range or lacks digits. This is an error only
  where the value is looked at. -/
  | unreadable
  | dateTime
  | array (items : List Toml)
  /-- A list of tables that is given header by header. -/
  | tables (items : List (List (List Char × Toml)))
  | table (kind : Toml.Kind) (fields : List (List Char × Toml))

namespace Toml

abbrev Key := List Char

abbrev Fields := List (Key × Toml)

mutual

/-- Whether every number in a value has a value. What is passed over must be readable all the
same. -/
def isReadable : Toml → Bool
  | .unreadable => false
  | .array items => areReadable items
  | .tables items => areReadableTables items
  | .table _ fields => areReadableFields fields
  | .string _ | .integer _ | .boolean _ | .float | .dateTime => true

def areReadable : List Toml → Bool
  | [] => true
  | item :: items => isReadable item && areReadable items

def areReadableTables : List (List (List Char × Toml)) → Bool
  | [] => true
  | fields :: items => areReadableFields fields && areReadableTables items

def areReadableFields : List (List Char × Toml) → Bool
  | [] => true
  | (_, value) :: fields => isReadable value && areReadableFields fields

end

def find? (fields : Fields) (key : Key) : Option Toml :=
  (fields.find? (·.1 = key)).map (·.2)

/-- Gives a key a value, in its place if it has one already. -/
def set (key : Key) (value : Toml) : Fields → Fields
  | [] => [(key, value)]
  | (k, v) :: rest => if k = key then (k, value) :: rest else (k, v) :: set key value rest

/-- Changes the table at the end of a path, making the tables on the way that are not there. A
path goes through the last of a list of tables; never through an inline table; and a dotted key
not through a table with a header. -/
def descend (onDotted : Bool) (change : Kind → Fields → Option Fields) :
    List Key → Kind → Fields → Option Fields
  | [], kind, fields => change kind fields
  | key :: path, _, fields =>
    match find? fields key with
    | none =>
      let kind := if onDotted then Kind.dotted else .implied
      (descend onDotted change path kind []).map fun inner =>
        set key (.table kind inner) fields
    | some (.tables items) => do
      let last ← items.getLast?
      let inner ← descend onDotted change path .headed last
      return set key (.tables (items.dropLast ++ [inner])) fields
    | some (.table kind inner) =>
      if kind = .inline ∨ (onDotted ∧ kind = .headed) then none
      else (descend onDotted change path kind inner).map fun inner =>
        set key (.table kind inner) fields
    | some _ => none

/-- Adds a value under a key that has none, below a path of dotted keys. At its end there must
be a table that dotted keys have made, or the table where the path began. -/
def insert? (path : List Key) (key : Key) (value : Toml) (kind : Kind) (fields : Fields) :
    Option Fields :=
  let add (kind : Kind) (fields : Fields) : Option Fields :=
    if (find? fields key).isNone ∧ (kind = .dotted ↔ path ≠ []) then
      some (set key value fields)
    else none
  descend (!path.isEmpty) add path kind fields

/-- Opens the table of a header. A table that longer headers have implied gets its own. -/
def openTable? (path : List Key) (key : Key) (document : Fields) : Option Fields :=
  let add (_ : Kind) (fields : Fields) : Option Fields :=
    match find? fields key with
    | none => some (set key (.table .headed []) fields)
    | some (.table .implied inner) => some (set key (.table .headed inner) fields)
    | some _ => none
  descend false add path .headed document

/-- Opens one more table in the list of tables of a header. -/
def openItem? (path : List Key) (key : Key) (document : Fields) : Option Fields :=
  let add (_ : Kind) (fields : Fields) : Option Fields :=
    match find? fields key with
    | none => some (set key (.tables [[]]) fields)
    | some (.tables items) => some (set key (.tables (items ++ [[]])) fields)
    | some _ => none
  descend false add path .headed document

end Toml

end Reckoner
