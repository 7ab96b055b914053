import Reckoner.Json.Number
import Reckoner.Json.Quoted

/-! JSON values, and reading a text as one. Fields keep their order, also where a key is given
twice; nesting has no limit. -/
namespace Reckoner

/-- A JSON value. Texts are kept in pieces, as only those that are used need to make sense. -/
inductive Json where
  | null
  | bool (value : Bool)
  | number (value : Json.Number)
  | string (pieces : List Json.Piece)
  | array (items : List Json)
  | object (fields : List (List Json.Piece × Json))

namespace Json

/-- The four characters that may stand between the parts of a JSON text. -/
def isSpace (c : Char) : Bool :=
  c ∈ [' ', '\n', '\t', '\r']

def skipSpace (text : List Char) : List Char :=
  text.dropWhile isSpace

def dropWord? : List Char → List Char → Option (List Char)
  | [], text => some text
  | c :: word, d :: text => if c = d then dropWord? word text else none
  | _ :: _, [] => none

mutual

/-- The value at the start of a text, and the text after it. Every part of a value takes a
character, so that the length of the text is fuel enough. -/
def readValue? : Nat → List Char → Option (Json × List Char)
  | 0, _ => none
  | fuel + 1, text =>
    match skipSpace text with
    | '"' :: rest => (readQuoted? rest).map fun (pieces, rest) => (.string pieces, rest)
    | '[' :: rest =>
      match skipSpace rest with
      | ']' :: rest => some (.array [], rest)
      | rest => (readItems? fuel rest).map fun (items, rest) => (.array items, rest)
    | '\x7b' :: rest =>
      match skipSpace rest with
      | '\x7d' :: rest => some (.object [], rest)
      | rest => (readFields? fuel rest).map fun (fields, rest) => (.object fields, rest)
    | 'n' :: rest => (dropWord? "ull".toList rest).map (.null, ·)
    | 't' :: rest => (dropWord? "rue".toList rest).map (.bool true, ·)
    | 'f' :: rest => (dropWord? "alse".toList rest).map (.bool false, ·)
    | rest => (Number.read? rest).map fun (n, rest) => (.number n, rest)

/-- The items of an array up to its end. -/
def readItems? : Nat → List Char → Option (List Json × List Char)
  | 0, _ => none
  | fuel + 1, text => do
    let (item, text) ← readValue? fuel text
    match skipSpace text with
    | ',' :: rest =>
      let (items, rest) ← readItems? fuel rest
      return (item :: items, rest)
    | ']' :: rest => return ([item], rest)
    | _ => none

/-- The fields of an object up to its end. -/
def readFields? : Nat → List Char → Option (List (List Piece × Json) × List Char)
  | 0, _ => none
  | fuel + 1, text =>
    match skipSpace text with
    | '"' :: rest => do
      let (key, rest) ← readQuoted? rest
      match skipSpace rest with
      | ':' :: rest =>
        let (value, rest) ← readValue? fuel rest
        match skipSpace rest with
        | ',' :: rest =>
          let (fields, rest) ← readFields? fuel rest
          return ((key, value) :: fields, rest)
        | '\x7d' :: rest => return ([(key, value)], rest)
        | _ => none
      | _ => none
    | _ => none

end

/-- The value that a text is, with nothing but space around it. -/
def ofText? (text : List Char) : Option Json := do
  let (value, rest) ← readValue? (2 * text.length + 2) text
  guard (skipSpace rest = [])
  return value

def text? : Json → Option (List Char)
  | string pieces => textOf? pieces
  | _ => none

/-- The fields of an object with their keys as texts. -/
def keyed? (fields : List (List Piece × Json)) : Option (List (List Char × Json)) :=
  fields.mapM fun (key, value) => (textOf? key).map (·, value)

/-- The value of a field: nothing if the key is given twice, and no value if it is not given. -/
def field? (fields : List (List Char × Json)) (key : List Char) : Option (Option Json) :=
  match fields.filter (·.1 = key) with
  | [] => some none
  | [(_, value)] => some (some value)
  | _ => none

end Json

end Reckoner
