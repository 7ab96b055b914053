import Reckoner.Toml.Scalar

/-! TOML documents: arrays and inline tables, and the statements that make up a document. -/
namespace Reckoner.Toml

/-- How deep arrays and inline tables may stand in each other. -/
def maxDepth : Nat := 80

/-- The text after a comment that comes first; a comment goes up to the end of the line. -/
def skipComment? : List Char → Option (List Char)
  | '#' :: rest =>
    let comment := rest.takeWhile isPrintable
    match rest.drop comment.length with
    | [] => some []
    | after => (endOfLine? after).map fun _ => after
  | text => some text

/-- The text after spaces, ends of lines and comments. Each step takes a character. -/
def skipLines? : Nat → List Char → Option (List Char)
  | 0, _ => none
  | fuel + 1, text =>
    match skipSpace text with
    | '#' :: rest => skipComment? ('#' :: rest) >>= skipLines? fuel
    | '\n' :: rest => skipLines? fuel rest
    | '\r' :: '\n' :: rest => skipLines? fuel rest
    | rest => some rest

mutual

/-- The value at the start of a text, and the text after it; `depth` levels may be in it. Each
part of a value takes a character, so that the length of the text is fuel enough. -/
def readValue? : Nat → Nat → List Char → Option (Toml × List Char)
  | 0, _, _ => none
  | fuel + 1, depth, text =>
    match text with
    | '"' :: _ | '\'' :: _ => (readString? text).map fun (value, rest) => (.string value, rest)
    | '[' :: rest =>
      if depth = 0 then none
      else (readItems? fuel (depth - 1) rest).map fun (items, rest) => (.array items, rest)
    | '\x7b' :: rest =>
      if depth = 0 then none
      else (readEntries? fuel (depth - 1) [] rest).map fun (fields, rest) =>
        (.table .inline fields, rest)
    | _ =>
      let (word, rest) := splitWord text
      (ofWord? word).map (·, rest)

/-- The items of an array up to its end; a comma may follow the last. -/
def readItems? : Nat → Nat → List Char → Option (List Toml × List Char)
  | 0, _, _ => none
  | fuel + 1, depth, text => do
    match ← skipLines? (fuel + 1) text with
    | ']' :: rest => return ([], rest)
    | text =>
      let (item, text) ← readValue? fuel depth text
      match ← skipLines? (fuel + 1) text with
      | ',' :: rest =>
        let (items, rest) ← readItems? fuel depth rest
        return (item :: items, rest)
      | ']' :: rest => return ([item], rest)
      | _ => none

/-- The entries of an inline table up to its end, added to those before; a comma may follow the
last. Lines may end anywhere but within a key. -/
def readEntries? : Nat → Nat → Fields → List Char → Option (Fields × List Char)
  | 0, _, _, _ => none
  | fuel + 1, depth, fields, text => do
    match ← skipLines? (fuel + 1) text with
    | '\x7d' :: rest => return (fields, rest)
    | text =>
      let (path, key, text) ← readKey? text
      match ← skipLines? (fuel + 1) text with
      | '=' :: text =>
        let (value, text) ← readValue? fuel depth (← skipLines? (fuel + 1) text)
        let fields ← insert? path key value .headed fields
        match ← skipLines? (fuel + 1) text with
        | ',' :: rest => readEntries? fuel depth fields rest
        | '\x7d' :: rest => return (fields, rest)
        | _ => none
      | _ => none

end

/-- A document that is being read: what it says so far, and the path of the last header. -/
structure Draft where
  fields : Fields
  header : List Key

/-- The text after the end of a statement: space, a comment and the end of the line. -/
def endStatement? (text : List Char) : Option (List Char) := do
  match ← skipComment? (skipSpace text) with
  | [] => return []
  | rest => endOfLine? rest

/-- Takes one statement: the header of a list item, a header, or a key and its value. -/
def Draft.statement? (draft : Draft) (text : List Char) : Option (Draft × List Char) := do
  match text with
  | '[' :: '[' :: rest =>
    let (path, key, rest) ← readKey? rest
    match rest with
    | ']' :: ']' :: rest =>
      return (⟨← openItem? path key draft.fields, path ++ [key]⟩, rest)
    | _ => none
  | '[' :: rest =>
    let (path, key, rest) ← readKey? rest
    match rest with
    | ']' :: rest => return (⟨← openTable? path key draft.fields, path ++ [key]⟩, rest)
    | _ => none
  | _ =>
    let (path, key, rest) ← readKey? text
    match rest with
    | '=' :: rest =>
      let (value, rest) ← readValue? (2 * text.length + 2) maxDepth (skipSpace rest)
      let fields ← descend false (insert? path key value) draft.header .headed draft.fields
      return (⟨fields, draft.header⟩, rest)
    | _ => none

/-- Takes all statements. Each of them takes a character. -/
def Draft.complete? : Nat → Draft → List Char → Option Fields
  | 0, _, _ => none
  | fuel + 1, draft, text => do
    match ← skipLines? (text.length + 1) text with
    | [] => return draft.fields
    | text =>
      let (draft, rest) ← draft.statement? text
      Draft.complete? fuel draft (← endStatement? rest)

/-- The fields of a document. A byte order mark before it does not count. -/
def ofText? (text : List Char) : Option Fields :=
  let text := if text.head? = some '\uFEFF' then text.drop 1 else text
  Draft.complete? (text.length + 1) ⟨[], []⟩ text

end Reckoner.Toml
