import Reckoner.Text.Hex

/-! Strings and keys of TOML: in double quotes with escapes or in single quotes without, on one
line or, in three quotes, over several. -/
namespace Reckoner.Toml

def isSpace (c : Char) : Bool :=
  c = ' ' || c = '\t'

def skipSpace (text : List Char) : List Char :=
  text.dropWhile isSpace

/-- The text after the end of a line that comes first. -/
def endOfLine? : List Char → Option (List Char)
  | '\n' :: rest => some rest
  | '\r' :: '\n' :: rest => some rest
  | _ => none

/-- A character that comments and strings may hold: no control character but the tab. -/
def isPrintable (c : Char) : Bool :=
  c = '\t' || (0x20 ≤ c.toNat && c ≠ '\x7F')

/-- The character that hexadecimal digits stand for; half a pair is no character. -/
def charOfHex? (digits : List Char) : Option Char := do
  let n ← digits.foldlM (fun n c => (hexValue? c).map (16 * n + ·)) 0
  if h : n.isValidChar then some (.ofNatAux n h) else none

/-- The character that a letter after a backslash stands for. -/
def unescape? : Char → Option Char
  | '"' => some '"'
  | '\\' => some '\\'
  | 'b' => some '\x08'
  | 'e' => some '\x1B'
  | 'f' => some '\x0C'
  | 'n' => some '\n'
  | 'r' => some '\r'
  | 't' => some '\t'
  | _ => none

/-- How many hexadecimal digits come after a letter that announces some. -/
def hexDigits? : Char → Option Nat
  | 'x' => some 2
  | 'u' => some 4
  | 'U' => some 8
  | _ => none

/-- The character of an escape, of which the backslash has been read, and the text after it. -/
def readEscape? : List Char → Option (Char × List Char)
  | [] => none
  | c :: rest =>
    match hexDigits? c with
    | some count =>
      if rest.length < count then none
      else (charOfHex? (rest.take count)).map (·, rest.drop count)
    | none => (unescape? c).map (·, rest)

/-- Spaces, tabs and ends of lines before a text are dropped. -/
def skipBlankLines (text : List Char) : List Char :=
  text.dropWhile fun c => isSpace c || c = '\n' || c = '\r'

/-- The rest of a line that ends in a backslash: what comes after the space on the next lines.
There must be an end of line, and no `\r` without its `\n`. -/
def joinLines? (text : List Char) : Option (List Char) :=
  let skipped := text.take (text.length - (skipBlankLines text).length)
  let loose := (skipped.zip (skipped.drop 1 ++ ['x'])).any fun (c, d) => c = '\r' && d ≠ '\n'
  if loose then none else (endOfLine? (skipSpace text)).map fun _ => skipBlankLines text

/-- The rest of a string in double quotes on one line. Each step takes a character. -/
def readBasic? : Nat → List Char → Option (List Char × List Char)
  | 0, _ => none
  | _ + 1, [] => none
  | _ + 1, '"' :: rest => some ([], rest)
  | fuel + 1, '\\' :: rest => do
    let (c, rest) ← readEscape? rest
    (readBasic? fuel rest).map fun (text, rest) => (c :: text, rest)
  | fuel + 1, c :: rest =>
    if isPrintable c then (readBasic? fuel rest).map fun (text, rest) => (c :: text, rest)
    else none

/-- The quotes at the end of a string in three of them: up to two more belong to the string. -/
def readClosing? (quote : Char) (text : List Char) : Option (List Char × List Char) :=
  let quotes := text.takeWhile (· = quote)
  if 3 ≤ quotes.length ∧ quotes.length ≤ 5 then
    some (quotes.drop 3, text.drop quotes.length)
  else none

/-- The rest of a string in three double quotes. Each step takes a character. -/
def readLongBasic? : Nat → List Char → Option (List Char × List Char)
  | 0, _ => none
  | _ + 1, [] => none
  | _ + 1, '"' :: '"' :: '"' :: rest => readClosing? '"' ('"' :: '"' :: '"' :: rest)
  | fuel + 1, '\\' :: rest =>
    match joinLines? rest with
    | some rest => readLongBasic? fuel rest
    | none => do
      let (c, rest) ← readEscape? rest
      (readLongBasic? fuel rest).map fun (text, rest) => (c :: text, rest)
  | fuel + 1, '\r' :: '\n' :: rest =>
    (readLongBasic? fuel rest).map fun (text, rest) => ('\r' :: '\n' :: text, rest)
  | fuel + 1, c :: rest =>
    if isPrintable c || c = '\n' then
      (readLongBasic? fuel rest).map fun (text, rest) => (c :: text, rest)
    else none

/-- The rest of a string in single quotes on one line. -/
def readLiteral? (text : List Char) : Option (List Char × List Char) :=
  let content := text.takeWhile (· ≠ '\'')
  match text.drop content.length with
  | _ :: rest => if content.all isPrintable then some (content, rest) else none
  | [] => none

def readLongLiteral? : List Char → Option (List Char × List Char)
  | [] => none
  | '\'' :: '\'' :: '\'' :: rest => readClosing? '\'' ('\'' :: '\'' :: '\'' :: rest)
  | '\r' :: '\n' :: rest =>
    (readLongLiteral? rest).map fun (text, rest) => ('\r' :: '\n' :: text, rest)
  | c :: rest =>
    if isPrintable c || c = '\n' then
      (readLongLiteral? rest).map fun (text, rest) => (c :: text, rest)
    else none

/-- A text without the end of line that it may begin with. -/
def dropFirstEnd (text : List Char) : List Char :=
  (endOfLine? text).getD text

/-- A string on one line or over several, and the text after it; `none` for anything else. -/
def readString? : List Char → Option (List Char × List Char)
  | '"' :: '"' :: '"' :: rest => readLongBasic? (rest.length + 1) (dropFirstEnd rest)
  | '"' :: rest => readBasic? (rest.length + 1) rest
  | '\'' :: '\'' :: '\'' :: rest => readLongLiteral? (dropFirstEnd rest)
  | '\'' :: rest => readLiteral? rest
  | _ => none

def isBareKeyChar (c : Char) : Bool :=
  c.isAlphanum || c = '_' || c = '-'

/-- One part of a key, and the text after it. -/
def readKeyPart? : List Char → Option (List Char × List Char)
  | '"' :: '"' :: '"' :: _ => none
  | '\'' :: '\'' :: '\'' :: _ => none
  | '"' :: rest => readBasic? (rest.length + 1) rest
  | '\'' :: rest => readLiteral? rest
  | text =>
    match text.takeWhile isBareKeyChar with
    | [] => none
    | key => some (key, text.drop key.length)

/-- How many parts a key may have. -/
def maxKeyParts : Nat := 80

/-- The rest of a key that may have so many parts. -/
def readKeyParts? : Nat → List Char → Option (List (List Char) × List Char × List Char)
  | 0, _ => none
  | count + 1, text => do
    let (part, rest) ← readKeyPart? (skipSpace text)
    match skipSpace rest with
    | '.' :: rest =>
      let (parts, last, rest) ← readKeyParts? count rest
      return (part :: parts, last, rest)
    | rest => return ([], part, rest)

/-- A key of one or more parts with dots between them: all parts but the last, the last one, and
the text after the key. -/
def readKey? (text : List Char) : Option (List (List Char) × List Char × List Char) :=
  readKeyParts? maxKeyParts text

end Reckoner.Toml
