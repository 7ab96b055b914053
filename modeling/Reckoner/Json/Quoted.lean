import Reckoner.Text.Hex

/-! Text in quotes, as JSON writes it: quotes, backslashes and control characters are escaped,
and every other character stands for itself. -/
namespace Reckoner.Json

/-- A piece of a quoted text: a character, or half of a pair of escapes that make one. -/
inductive Piece where
  | char (c : Char)
  | half (unit : Nat)
deriving DecidableEq

def escape (c : Char) : List Char :=
  if c = '"' then ['\\', '"']
  else if c = '\\' then ['\\', '\\']
  else if c = '\n' then ['\\', 'n']
  else if c = '\r' then ['\\', 'r']
  else if c = '\t' then ['\\', 't']
  else if c = '\x08' then ['\\', 'b']
  else if c = '\x0C' then ['\\', 'f']
  else if c.toNat < 0x20 then
    ['\\', 'u', '0', '0', hexDigit (c.toNat / 16), hexDigit (c.toNat % 16)]
  else [c]

def quote (text : List Char) : List Char :=
  '"' :: text.flatMap escape ++ ['"']

/-- The character that a letter after a backslash stands for. -/
def unescape? : Char → Option Char
  | '"' => some '"'
  | '\\' => some '\\'
  | '/' => some '/'
  | 'b' => some '\x08'
  | 'f' => some '\x0C'
  | 'n' => some '\n'
  | 'r' => some '\r'
  | 't' => some '\t'
  | _ => none

/-- The piece that four hexadecimal digits stand for. -/
def unitPiece? (a b c d : Char) : Option Piece := do
  let unit := (((← hexValue? a) * 16 + (← hexValue? b)) * 16 + (← hexValue? c)) * 16 +
    (← hexValue? d)
  if 0xD800 ≤ unit ∧ unit < 0xE000 then return .half unit
  else return .char (Char.ofNat unit)

/-- The pieces of a text up to the closing quote, and what comes after that. -/
def readQuoted? : List Char → Option (List Piece × List Char)
  | [] => none
  | '"' :: rest => some ([], rest)
  | '\\' :: 'u' :: a :: b :: c :: d :: rest => do
    let piece ← unitPiece? a b c d
    let (pieces, rest) ← readQuoted? rest
    return (piece :: pieces, rest)
  | '\\' :: c :: rest => do
    let char ← unescape? c
    let (pieces, rest) ← readQuoted? rest
    return (.char char :: pieces, rest)
  | c :: rest =>
    if c.toNat < 0x20 ∨ c = '\\' then none
    else (readQuoted? rest).map fun (pieces, rest) => (.char c :: pieces, rest)

/-- The text that pieces make; a half needs its other half after it. -/
def textOf? : List Piece → Option (List Char)
  | [] => some []
  | .char c :: rest => (textOf? rest).map (c :: ·)
  | .half high :: .half low :: rest =>
    if high < 0xDC00 ∧ 0xDC00 ≤ low then
      let c := Char.ofNat (0x10000 + (high - 0xD800) * 0x400 + (low - 0xDC00))
      (textOf? rest).map (c :: ·)
    else none
  | .half _ :: _ => none

@[simp] theorem textOf?_map_char (text : List Char) :
    textOf? (text.map .char) = some text := by
  induction text with
  | nil => rfl
  | cons c rest ih => simp [textOf?, ih]

private theorem unitPiece?_control {n : Nat} (h : n < 0x20) :
    unitPiece? '0' '0' (hexDigit (n / 16)) (hexDigit (n % 16)) = some (.char (Char.ofNat n)) := by
  revert n
  decide

/-- One escaped character is read as that character. -/
theorem readQuoted?_escape (c : Char) (rest : List Char) :
    readQuoted? (escape c ++ rest) =
      (readQuoted? rest).map fun (pieces, rest) => (.char c :: pieces, rest) := by
  unfold escape
  iterate 7 (
    split
    next h => subst h; cases h : readQuoted? rest <;> simp [readQuoted?, unescape?, h])
  split
  next h => cases hr : readQuoted? rest <;> simp [readQuoted?, unitPiece?_control h, hr]
  next _ hb _ _ _ _ _ h => simp [readQuoted?, hb, h]

/-- What has been quoted is read back, whatever comes after it. -/
theorem readQuoted?_quote (text rest : List Char) :
    readQuoted? (text.flatMap escape ++ '"' :: rest) = some (text.map .char, rest) := by
  induction text with
  | nil => rfl
  | cons c text ih =>
    simp [List.flatMap_cons, List.append_assoc, readQuoted?_escape, ih]

end Reckoner.Json
