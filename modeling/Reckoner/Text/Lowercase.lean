import Reckoner.Text.CaseTable

/-! The lowercase of a text, in full: characters may become several, and a capital sigma at the
end of a word becomes the final one. -/
namespace Reckoner

def isInRanges (ranges : List (Nat × Nat)) (c : Char) : Bool :=
  ranges.any fun (first, last) => first ≤ c.toNat && c.toNat ≤ last

/-- Whether `c` is a letter that has case. -/
def isCased (c : Char) : Bool :=
  isInRanges casedRanges c

/-- Whether `c` does not count where the end of a word is looked for. -/
def isCaseIgnorable (c : Char) : Bool :=
  isInRanges caseIgnorableRanges c

/-- Whether a code point is one that the range maps. -/
def CaseRange.contains (range : CaseRange) (n : Nat) : Bool :=
  range.first ≤ n && n ≤ range.last && (n - range.first) % range.step == 0

/-- The lowercase of one character wherever it stands. The capital `I` with a dot keeps the dot. -/
def lowercaseChar (c : Char) : List Char :=
  if c = '\u0130' then ['i', '\u0307']
  else
    match lowercaseRanges.find? (·.contains c.toNat) with
    | some range => [Char.ofNat (range.target + (c.toNat - range.first))]
    | none => [c]

/-- Whether the next character that counts is a letter with case. -/
def meetsCased (text : List Char) : Bool :=
  match text.dropWhile isCaseIgnorable with
  | c :: _ => isCased c
  | [] => false

/-- The lowercase of the rest of a text, `before` being what comes before it, last first. -/
def lowercaseAfter (before : List Char) : List Char → List Char
  | [] => []
  | c :: rest =>
    (if c = 'Σ' then [if meetsCased before && !meetsCased rest then 'ς' else 'σ']
      else lowercaseChar c) ++ lowercaseAfter (c :: before) rest

def lowercase (text : List Char) : List Char :=
  lowercaseAfter [] text

end Reckoner
