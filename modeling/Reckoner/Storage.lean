import Reckoner.Text.Bytes

/-! A tree of files: what is found at a path, and what a path is after text has been written
there. -/
namespace Reckoner

inductive Node where
  | file (content : List Char)
  /-- A file of bytes that are no text. -/
  | binary
  /-- A file that may be neither read nor written. -/
  | locked
  | directory
deriving DecidableEq

/-- The names from the root to a location. -/
abbrev Location := List (List Char)

/-- The locations that hold something. The root always is a directory. -/
structure Storage where
  nodes : List (Location × Node)
deriving DecidableEq

/-- A path as it is written: from the root or from the working directory, through some names,
possibly with a sign that it names a directory. -/
structure Path where
  isAbsolute : Bool
  names : List (List Char)
  namesDirectory : Bool
deriving DecidableEq

/-- What is found at a path. -/
inductive Found where
  | nothing
  | text (content : List Char)
  | unreadable (reason : List Char)
deriving DecidableEq

namespace Node

def read : Node → Found
  | file content => .text content
  | binary => .unreadable "stream did not contain valid UTF-8".toList
  | locked => .unreadable "Permission denied (os error 13)".toList
  | directory => .unreadable "Is a directory (os error 21)".toList

/-- Whether text can be written in place of what is there. -/
def isReplaceable : Node → Bool
  | file _ | binary => true
  | locked | directory => false

end Node

def splitSlashes : List Char → List (List Char)
  | [] => [[]]
  | '/' :: rest => [] :: splitSlashes rest
  | c :: rest =>
    match splitSlashes rest with
    | part :: parts => (c :: part) :: parts
    | [] => [[c]]

namespace Path

def maxNameBytes : Nat := 255

def maxBytes : Nat := 4095

/-- The path that a text is; an empty text is none, nor is one with a null character, one that is
too long or one with a name that is. -/
def ofText? (text : List Char) : Option Path :=
  let parts := splitSlashes text
  if text = [] ∨ '\x00' ∈ text ∨ maxBytes < byteCount text ∨
      parts.any (maxNameBytes < byteCount ·) then none
  else
    let last := parts.getLastD []
    some {
      isAbsolute := text.head? = some '/'
      names := parts.filter fun part => part ≠ [] && part ≠ ['.']
      namesDirectory := last = [] || last = ['.'] || last = ['.', '.'] }

/-- The text of a path without its last name and the slashes around that. -/
def parentText (text : List Char) : List Char :=
  let dropSlashes (text : List Char) : List Char := text.dropWhile (· = '/')
  let reversed := dropSlashes ((dropSlashes text.reverse).dropWhile (· ≠ '/'))
  if reversed = [] ∧ text.head? = some '/' then ['/'] else reversed.reverse

end Path

/-- The location one step from a location: up for two dots, else down to a name. -/
def Location.step (location : Location) (name : List Char) : Location :=
  if name = ['.', '.'] then location.dropLast else location ++ [name]

namespace Storage

def node? (s : Storage) (location : Location) : Option Node :=
  if location = [] then some .directory
  else (s.nodes.find? (·.1 = location)).map (·.2)

/-- The storage with something at a location, in place of what was there. -/
def put (s : Storage) (location : Location) (node : Node) : Storage where
  nodes := s.nodes.filter (·.1 ≠ location) ++ [(location, node)]

/-- The location that names lead to. All but the last must lead to a directory. -/
def walk? (s : Storage) : List (List Char) → Location → Option Location
  | [], location => some location
  | name :: names, location =>
    if s.node? location = some .directory then s.walk? names (location.step name) else none

def start (workingDirectory : Location) (path : Path) : Location :=
  if path.isAbsolute then [] else workingDirectory

/-- The location that a path leads to, whether or not something is there. -/
def locate? (s : Storage) (workingDirectory : Location) (path : Path) : Option Location :=
  s.walk? path.names (start workingDirectory path)

/-- What is found at the path that a text is. -/
def look (s : Storage) (workingDirectory : Location) (text : List Char) : Found :=
  match Path.ofText? text with
  | none => .nothing
  | some path =>
    match (s.locate? workingDirectory path).bind s.node? with
    | some node => if path.namesDirectory ∧ node ≠ .directory then .nothing else node.read
    | none => .nothing

/-- The storage with a directory at every location that names lead through. -/
def makeDirectories? (s : Storage) : List (List Char) → Location → Option Storage
  | [], _ => some s
  | name :: names, location =>
    let next := location.step name
    match s.node? next with
    | some .directory => s.makeDirectories? names next
    | some _ => none
    | none => (s.put next .directory).makeDirectories? names next

/-- The storage with the directories on the way to the path that a text is. -/
def makeParents? (s : Storage) (workingDirectory : Location) (text : List Char) :
    Option Storage := do
  let path ← Path.ofText? text
  s.makeDirectories? path.names.dropLast (start workingDirectory path)

/-- The storage with text at the path that a text is, where the directories on the way are
there; `none` where no file can be written. -/
def overwrite? (s : Storage) (workingDirectory : Location) (text content : List Char) :
    Option Storage := do
  let path ← Path.ofText? text
  let location ← s.locate? workingDirectory path
  if path.namesDirectory ∨ !(s.node? location).all Node.isReplaceable then none
  else return s.put location (.file content)

/-- The storage after text has been written to the path that a text is, with the directories on
the way. -/
def write? (s : Storage) (workingDirectory : Location) (text content : List Char) :
    Option Storage := do
  let made ← s.makeParents? workingDirectory text
  made.overwrite? workingDirectory text content

end Storage

end Reckoner
