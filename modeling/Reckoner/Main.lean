import Std.Time.Zoned.Database
import Reckoner.Program

/-! The command line. It finds files, reads lines and writes text; what is written and kept is
decided by the library. -/
namespace Reckoner.Terminal

/-- The exit code where the precision asked for is refused. -/
def refusalExitCode : UInt32 := 101

def write (text : List Char) : IO Unit := do
  let output ← IO.getStdout
  output.putStr (String.ofList text)
  output.flush

def writeError (text : List Char) : IO Unit :=
  IO.eprint (String.ofList text)

def refuse (refusal : Display.Refusal) : IO UInt32 := do
  match refusal with
  | .tooManyPlaces => writeError "Error: Precision too large\n".toList
  | .dateOutOfRange => writeError "Error: Date out of range\n".toList
  return refusalExitCode

def now : IO Instant := do
  let nanoseconds := (← Std.Time.Timestamp.now).toNanosecondsSinceUnixEpoch.val.toNat
  match Instant.sinceEpoch? (nanoseconds / nanosPerSecond) nanoseconds with
  | some t => return t
  | none => throw (.userError "the clock is out of range")

open Std.Time in
def unixTime (t : Instant) : Timestamp :=
  have hday := daysInMonth_le t.date.year t.date.month
  have hdate := t.date.valid
  let month : Month.Ordinal := ⟨t.date.month, by omega⟩
  let day : Day.Ordinal := ⟨t.date.day, by omega⟩
  let days := (PlainDate.ofYearMonthDayClip t.date.year month day).toEpochDay.val
  .ofSecondsSinceUnixEpoch ⟨days * secondsPerDay + t.second⟩

/-- The zone with some offsets, without those that are a day or more. -/
def zoneOf (offset : Instant → Int) : Zone where
  offset := fun t => if (offset t).natAbs < secondsPerDay then offset t else 0
  offset_lt := fun t => by
    split
    next h => exact h
    next => decide

/-- The zone that the system is set to, or universal time where that cannot be told. -/
def localZone : IO Zone := do
  try
    let rules ← Std.Time.Database.defaultGetLocalZoneRules
    return zoneOf fun t =>
      (rules.findLocalTimeTypeForTimestamp (unixTime t)).gmtOffset.second.val
  catch _ => return .universal

def look (path : List Char) : IO Found := do
  if (Path.ofText? path).isNone then return .nothing
  try
    return .text (← IO.FS.readFile (String.ofList path)).toList
  catch
    | .noFileOrDirectory .. => return .nothing
    | e => return .unreadable (toString e).toList

/-- Saves a history where it is kept, unless a date in it is out of range. A history that cannot be
saved is let go. -/
def save (zone : Zone) (path : Option (List Char)) (history : History) :
    IO (Except Display.Refusal Unit) := do
  let some path := path | return .ok ()
  try
    let parent := Path.parentText path
    if parent ≠ [] then IO.FS.createDirAll (String.ofList parent)
    let some text := history.fileText? zone | return .error .dateOutOfRange
    IO.FS.writeFile (String.ofList path) (String.ofList text)
    return .ok ()
  catch _ => return .ok ()

/-- A directory of the user: one that the environment names, or one below the home directory. -/
def userDirectory (name below : String) : IO (List Char) := do
  match ← IO.getEnv name with
  | some path => if path.toList.head? = some '/' then return path.toList
  | none => pure ()
  return Settings.below ((← IO.getEnv "HOME").getD "").toList below.toList

partial def converse (s : Session) : IO (Except Display.Refusal Session) := do
  if s.question = .nothing then return .ok s
  write s.prompt
  let line ← (← IO.getStdin).getLine
  if line.isEmpty then
    let (last, text) := s.endOfInput
    write text
    return .ok last
  match s.answer { text := line.toList, time := ← now } with
  | .error refusal => return .error refusal
  | .ok (next, text) =>
    write text
    converse next

/-- Where this program runs. It has no clipboard, and leaves the working directory to the system. -/
def host : IO Host := do
  return {
    workingDirectory := []
    configDirectory := ← userDirectory "XDG_CONFIG_HOME" ".config"
    dataDirectory := ← userDirectory "XDG_DATA_HOME" ".local/share"
    zone := ← localZone
    clipboard := fun _ _ => .error (.access "no clipboard".toList) }

def perform (host : Host) (invocation : Invocation) : IO UInt32 := do
  let configPath := invocation.configPath host.configDirectory
  match Program.settings configPath (← look configPath) with
  | .error message =>
    writeError ("Error: ".toList ++ message ++ ['\n'])
    return 1
  | .ok settings =>
    let path := invocation.historyPath? settings host.dataDirectory
    let found ← match path with
      | some path => look path
      | none => pure .nothing
    let history := Program.restored settings found
    let options := invocation.options settings
    match invocation.expression with
    | none =>
      let session := Program.session host history options
      write session.opening
      match ← converse session with
      | .error refusal => refuse refusal
      | .ok last =>
        match ← save host.zone path last.history with
        | .error refusal => refuse refusal
        | .ok _ => return 0
    | some expression =>
      match invocation.query.answer options invocation.copy (← now) expression history with
      | .error refusal => refuse refusal
      | .ok reply =>
        write reply.output
        writeError reply.errors
        if invocation.query = .value ∧ reply.isSuccess then
          if let .error refusal ← save host.zone path reply.history then return ← refuse refusal
        return if reply.isSuccess then 0 else 1

end Reckoner.Terminal

def main (arguments : List String) : IO UInt32 := do
  match Reckoner.Invocation.ofArguments? (arguments.map String.toList) with
  | none =>
    Reckoner.Terminal.writeError
      "Usage: reckoner [OPTIONS] [EXPRESSION]\n".toList
    return Reckoner.Program.usageExitCode.toUInt32
  | some invocation => Reckoner.Terminal.perform (← Reckoner.Terminal.host) invocation
