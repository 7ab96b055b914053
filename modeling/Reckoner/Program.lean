import Reckoner.History.File
import Reckoner.Invocation
import Reckoner.Session.Basic
import Reckoner.Storage

/-! A run of the program from its arguments to its exit code, as a function of its input and of
the files it finds. -/
namespace Reckoner

/-- Where the program runs. -/
structure Host where
  workingDirectory : Location
  configDirectory : List Char
  dataDirectory : List Char
  zone : Zone
  clipboard : Instant → List Char → Except ClipboardFailure Unit

structure Outcome where
  exitCode : Nat
  output : List Char
  errors : List Char
  storage : Storage

namespace Program

def usageExitCode : Nat := 2

/-- The settings in what is found at a path, or a message. Where nothing is, they are the
default ones. -/
def settings (path : List Char) : Found → Except (List Char) Settings
  | .nothing => .ok {}
  | .unreadable reason =>
    .error ("Failed to read config file ".toList ++ path ++ ": ".toList ++ reason)
  | .text content =>
    match Settings.ofText? content with
    | some settings => .ok settings
    | none => .error ("Failed to parse config file ".toList ++ path)

/-- The history in what is found where it is kept. Without a file that can be read it is
empty. -/
def restored (settings : Settings) (found : Found) : History :=
  let fresh := History.empty settings.history.limit
  match found with
  | .text content => (fresh.load? content).getD fresh
  | _ => fresh

/-- A session as it is begun from the command line. -/
def session (host : Host) (history : History) (options : Display.Options) : Session :=
  { history, options, zone := host.zone, clipboard := .system host.clipboard }

/-- The storage after a history has been saved. It stays as it is where the history is not kept,
and has no more than the directories on the way where its file cannot be written. -/
def save (host : Host) (storage : Storage) (path : Option (List Char)) (history : History) :
    Except Display.Refusal Storage :=
  match path with
  | none => .ok storage
  | some path =>
    match storage.makeParents? host.workingDirectory path with
    | none => .ok storage
    | some made =>
      match history.fileText? host.zone with
      | none => .error .dateOutOfRange
      | some text => .ok ((made.overwrite? host.workingDirectory path text).getD made)

/-- The storage after a reply: a history with a new value in it is saved. -/
def keep (host : Host) (storage : Storage) (path : Option (List Char)) (query : Query)
    (reply : Reply) : Except Display.Refusal Storage :=
  if query = .value ∧ reply.isSuccess then save host storage path reply.history else .ok storage

/-- What is found at a path that may be missing. -/
def look (host : Host) (storage : Storage) : Option (List Char) → Found
  | none => .nothing
  | some path => storage.look host.workingDirectory path

def perform (host : Host) (invocation : Invocation) (storage : Storage) (input : List Line)
    (time : Instant) : Except Display.Refusal Outcome :=
  let configPath := invocation.configPath host.configDirectory
  match settings configPath (look host storage (some configPath)) with
  | .error message =>
    .ok {
      exitCode := 1
      output := []
      errors := "Error: ".toList ++ message ++ ['\n']
      storage }
  | .ok settings =>
    let path := invocation.historyPath? settings host.dataDirectory
    let history := restored settings (look host storage path)
    let options := invocation.options settings
    match invocation.expression with
    | none => do
      let (last, output) ← (session host history options).run input
      let storage ← save host storage path last.history
      return { exitCode := 0, output, errors := [], storage }
    | some expression => do
      let reply ← invocation.query.answer options invocation.copy time expression history
      let storage ← keep host storage path invocation.query reply
      return {
        exitCode := if reply.isSuccess then 0 else 1
        output := reply.output
        errors := reply.errors
        storage }

/-- A run of the program. Nothing is done for arguments that cannot be read. -/
def run (host : Host) (arguments : List (List Char)) (storage : Storage) (input : List Line)
    (time : Instant) : Except Display.Refusal Outcome :=
  match Invocation.ofArguments? arguments with
  | none => .ok { exitCode := usageExitCode, output := [], errors := [], storage }
  | some invocation => perform host invocation storage input time

end Program

end Reckoner
