import Conformance.BuildInfo
import Conformance.CommandLine.Reading
import Conformance.Session
import Conformance.Settings.Layers

/-!
The program as a whole: from its arguments and what is around it to what it writes.
-/
namespace Conformance

/-- What is around the program when it starts. -/
structure Surroundings where
  files : FileTree
  /-- The settings file that the environment names. -/
  settingsPath : Option String
  /-- Nanoseconds since 1970-01-01T00:00:00Z. -/
  clock : Nat
  build : BuildInfo

structure Response where
  exitCode : Nat
  /-- To standard output. -/
  output : String
  /-- To standard error. -/
  message : Option String
  /-- A file that is written, and its text. -/
  written : Option (String × String)
  deriving DecidableEq, Repr

namespace Response

def answer (output : String) : Response := ⟨0, output, none, none⟩

def runtimeError : Nat := 3

/-- What was to be done, what went wrong, and the faults behind that. -/
def failure (action : String) (messages : List String) : Response :=
  ⟨runtimeError, "", some ("Error: " ++ ": ".intercalate (action :: messages)), none⟩

end Response

namespace Application

open CommandLine

def withSettings (w : Surroundings) (o : RunOptions) (go : Settings → Response) : Response :=
  match Settings.load w.files o w.settingsPath with
  | .ok settings => go settings
  | .error fault => .failure "failed to load configuration" fault.messages

def list (w : Surroundings) (s : Settings) : Response :=
  match Session.list s w.files with
  | .ok ids => .answer (String.join (ids.map (· ++ "\n")))
  | .error fault => .failure "failed to list checks" fault.messages

/-- A report goes to standard output with a line end after it, and as it is to a file. -/
def deliver (w : Surroundings) (s : Settings) (r : RunReport) : Response :=
  let text := s.format.render s.style r
  match s.output with
  | none => ⟨r.exitCode, text ++ "\n", none, none⟩
  | some path =>
    match w.files.write (.ofText path) (Text.toUtf8 text) with
    | .ok _ => ⟨r.exitCode, "", none, some (path, text)⟩
    | .error fault => .failure ("failed to write report to " ++ path) [fault.message]

def run (w : Surroundings) (s : Settings) : Response :=
  match Session.run s w.files w.clock with
  | .ok report => deliver w s report
  | .error fault => .failure "failed to run checks" fault.messages

def stop (s : Stop) : Response :=
  match s with
  | .help => .answer usage
  | .version => .answer (BuildInfo.programName ++ " " ++ BuildInfo.ownVersion ++ "\n")
  | s => ⟨s.exitCode, "", some ("error: " ++ s.message), none⟩

def execute (w : Surroundings) (arguments : List String) : Response :=
  match Command.read arguments with
  | .error s => stop s
  | .ok .version => .answer (w.build.text ++ "\n")
  | .ok (.list o) => withSettings w o.toRunOptions (list w)
  | .ok (.run o) => withSettings w o (run w)

end Application

end Conformance
