import Conformance.Application
import Std.Time.DateTime.Timestamp

/-!
The command line program. It looks up the files that its settings and its checks name, works out the
answer from them, and writes it.
-/
namespace Conformance.Shell

/-- What is found under a name of the file system, if anything is. -/
def probe (path : String) : IO (Option FileItem) := do
  try
    return some (.file (← IO.FS.readBinFile path).toList)
  catch
    | .inappropriateType .. => return some .directory
    | _ => return none

/-- A tree with all that is found on the way along a path. -/
def look (files : FileTree) (path : String) : IO FileTree := do
  let parts := path.splitOn "/"
  let mut files := files
  let mut passed := ""
  let mut first := true
  for part in parts do
    passed := if first then part else passed ++ "/" ++ part
    first := false
    if !part.isEmpty then
      match ← probe passed with
      | none => return files
      | some item =>
        if let .ok place := files.resolve (.ofText passed) then
          files := ⟨(place, item) :: files.items⟩
  return files

def moduleDirectory : String := "/sys/module"

/-- The taint files of all modules. -/
def moduleFiles : IO (List String) := do
  try
    let entries ← (← IO.FS.realPath moduleDirectory).readDir
    return entries.toList.map fun entry => moduleDirectory ++ "/" ++ entry.fileName ++ "/taint"
  catch _ => return []

def kernelFiles : IO (List String) := do
  return ["/etc/hostname", "/proc/sys/kernel/hostname", "/proc/sys/kernel/tainted",
    moduleDirectory] ++ (← moduleFiles)

def filesOf (command : CommandLine.Command) (settingsPath : Option String) : IO FileTree := do
  match command.options? with
  | none => return .empty
  | some o =>
    let files ← (Settings.filePath? o settingsPath).toList.foldlM look FileTree.empty
    match Settings.load files o settingsPath with
    | .error _ => return files
    | .ok s => (s.catalog.toList ++ s.output.toList ++ (← kernelFiles)).foldlM look files

def clock : IO Nat := do
  return (← Std.Time.Timestamp.now).toNanosecondsSinceUnixEpoch.val.toNat

def build : BuildInfo :=
  ⟨BuildInfo.ownVersion, none, none, "native", none, BuildInfo.ownFormats⟩

def answer (arguments : List String) : IO Response := do
  let settingsPath ← IO.getEnv "CHECKRUN_CONFIG"
  let files ← match CommandLine.Command.read arguments with
    | .ok command => filesOf command settingsPath
    | .error _ => pure .empty
  return Application.execute ⟨files, settingsPath, ← clock, build⟩ arguments

def write (response : Response) : IO UInt32 := do
  IO.print response.output
  if let some message := response.message then IO.eprintln message
  match response.written with
  | none => return response.exitCode.toUInt32
  | some (path, text) =>
    try
      IO.FS.writeFile path text
      return response.exitCode.toUInt32
    catch e =>
      IO.eprintln ("Error: failed to write report to " ++ path ++ ": " ++ toString e)
      return Response.runtimeError.toUInt32

end Conformance.Shell

def main (arguments : List String) : IO UInt32 := do
  Conformance.Shell.write (← Conformance.Shell.answer arguments)
