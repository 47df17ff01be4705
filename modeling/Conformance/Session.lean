import Conformance.Catalog.Loading
import Conformance.Kernel.TaintCheck
import Conformance.Settings.Basic

/-!
Listing and running the checks of the program with given settings.
-/
namespace Conformance

/-- Why checks cannot be listed or run. -/
inductive SessionFault where
  | filter (fault : Label.Fault)
  | catalog (fault : Catalog.LoadFault)
  | run (fault : RunError)

namespace SessionFault

def message : SessionFault → String
  | filter fault => "could not create a label evaluator, err: " ++ fault.message
  | catalog fault => fault.message
  | run fault => fault.message

/-- The message, and those of the faults behind it. -/
def messages (f : SessionFault) : List String :=
  match f with
  | filter fault => [f.message, fault.message]
  | catalog fault => fault.messages
  | run _ => [f.message]

end SessionFault

namespace Session

def node (s : Settings) (files : FileTree) : Kernel.Node := .new files "/" s.acceptedTaints

/-- All checks of the program, with their catalog and that of the settings over it. -/
def orchestrator (s : Settings) (files : FileTree) (clock : Nat) :
    Except Catalog.LoadFault (Orchestrator Kernel.Task) := do
  let o := Orchestrator.new Kernel.catalog clock
  match s.catalog with
  | none => return Kernel.register o
  | some path => return Kernel.register (o.addCatalog (← Catalog.load files path))

/-- The filter of the settings, and the checks to which it applies. -/
def prepare (s : Settings) (files : FileTree) (clock : Nat) :
    Except SessionFault (Label.Filter × Orchestrator Kernel.Task) := do
  let filter ← s.filter.mapError .filter
  return (filter, ← (orchestrator s files clock).mapError .catalog)

def list (s : Settings) (files : FileTree) : Except SessionFault (List String) := do
  let (filter, o) ← prepare s files 0
  return o.selectedIds filter

def run (s : Settings) (files : FileTree) (clock : Nat) : Except SessionFault RunReport := do
  let (filter, o) ← prepare s files clock
  (o.run (Kernel.behaviour (node s files)) filter (some s.limit)).1.mapError .run

end Session

end Conformance
