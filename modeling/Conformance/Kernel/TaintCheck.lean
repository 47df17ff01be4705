import Conformance.Kernel.Node
import Conformance.Run.Orchestrator

/-!
The check that a node's kernel is not tainted, but for taints that allowed modules account for.
What cannot be read is reported as a finding, so the check itself never goes wrong.
-/
namespace Conformance.Kernel

/-- What the inspection of a node comes to: log entries and findings, in order. -/
structure Inspection where
  log : List (LogLevel × String)
  compliant : List Finding
  nonCompliant : List Finding

namespace Inspection

def empty : Inspection := ⟨[], [], []⟩

def write (i : Inspection) (level : LogLevel) (message : String) : Inspection :=
  { i with log := i.log ++ [(level, message)] }

def comply (i : Inspection) (f : Finding) : Inspection := { i with compliant := i.compliant ++ [f] }

def reject (i : Inspection) (f : Finding) : Inspection :=
  { i with nonCompliant := i.nonCompliant ++ [f] }

end Inspection

open Inspection

def taintFinding (node message bit module : String) : Finding :=
  ((Finding.kernelTaint node message false).withField "Taint Bit" bit).withField "Module Name"
    module

/-- One finding for a letter of a module. -/
def inspectLetter (node module : String) (i : Inspection) (letter : Char) : Inspection :=
  let message := letterMessage letter
  let finding := match letterBit letter with
    | .ok bit => taintFinding node message (toString bit) module
    | .error _ => (Finding.kernelTaint node message false).withField "Module Name" module
  (i.write .error ("Node " ++ Text.quoted node ++ " - module " ++ Text.quoted module ++
    " taints kernel: " ++ Text.quoted message)).reject finding

def inspectModule (node : String) (i : Inspection) (m : String × String) : Inspection :=
  m.2.toList.foldl (inspectLetter node m.1) i

/-- One finding for a bit that no module accounts for. -/
def inspectBit (node : String) (i : Inspection) (bit : Nat) : Inspection :=
  (i.write .error ("Node " ++ Text.quoted node ++ " - taint bit " ++ toString bit ++
    " is set but it is not caused by any module.")).reject
    (taintFinding node (bitMessage bit) (toString bit) "N/A")

/-- Why the taints of a mask are there, when some modules are allowed to taint. -/
def inspectModules (n : Node) (node : String) (mask : UInt64) (i : Inspection) : Inspection :=
  match n.tainters with
  | .error fault =>
    (i.write .error ("Could not get tainter modules from node " ++ Text.quoted node ++ ", err: " ++
      fault.message)).reject
      ((Finding.node node "Failed to get tainter modules" false).withField "Error" fault.message)
  | .ok (tainters, bits) =>
    let i := tainters.foldl (inspectModule node) i
    let i := (otherBits mask bits).foldl (inspectBit node) i
    if i.nonCompliant.isEmpty then
      (i.write .info ("Node " ++ Text.quoted node ++ " passed the tainted kernel check")).comply
        (Finding.node node "Passed the tainted kernel check" true)
    else i

def inspectMask (n : Node) (node : String) (mask : UInt64) (i : Inspection) : Inspection :=
  if mask = 0 then
    (i.write .info ("Node " ++ Text.quoted node ++ " has no non-approved kernel taints.")).comply
      (Finding.node node "Node has no non-approved kernel taints" true)
  else
    let messages := maskMessages mask
    let i := i.write .info ("Node " ++ Text.quoted node ++ " kernel is tainted. Taints mask=" ++
      toString mask ++ " - Decoded taints: " ++ Text.quotedList messages)
    if n.allowList.isEmpty then
      let taints := ",".intercalate messages
      let reason := "Node contains taints not covered by module allowlist"
      (i.write .error ("Node " ++ Text.quoted node ++
        " contains taints not covered by module allowlist. Taints: " ++ Text.quoted taints ++
        " (mask=" ++ toString mask ++ ")")).reject
        (((Finding.node node reason false).withField "Taint Mask" (toString mask)).withField
          "Taints" taints)
    else inspectModules n node mask i

def inspect (n : Node) : Inspection :=
  let node := n.name
  let i := (empty.write .info ("Modules allowlist: \x7b" ++
    ", ".intercalate (n.allowList.map Text.quoted) ++ "\x7d")).write .info
    ("Testing node " ++ Text.quoted node)
  match n.mask with
  | .error fault =>
    let failure := "Failed to retrieve kernel taint information from node"
    (i.write .error (failure ++ " " ++ Text.quoted node ++ ", err: " ++ fault.message)).reject
      ((Finding.node node failure false).withField "Error" fault.message)
  | .ok mask => inspectMask n node mask i

/-- The callbacks of the check. -/
inductive Task where
  | inspect
  | lookForMask
  deriving DecidableEq, Repr

def writeAll (r : CheckRef) : List (LogLevel × String) → Callback Task Unit
  | [] => .done ()
  | (level, message) :: rest => do
    Callback.ask (.write r level message)
    writeAll r rest

def report (r : CheckRef) (i : Inspection) : Callback Task (Except Failure Unit) := do
  writeAll r i.log
  Callback.ask (.judge r (.findings i.compliant i.nonCompliant))
  return .ok ()

def behaviour (n : Node) : Behaviour Task where
  act task call := match task, call with
    | .inspect, .body r => report r (inspect n)
    | _, _ => .done (.ok ())
  excuse task _ := match task with
    | .lookForMask => .done n.skipReason
    | .inspect => .done none

def suite : String := "platform-alteration"

def testId : String := "tainted-node-kernel"

def checkId : String := Catalog.checkId suite testId

def check : Check Task :=
  Check.build checkId [Catalog.commonTag, checkId] [.skip .lookForMask, .body .inspect]

/-- What is documented about the check. -/
def draft : Catalog.Draft where
  testId := testId
  suite := suite
  description := "Ensures that the Node(s) hosting workloads do not utilize tainted kernels. " ++
    "This test case is especially important to support Highly Available workloads, since when a " ++
    "workload is re-instantiated on a backup Node, that Node's kernel may not have the same hacks."
  remediation := "Test failure indicates that the underlying Node's kernel is tainted. Ensure " ++
    "that you have not altered underlying Node(s) kernels in order to run the workload."
  exceptionProcess := "If taint is necessary, document details of the taint and why it's needed " ++
    "by workload or environment."
  reference := "https://redhat-best-practices-for-k8s.github.io/guide/" ++
    "#k8s-best-practices-platform-configuration"
  qe := false
  categories := .all .mandatory
  tags := [Catalog.commonTag]

def catalog : Catalog := .ofDrafts [draft]

/-- The orchestrator with the check in it. -/
def register (o : Orchestrator Task) : Orchestrator Task :=
  let (g, o) := o.group suite
  o.register g check

end Conformance.Kernel
