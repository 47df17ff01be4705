import Conformance.Files.Tree
import Conformance.Kernel.Taint
import Conformance.Number.Unsigned
import Conformance.Text.Blank
import Conformance.Text.Quoted

/-!
The taint state of a node, read from the files below a root: the mask, the letters of each module,
and the node's name. Modules on an allow list may taint the kernel.
-/
namespace Conformance.Kernel

inductive NodeFault where
  | unreadable (path : String) (fault : FileFault)
  | invalidMask (value : String) (fault : Number.NumeralFault)
  | letter (fault : LetterFault)
  deriving DecidableEq, Repr

def NodeFault.message : NodeFault → String
  | unreadable path fault => "failed to read " ++ path ++ ": " ++ fault.message
  | invalidMask value fault =>
    "failed to decode taints mask " ++ Text.quoted value ++ ": " ++ fault.message
  | letter fault => fault.message

structure Node where
  files : FileTree
  root : FilePath
  /-- The names are in order, each once. -/
  allowed : Keyed Unit

namespace Node

def new (files : FileTree) (root : String) (allowed : List String) : Node :=
  ⟨files, .ofText root, .ofList (allowed.map fun module => (module, ()))⟩

def allowList (n : Node) : List String := n.allowed.keys

def maskPath (n : Node) : FilePath := n.root.join "proc/sys/kernel/tainted"

def hasMask (n : Node) : Bool := n.files.isFile n.maskPath

def read (n : Node) (p : FilePath) : Except NodeFault String :=
  (n.files.readText p).mapError (.unreadable p.text)

/-- The first name that is not blank, of the files that can be read. -/
def name (n : Node) : String :=
  let names := ["etc/hostname", "proc/sys/kernel/hostname"].filterMap fun file =>
    ((n.files.readText (n.root.join file)).toOption).map Text.trim
  (names.find? (!·.isEmpty)).getD "localhost"

/-- White space in the mask is passed over. -/
def mask (n : Node) : Except NodeFault UInt64 := do
  let text ← n.read n.maskPath
  let value := String.ofList (text.toList.filter (!Text.isBlank ·))
  (Number.parseUnsigned value).mapError (.invalidMask value)

/-- The modules so far with those in the directory that have taint letters. -/
def modulesFrom (n : Node) (directory : FilePath) (modules : Keyed String) :
    List (List UInt8) → Except NodeFault (Keyed String)
  | [] => .ok modules
  | entry :: rest =>
    let file := (directory.child entry).join "taint"
    if n.files.isFile file then do
      let letters := Text.trim (← n.read file)
      modulesFrom n directory
        (if letters.isEmpty then modules else modules.insert (Text.ofUtf8Lossy entry) letters) rest
    else modulesFrom n directory modules rest

/-- The taint letters of each module that has any. -/
def modules (n : Node) : Except NodeFault (Keyed String) := do
  let directory := n.root.join "sys/module"
  let entries ← (n.files.list directory).mapError (.unreadable directory.text)
  n.modulesFrom directory .empty entries

/-- The tainting modules that are not allowed, and the bits of all tainting modules. -/
def tainters (n : Node) : Except NodeFault (List (String × String) × List Nat) := do
  let all ← n.modules
  let bits ← (modulesBits all).mapError .letter
  return (all.entries.filter fun (module, _) => (n.allowed.get? module).isNone, bits)

/-- Only Linux has a taint mask. -/
def skipReason (n : Node) : Option String :=
  if n.hasMask then none else some (n.maskPath.text ++ " not found, not running on Linux")

end Node

end Conformance.Kernel
