import Conformance.Keyed

/-!
Kernel taints. The kernel reports a taint as a bit of its mask, and a module reports it as a letter.
A letter may belong to several bits and then stands for the lowest.
-/
namespace Conformance.Kernel

structure Taint where
  bit : Nat
  description : String
  letters : List Char

def unprivilegedBpf : String :=
  "BPF syscall has either been configured or enabled for unprivileged users/programs"

/-- The known taints, by bit. -/
def knownTaints : List Taint := [
  ⟨0, "proprietary module was loaded", ['G', 'P']⟩,
  ⟨1, "module was force loaded", ['F']⟩,
  ⟨2, "kernel running on an out of specification system", ['S']⟩,
  ⟨3, "module was force unloaded", ['R']⟩,
  ⟨4, "processor reported a Machine Check Exception (MCE)", ['M']⟩,
  ⟨5, "bad page referenced or some unexpected page flags", ['B']⟩,
  ⟨6, "taint requested by userspace application", ['U']⟩,
  ⟨7, "kernel died recently, i.e. there was an OOPS or BUG", ['D']⟩,
  ⟨8, "ACPI table overridden by user", ['A']⟩,
  ⟨9, "kernel issued warning", ['W']⟩,
  ⟨10, "staging driver was loaded", ['C']⟩,
  ⟨11, "workaround for bug in platform firmware applied", ['I']⟩,
  ⟨12, "externally-built (\"out-of-tree\") module was loaded", ['O']⟩,
  ⟨13, "unsigned module was loaded", ['E']⟩,
  ⟨14, "soft lockup occurred", ['L']⟩,
  ⟨15, "kernel has been live patched", ['K']⟩,
  ⟨16, "auxiliary taint, defined for and used by distros", ['X']⟩,
  ⟨17, "kernel was built with the struct randomization plugin", ['T']⟩,
  ⟨18, "an in-kernel test has been run", ['N']⟩,
  ⟨27, "Red Hat extension: Hardware for which support has been removed. / OMGZOMBIES easter egg",
    ['Z', 'r', 'h']⟩,
  ⟨28, "Red Hat extension: Unsupported hardware. Refer to \"UNSUPPORTED HARDWARE DEVICE:\" " ++
    "kernel log entry for details", ['H']⟩,
  ⟨29, "Red Hat extension: Technology Preview code was loaded; cf. Technology Preview features " ++
    "support scope description. Refer to \"TECH PREVIEW:\" kernel log entry for details",
    ['T', 't']⟩,
  ⟨30, unprivilegedBpf, ['u']⟩,
  ⟨31, unprivilegedBpf, ['u']⟩]

def ofBit? (bit : Nat) : Option Taint := knownTaints.find? (·.bit == bit)

def ofLetter? (letter : Char) : Option Taint := knownTaints.find? (·.letters.contains letter)

def bitMessage (bit : Nat) : String :=
  let description := match ofBit? bit with
    | some taint => taint.description
    | none => "reserved"
  description ++ " (tainted bit " ++ toString bit ++ ")"

/-- The bits set in a mask, the lowest first. -/
def setBits (mask : UInt64) : List Nat := (List.range 64).filter fun bit => mask.toNat.testBit bit

def maskMessages (mask : UInt64) : List String := (setBits mask).map bitMessage

def letterMessage (letter : Char) : String :=
  match ofLetter? letter with
  | some taint => taint.description ++ " (taint letter:" ++ String.singleton letter ++ ", bit:" ++
      toString taint.bit ++ ")"
  | none => "unknown taint (letter " ++ String.singleton letter ++ ")"

def letterMessages (letters : String) : List String := letters.toList.map letterMessage

inductive LetterFault where
  | unknown (letter : Char)
  | ofModule (module : String) (letter : Char)
  deriving DecidableEq, Repr

def LetterFault.message : LetterFault → String
  | unknown letter =>
    "letter " ++ String.singleton letter ++ " does not belong to any known kernel taint"
  | ofModule module letter =>
    "module " ++ module ++ " has invalid taint letter " ++ String.singleton letter

def letterBit (letter : Char) : Except LetterFault Nat :=
  match ofLetter? letter with
  | some taint => .ok taint.bit
  | none => .error (.unknown letter)

/-- A bit in an ascending list of bits. -/
def insertBit (bit : Nat) : List Nat → List Nat
  | [] => [bit]
  | b :: rest => if bit < b then bit :: b :: rest else if b < bit then b :: insertBit bit rest
    else b :: rest

/-- The bits so far with those that the letters of a module stand for. -/
def moduleBitsFrom (module : String) (bits : List Nat) : List Char → Except LetterFault (List Nat)
  | [] => .ok bits
  | letter :: rest =>
    match letterBit letter with
    | .ok bit => moduleBitsFrom module (insertBit bit bits) rest
    | .error _ => .error (.ofModule module letter)

def modulesBitsFrom (bits : List Nat) : List (String × String) → Except LetterFault (List Nat)
  | [] => .ok bits
  | (module, letters) :: rest => do
    modulesBitsFrom (← moduleBitsFrom module bits letters.toList) rest

/-- Every bit that some module stands for, ascending, or the first unknown letter in the order of
the modules. -/
def modulesBits (modules : Keyed String) : Except LetterFault (List Nat) :=
  modulesBitsFrom [] modules.entries

/-- The bits set in the mask that are not among those given. -/
def otherBits (mask : UInt64) (bits : List Nat) : List Nat :=
  (setBits mask).filter fun bit => !bits.contains bit

end Conformance.Kernel
