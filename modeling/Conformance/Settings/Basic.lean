import Conformance.Catalog.Entry
import Conformance.Files.Tree
import Conformance.Label.Filter
import Conformance.Render.Format

/-!
The settings of a run.
-/
namespace Conformance

structure Settings where
  labelFilter : String
  /-- In seconds, and not zero. -/
  timeout : UInt64
  format : Render.Format
  /-- The file for the report, which otherwise goes to standard output. -/
  output : Option String
  /-- A file with further catalog entries. -/
  catalog : Option String
  /-- The tags that a label filter of `all` stands for. -/
  tags : List String
  handleSignals : Bool
  logLevel : Option String
  /-- Modules that may taint the kernel. -/
  acceptedTaints : List String
  noColor : Bool
  verbose : Bool
  deriving DecidableEq, Repr

inductive SettingsFault where
  | unreadable (path : String) (fault : FileFault)
  | invalid (path : String)
  | zeroTimeout
  deriving DecidableEq, Repr

namespace SettingsFault

def message : SettingsFault → String
  | unreadable path fault => "failed to read config " ++ path ++ ": " ++ fault.message
  | invalid path => "invalid config " ++ path ++ ": "
  | zeroTimeout => "timeout must be greater than zero"

/-- The message, and that of the fault behind it. -/
def messages (f : SettingsFault) : List String :=
  match f with
  | unreadable _ fault => [f.message, fault.message]
  | _ => [f.message]

end SettingsFault

namespace Settings

/-- One day. -/
def defaultTimeout : UInt64 := 86400

def default : Settings where
  labelFilter := "all"
  timeout := defaultTimeout
  format := .text
  output := none
  catalog := none
  tags := Catalog.defaultTags
  handleSignals := true
  logLevel := none
  acceptedTaints := []
  noColor := false
  verbose := false

def filter (s : Settings) : Except Label.Fault Label.Filter :=
  Label.Filter.parse (Label.expandAll s.labelFilter s.tags)

/-- In nanoseconds. -/
def limit (s : Settings) : Nat := s.timeout.toNat * 1000000000

def style (s : Settings) : Render.Style := ⟨!s.noColor, s.verbose⟩

end Settings

end Conformance
