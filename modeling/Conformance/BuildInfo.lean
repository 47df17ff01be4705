/-!
What is known about a build of the program.
-/
namespace Conformance

structure BuildInfo where
  version : String
  commit : Option String
  date : Option String
  target : String
  compiler : Option String
  /-- The report formats besides text. -/
  formats : List String
  deriving DecidableEq, Repr

namespace BuildInfo

def programName : String := "checkrun"

def ownVersion : String := "0.1.0"

def ownFormats : List String := ["json", "junit"]

def line (label : String) : Option String → String
  | some value => label ++ value ++ "\n"
  | none => ""

/-- The compiler comes last, in a line that is not ended. -/
def text (b : BuildInfo) : String :=
  programName ++ " " ++ b.version ++ "\n" ++ line "Commit: " b.commit ++ line "Built: " b.date ++
    line "Target: " (some b.target) ++
    line "Report formats: text, "
      (if b.formats.isEmpty then none else some (", ".intercalate b.formats)) ++
    (b.compiler.map ("Rustc: " ++ ·)).getD ""

end BuildInfo

end Conformance
