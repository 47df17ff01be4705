import Conformance.Number.Rounding
import Conformance.Report.Basic
import Conformance.Text.Blank
import Conformance.Text.Columns
import Conformance.Text.Lines

/-!
Reports for people: a line per check, a table of the groups, the logs of failed checks, and the
totals. States and log headers may be coloured.
-/
namespace Conformance.Render

structure Style where
  color : Bool
  verbose : Bool

namespace Terminal

def rule : String := String.ofList (List.replicate 80 '-')

/-- A text between the sequences that switch a colour on and off. -/
def colored (style : Style) (code text : String) : String :=
  if style.color then "\x1b[" ++ code ++ "m" ++ text ++ "\x1b[0m" else text

def statusText (style : Style) : CheckState → String
  | .passed => colored style "32" "[ PASS ]"
  | .failed => colored style "31" "[ FAIL ]"
  | .skipped => colored style "90" "[ SKIP ]"
  | .error => colored style "31" "[ ERROR ]"
  | .aborted => colored style "33" "[ ABORTED ]"

/-- The first line of the reason; failed checks give theirs only when more is asked for. -/
def reasonText (style : Style) (r : Record) : String :=
  if r.reason.isEmpty || (r.state == .failed && !style.verbose) then ""
  else " (" ++ (Text.lines r.reason).headD "" ++ ")"

def checkLines (style : Style) (g : GroupReport) (r : Record) : String :=
  "  " ++ statusText style r.state ++ " " ++ g.name ++ "/" ++ r.testId.id ++ reasonText style r
    ++ "\n" ++
    (if style.verbose then
      String.join ((Text.lines r.output).map fun line => "      " ++ line ++ "\n")
    else "")

def row (width : Nat) (name passed failed skipped error aborted : String) : String :=
  Text.padRight width name ++ "  " ++ Text.padLeft 6 passed ++ "  " ++ Text.padLeft 6 failed ++ "  "
    ++ Text.padLeft 7 skipped ++ "  " ++ Text.padLeft 5 error ++ "  " ++ Text.padLeft 7 aborted
    ++ "\n"

/-- The first column is as wide as the longest name, counted in bytes. -/
def nameWidth (groups : List GroupReport) : Nat :=
  (groups.map (·.name.utf8ByteSize)).foldl max "GROUP".length

def table (groups : List GroupReport) : String :=
  let width := nameWidth groups
  row width "GROUP" "PASSED" "FAILED" "SKIPPED" "ERROR" "ABORTED" ++
    String.join (groups.map fun g =>
      row width g.name (toString g.summary.passed) (toString g.summary.failed)
        (toString g.summary.skipped) (toString g.summary.error) (toString g.summary.aborted))

def logBox (style : Style) (id log : String) : String :=
  let title := "LOG (" ++ id ++ ")"
  let line := String.ofList (List.replicate (title.length + 4) '-')
  line ++ "\n| " ++ colored style "36" title ++ " |\n" ++ line ++ "\n" ++
    (if log.isEmpty then "Empty log output\n" else Text.trimEnd log ++ "\n")

def totals (s : Summary) : String :=
  "SUMMARY: " ++ toString s.passed ++ " passed, " ++ toString s.failed ++ " failed, " ++
    toString s.skipped ++ " skipped, " ++ toString s.error ++ " error, " ++ toString s.aborted
    ++ " aborted\n"

def render (style : Style) (r : RunReport) : String :=
  rule ++ "\ncheckrun report\nLabel filter: " ++ r.labelFilter ++ "\nStarted: "
    ++ r.startedAt.rfc3339 "+00:00" ++ "\n" ++ rule ++ "\n\n"
    ++ String.join (r.ordered.map fun (g, record) => checkLines style g record) ++ "\n"
    ++ table r.groups ++ "\n"
    ++ String.join (r.failedLogs.map fun (id, log) => logBox style id log)
    ++ rule ++ "\n" ++ totals r.summary
    ++ "Total time: " ++ Number.thousandths 1 r.durationMs.toNat ++ "s\n"
    ++ (match r.abortReason with
      | some reason => "Run aborted: " ++ reason ++ "\n"
      | none => "")
    ++ String.join (r.errors.map fun error => "Error: " ++ error ++ "\n") ++ rule

end Terminal

end Conformance.Render
