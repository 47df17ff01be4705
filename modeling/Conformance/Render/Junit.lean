import Conformance.Number.Rounding
import Conformance.Report.Basic
import Conformance.Xml.Node

/-!
Reports as JUnit documents: a test suite per group, a test case per recorded check.
-/
namespace Conformance.Render.Junit

open Xml

/-- The end of a line and the indentation of the next one. -/
def newline (spaces : Nat) : Node := .text ("\n" ++ String.ofList (List.replicate spaces ' '))

def counts (s : Summary) : List (String × String) :=
  [("tests", toString s.total), ("failures", toString s.failed), ("errors", toString s.broken),
    ("skipped", toString s.skipped)]

/-- What a test case that did not pass contains. -/
def outcome? (r : Record) : Option Node :=
  match r.state with
  | .passed => none
  | .failed => some (.element "failure" [("message", "check failed")] [.text r.reason])
  | .skipped => some (.empty "skipped" [("message", r.reason)])
  | .error => some (.empty "error" [("type", "error"), ("message", r.reason)])
  | .aborted => some (.empty "error" [("type", "aborted"), ("message", r.reason)])

def testCase (group id : String) (r : Record) : Node :=
  let attributes :=
    [("name", id), ("classname", "checkrun." ++ group), ("time", toString r.duration)]
  match outcome? r with
  | none => .empty "testcase" attributes
  | some outcome => .element "testcase" attributes [newline 6, outcome, newline 4]

/-- Elements on lines of their own, inside an element that is indented less. -/
def block (indentation : Nat) (elements : List Node) : List Node :=
  elements.flatMap (fun e => [newline (indentation + 2), e]) ++ [newline indentation]

def suite (results : Results) (g : GroupReport) : Node :=
  .element "testsuite" (("name", g.name) :: counts g.summary)
    (block 2 (g.checkIds.filterMap fun id => (results.get? id).map (testCase g.name id)))

def document (r : RunReport) : Node :=
  .element "testsuites"
    (counts r.summary ++ [("time", Number.thousandths 3 r.durationMs.toNat)])
    (block 0 (r.groups.map (suite r.results)))

def render (r : RunReport) : String := Xml.document (document r)

end Conformance.Render.Junit
