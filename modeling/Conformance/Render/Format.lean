import Conformance.Render.Junit
import Conformance.Render.Terminal
import Conformance.Report.Json

/-!
The formats in which a report can be written.
-/
namespace Conformance.Render

inductive Format where
  | text
  | json
  | junit
  deriving DecidableEq, Repr

namespace Format

def all : List Format := [text, json, junit]

def name : Format → String
  | text => "text"
  | json => "json"
  | junit => "junit"

def ofName? (s : String) : Option Format := all.find? (·.name == s)

def render (format : Format) (style : Style) (r : RunReport) : String :=
  match format with
  | text => Terminal.render style r
  | json => r.document.indented
  | junit => Junit.render r

end Format

end Conformance.Render
