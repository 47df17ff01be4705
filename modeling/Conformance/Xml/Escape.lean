/-!
Text inside XML documents: the characters that are markup are written as the predefined entities.
-/
namespace Conformance.Xml

def entity? : Char → Option String
  | '&' => some "&amp;"
  | '<' => some "&lt;"
  | '>' => some "&gt;"
  | '"' => some "&quot;"
  | '\'' => some "&apos;"
  | _ => none

def escapeChar (c : Char) : List Char :=
  match entity? c with
  | some text => text.toList
  | none => [c]

def escapeChars (cs : List Char) : List Char := cs.flatMap escapeChar

theorem escapeChars_append (cs ds : List Char) :
    escapeChars (cs ++ ds) = escapeChars cs ++ escapeChars ds := by
  simp [escapeChars]

def escape (s : String) : String := String.ofList (escapeChars s.toList)

theorem escape_append (s t : String) : escape (s ++ t) = escape s ++ escape t := by
  simp [escape, escapeChars_append]

end Conformance.Xml
