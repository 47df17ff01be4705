import Conformance.Text.Visible

/-!
Texts in quotation marks, as they are shown in descriptions: the mark, the backslash and every
character that cannot be shown as it is are escaped.
-/
namespace Conformance.Text

def escapeQuoted (c : Char) : List Char :=
  match c with
  | '\x00' => ['\\', '0']
  | '\t' => ['\\', 't']
  | '\r' => ['\\', 'r']
  | '\n' => ['\\', 'n']
  | '"' => ['\\', '"']
  | '\\' => ['\\', '\\']
  | c =>
    if isVisible c then [c]
    else ['\\', 'u', '\x7b'] ++ Nat.toDigits 16 c.toNat ++ ['\x7d']

def quoted (s : String) : String := "\"" ++ String.ofList (s.toList.flatMap escapeQuoted) ++ "\""

def quotedList (texts : List String) : String := "[" ++ ", ".intercalate (texts.map quoted) ++ "]"

end Conformance.Text
