import Conformance.Text.Ranges

/-!
White space of every script, and texts with it removed from their ends.
-/
namespace Conformance.Text

def blankRanges : List (Nat × Nat) := [
    (0x9, 0xd), (0x20, 0x20), (0x85, 0x85), (0xa0, 0xa0), (0x1680, 0x1680), (0x2000, 0x200a),
    (0x2028, 0x2029), (0x202f, 0x202f), (0x205f, 0x205f), (0x3000, 0x3000)]

def isBlank (c : Char) : Bool := inRanges blankRanges c.toNat

/-- A text is blank when it is empty or holds nothing but white space. -/
def isBlankText (s : String) : Bool := s.toList.all isBlank

def trimStart (s : String) : String := String.ofList (s.toList.dropWhile isBlank)

def trimEnd (s : String) : String :=
  String.ofList (s.toList.reverse.dropWhile isBlank).reverse

def trim (s : String) : String := trimStart (trimEnd s)

end Conformance.Text
