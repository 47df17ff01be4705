/-!
Texts filled up with spaces to a width, which counts characters.
-/
namespace Conformance.Text

def spaces (n : Nat) : String := String.ofList (List.replicate n ' ')

def padRight (width : Nat) (s : String) : String := s ++ spaces (width - s.length)

def padLeft (width : Nat) (s : String) : String := spaces (width - s.length) ++ s

end Conformance.Text
