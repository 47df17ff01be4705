/-!
The lines of a text. A line ends with a line feed, a carriage return before which belongs to the
end; what follows the last line feed is a line unless it is empty.
-/
namespace Conformance.Text

/-- The lines of `cs`, where `read` is what has been read of the first, the latest first. -/
def linesFrom (read : List Char) : List Char → List String
  | [] => if read.isEmpty then [] else [String.ofList read.reverse]
  | '\n' :: rest =>
    let line := match read with
      | '\r' :: before => before
      | _ => read
    String.ofList line.reverse :: linesFrom [] rest
  | c :: rest => linesFrom (c :: read) rest

def lines (s : String) : List String := linesFrom [] s.toList

end Conformance.Text
