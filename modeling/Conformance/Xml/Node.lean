import Conformance.Xml.Escape

/-!
XML documents as trees of elements, and their text. An element without content is closed in its
own tag.
-/
namespace Conformance.Xml

inductive Node where
  | text (content : String)
  | empty (name : String) (attributes : List (String × String))
  | element (name : String) (attributes : List (String × String)) (content : List Node)

namespace Node

def attributeText : String × String → String
  | (name, value) => " " ++ name ++ "=\"" ++ escape value ++ "\""

def attributesText (attributes : List (String × String)) : String :=
  String.join (attributes.map attributeText)

mutual
def render : Node → String
  | text content => escape content
  | empty name attributes => "<" ++ name ++ attributesText attributes ++ " />"
  | element name attributes content =>
    "<" ++ name ++ attributesText attributes ++ ">" ++ renderAll content ++ "</" ++ name ++ ">"

def renderAll : List Node → String
  | [] => ""
  | node :: rest => node.render ++ renderAll rest
end

end Node

def declaration : String := "<?xml version=\"1.0\" encoding=\"UTF-8\"?>\n"

def document (root : Node) : String := declaration ++ root.render

end Conformance.Xml
