/-
  Swimlane — XML elements and their text.

  An `Element` is a tree; only `documentText` turns trees into text.  Every
  element begins on a line of its own, indented by two spaces per level, and
  all texts and attribute values are escaped there.
-/
import Swimlane.Xml.Escape

namespace Swimlane.Xml

/-- An attribute: name and value. -/
abbrev Attribute := String × String

/-- An XML element. -/
inductive Element where
  /-- A single tag. -/
  | leaf (tag : String) (attributes : List Attribute)
  /-- A text between two tags. -/
  | text (tag content : String)
  /-- Elements between two tags. -/
  | block (tag : String) (attributes : List Attribute) (children : List Element)
  deriving Repr

/-! ## Text -/

/-- An attribute, after a space. -/
def attributeChars (a : Attribute) : List Char :=
  ' ' :: a.1.toList ++ '=' :: '"' :: escape a.2.toList ++ ['"']

/-- The attributes of a tag. -/
def attributesChars (as : List Attribute) : List Char := as.flatMap attributeChars

/-- The indentation of a level. -/
def indentation (level : Nat) : List Char := List.replicate (2 * level) ' '

/-- An end tag. -/
def endTag (tag : String) : List Char := '<' :: '/' :: tag.toList ++ ['>']

mutual

/-- The lines of an element. -/
def Element.chars (level : Nat) : Element → List Char
  | .leaf tag attributes =>
    indentation level ++ '<' :: tag.toList ++ attributesChars attributes ++ [' ', '/', '>', '\n']
  | .text tag content =>
    indentation level ++ '<' :: tag.toList ++ '>' :: escape content.toList ++ endTag tag ++ ['\n']
  | .block tag attributes children =>
    indentation level ++ '<' :: tag.toList ++ attributesChars attributes ++ ['>', '\n'] ++
      elementsChars (level + 1) children ++ indentation level ++ endTag tag ++ ['\n']

/-- The lines of elements one after the other. -/
def elementsChars (level : Nat) : List Element → List Char
  | [] => []
  | e :: rest => e.chars level ++ elementsChars level rest

end

/-- The line that opens a document. -/
def declaration : String := "<?xml version=\"1.0\" encoding=\"UTF-8\"?>\n"

/-- The text of a document with the given root. -/
def documentText (root : Element) : String :=
  declaration ++ String.ofList (root.chars 0)

end Swimlane.Xml
