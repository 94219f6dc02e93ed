import Schematic.Text.Coded

/-!
# Markup

A drawing is written as a tree of elements with attributes, a text and
children.  The characters that would end a text or an attribute, and line ends
in attributes, are written as references; an element without content closes
itself.
-/

namespace Schematic

/-- The names and values of attributes. -/
abbrev Attributes := List (String × Text.Coded)

/-- An element of a drawing in markup. -/
inductive Markup where
  /-- A tag with attributes, and a text in front of the children. -/
  | element (tag : String) (attributes : Attributes) (text : String) (children : List Markup)
deriving Repr, Inhabited

namespace Markup

def group (tag : String) (attributes : Attributes) (children : List Markup) :
    Markup :=
  .element tag attributes "" children

def leaf (tag : String) (attributes : Attributes) : Markup :=
  .element tag attributes "" []

def textChar (char : Char) : List Char :=
  if char = '&' then "&amp;".toList
  else if char = '<' then "&lt;".toList
  else if char = '>' then "&gt;".toList
  else [char]

/-- How a character stands in the value of an attribute. -/
def attributeChar (char : Char) : List Char :=
  if char = '\x22' then "&quot;".toList
  else if char = '\r' then "&#13;".toList
  else if char = '\n' then "&#10;".toList
  else if char = '\t' then "&#09;".toList
  else textChar char

/-- A text as it is written between tags. -/
def escapedText (text : String) : String :=
  String.ofList (text.toList.flatMap textChar)

/-- A text as it is written between the quotes of an attribute. -/
def escapedAttribute (text : String) : String :=
  String.ofList (text.toList.flatMap attributeChar)

def attributesText (attributes : Attributes) : Text.Coded :=
  Text.Coded.join <| attributes.map fun (name, value) =>
    (" " ++ name ++ "=\"" : String) ++ value.map escapedAttribute ++ "\""

mutual

def text : Markup → Text.Coded
  | .element tag attributes content children =>
      let start := ("<" ++ tag : String) ++ attributesText attributes
      if content.isEmpty && children.isEmpty then start ++ " />"
      else
        start ++ (">" ++ escapedText content : String) ++ texts children ++
          ("</" ++ tag ++ ">" : String)

def texts : List Markup → Text.Coded
  | [] => ""
  | markup :: rest => markup.text ++ texts rest

end

end Markup

end Schematic
