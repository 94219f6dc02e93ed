import Schematic.Text.Value

/-!
# Message templates

A template is a sentence with named slots.  Filling it puts a value into every
slot, and fails at the first slot whose name has no value.
-/

namespace Schematic

namespace Text

/-- A part of a template. -/
inductive Piece where
  | words (text : String)
  | slot (name : String)
deriving DecidableEq, Repr

/-- A sentence with named slots. -/
abbrev Template := List Piece

namespace Template

/-- The template itself as a text, with the names of its slots in braces. -/
def text (template : Template) : String :=
  String.join <| template.map fun
    | .words text => text
    | .slot name => "\x7b" ++ name ++ "\x7d"

/-- The template with values in its slots, or the first name without a value. -/
def fill (arguments : Arguments) : Template → Except String String
  | [] => .ok ""
  | .words text :: rest => do
      let filled ← fill arguments rest
      return text ++ filled
  | .slot name :: rest =>
      match arguments.find? name with
      | none => .error name
      | some value => do
          let filled ← fill arguments rest
          return value.bare ++ filled

end Template

end Text

end Schematic
