import Schematic.Text.Lines

/-!
# Diagnostic reports

Every problem that a user can cause is shown as a report of several lines: a
heading, where the problem is, what it is, the input with a caret under the
offending place, and what to do about it.  This file lays these reports out.
-/

namespace Schematic

/-- Where a problem was found. -/
structure Locus where
  /-- The offset in the input, in characters. -/
  position : Option Int := none
  sourceFile : Option String := none
  /-- The notation of the circuit that has the problem. -/
  circuit : Option String := none
  source : Option String := none

/-- A problem as it is told to a user. -/
structure Diagnostic where
  heading : String
  details : String
  suggestion : String
  locus : Locus := {}

namespace Diagnostic

/-- An offset moved into a text: to its start from before it, and to its end
from behind it. -/
def clamp (source : String) (position : Int) : Nat :=
  min position.toNat source.length

/-- The source with a caret under the character at `position` on a line of its
own.  A position at the end of the source points just behind it. -/
def caretExcerpt (source : String) (position : Int) : String :=
  source ++ "\n" ++ String.ofList (List.replicate (clamp source position) ' ') ++ "^"

/-- A text that is there and not empty. -/
def filled? (text : Option String) : Option String :=
  text.filter (!·.isEmpty)

/-- The line of a labelled text, if there is one. -/
def labelled (label : String) (text : Option String) : List String :=
  text.toList.map (label ++ ·)

/-- The indented caret excerpt, behind an empty line. -/
def excerptLines (locus : Locus) : List String :=
  match filled? locus.source, locus.position with
  | some source, some position =>
      "" :: Text.indentedLines (caretExcerpt source position)
  | _, _ => []

def suggestionLines (suggestion : String) : List String :=
  if suggestion.isEmpty then []
  else "\nSuggestion:" :: Text.indentedLines suggestion

/-- The rows of a report.  Details and suggestions bring an empty line of
their own with their headings. -/
def rows (diagnostic : Diagnostic) : List String :=
  let locus := diagnostic.locus
  ["", "================ circmark: Diagnostic Report ================",
      "Error Type:     " ++ diagnostic.heading] ++
    labelled "Position:       " (locus.position.map toString) ++
    labelled "Source File:    " (filled? locus.sourceFile) ++
    labelled "Node:           " (filled? locus.circuit) ++
    ((filled? locus.source).toList.map fun source => "Input:          '" ++ source ++ "'") ++
    ["\nDetails:"] ++ Text.indentedLines diagnostic.details ++
    excerptLines locus ++ suggestionLines diagnostic.suggestion ++
    ["============================================================="]

def report (diagnostic : Diagnostic) : String :=
  Text.joinLines diagnostic.rows

end Diagnostic

end Schematic
