import Schematic.Number.Decimal
import Schematic.Text.Quoted

/-!
# Values in messages

Messages mention numbers, texts and points.  This file holds the values that a
message can mention, in the two forms that they take: bare, as a part of a
sentence, and exact, as a member of another value, where texts are quoted.
-/

namespace Schematic

namespace Text

/-- A value that a message can mention. -/
inductive Value where
  | nothing
  | flag (holds : Bool)
  | whole (count : Int)
  | number (measured : Float)
  | text (content : String)
  | row (members : List Value)
deriving Inhabited

namespace Value

/-- Puts parentheses around a row of texts; a row of one keeps its comma. -/
def rowText : List String → String
  | [] => "()"
  | [single] => "(" ++ single ++ ",)"
  | members => "(" ++ ", ".intercalate members ++ ")"

mutual

def exact : Value → String
  | .nothing => "None"
  | .flag true => "True"
  | .flag false => "False"
  | .whole count => toString count
  | .number measured => Number.exactText measured
  | .text content => quoted content
  | .row members => rowText (exacts members)

def exacts : List Value → List String
  | [] => []
  | value :: rest => value.exact :: exacts rest

end

/-- The bare form of a value: a text stands for itself. -/
def bare : Value → String
  | .text content => content
  | value => value.exact

end Value

/-- A type of numbers that messages can mention. -/
class Mentionable (α : Type) where
  mention : α → Value
  /-- A number with six significant digits at most. -/
  brief : α → String

instance : Mentionable Float where
  mention := .number
  brief := Number.briefText

instance : Mentionable Rat where
  mention value := .text (toString value)
  brief := Number.briefFraction

/-- Values with the names under which a message mentions them. -/
abbrev Arguments := List (String × Value)

namespace Arguments

/-- Gives a value to a name.  A name keeps its first place in the order. -/
def set (name : String) (value : Value) : Arguments → Arguments
  | [] => [(name, value)]
  | first :: rest =>
      if first.1 = name then (name, value) :: rest
      else first :: set name value rest

/-- Gives the values one after the other; of two values for one name the later
one counts. -/
def ofPairs (pairs : List (String × Value)) : Arguments :=
  pairs.foldl (fun arguments pair => set pair.1 pair.2 arguments) []

def find? (arguments : Arguments) (name : String) : Option Value :=
  arguments.lookup name

/-- Names and values in exact form between braces. -/
def text (arguments : Arguments) : String :=
  let entries := arguments.map fun (name, value) => quoted name ++ ": " ++ value.exact
  "\x7b" ++ ", ".intercalate entries ++ "\x7d"

/-- Names and bare values in the order of the names. -/
def summary (arguments : Arguments) : String :=
  let sorted := arguments.mergeSort fun first second => decide (first.1 ≤ second.1)
  ", ".intercalate (sorted.map fun (name, value) => name ++ "=" ++ value.bare)

end Arguments

end Text

end Schematic
