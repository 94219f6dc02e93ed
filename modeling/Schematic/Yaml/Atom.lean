import Schematic.Number.Decimal
import Schematic.Text.Coded
import Schematic.Yaml.Moment

/-!
# Atoms

An atom is the value of a scalar.  Atoms name the entries of mappings, and this
file tells how such a name is written and which names are the same.
-/

namespace Schematic

namespace Yaml

/-- The value of a scalar. -/
inductive Atom where
  | null
  | truth (holds : Bool)
  | whole (number : Int)
  | number (number : Float)
  /-- The sign for what is no number. -/
  | nan
  | text (text : Text.Coded)
  /-- A date, or a date and a time. -/
  | date (moment : Moment)
  | bytes (bytes : List UInt8)
deriving Inhabited

namespace Atom

def byteText (quote : Char) (byte : UInt8) : List Char :=
  let code := byte.toNat
  if 0x80 ≤ code then Text.backslash :: 'x' :: Text.hexDigits 2 code
  else Text.quoteChar quote (Char.ofNat code)

def bytesText (bytes : List UInt8) : String :=
  let quote := Text.quoteFor (bytes.map fun byte => Char.ofNat byte.toNat)
  "b" ++ String.ofList (quote :: bytes.flatMap (byteText quote) ++ [quote])

/-- A value as the name of an entry. -/
def name : Atom → Text.Coded
  | .null => "None"
  | .truth true => "True"
  | .truth false => "False"
  | .whole count => toString count
  | .number measured => Number.exactText measured
  | .nan => "nan"
  | .text content => content
  | .date moment => moment.text
  | .bytes content => bytesText content

/-- The text that a value is, if all of it is characters. -/
def text? : Atom → Option String
  | .text content => content.whole?
  | _ => none

def isText (atom : Atom) (content : String) : Bool :=
  atom.text? == some content

/-- The number that a value counts as when it names an entry. -/
def quantity? : Atom → Option (Int ⊕ Float)
  | .truth holds => some (.inl (if holds then 1 else 0))
  | .whole count => some (.inl count)
  | .number measured => some (.inr measured)
  | .nan => some (.inr (0 / 0))
  | _ => none

/-- Whether a number in double precision has the value of a whole number. -/
def hasValue (measured : Float) (count : Int) : Bool :=
  match (Number.Binary64.ofFloat measured).value? with
  | some value => value.den == 1 && value.num == count
  | none => false

/-- Whether two quantities are equal, also a whole number and a number in double
precision. -/
def sameQuantity : Int ⊕ Float → Int ⊕ Float → Bool
  | .inl first, .inl second => first == second
  | .inr first, .inr second => first == second
  | .inl first, .inr second => hasValue second first
  | .inr first, .inl second => hasValue first second

/-- Whether two values name the same entry.  Numbers do if they are equal, and
a truth value counts as one or zero.  The sign for what is no number names one
entry, but other values that are no numbers differ from themselves. -/
def sameName (first second : Atom) : Bool :=
  match first, second with
  | .null, .null => true
  | .nan, .nan => true
  | .text first, .text second => first == second
  | .date first, .date second => first.same second
  | .bytes first, .bytes second => first == second
  | _, _ =>
      match first.quantity?, second.quantity? with
      | some first, some second => sameQuantity first second
      | _, _ => false

end Atom

end Yaml

end Schematic
