import Schematic.Yaml.Moment

/-!
# Forms of plain scalars

A plain scalar is a truth value, a number, a date or nothing at all if it has
the form of one, and a text otherwise.  This file recognises these forms.
-/

namespace Schematic

namespace Yaml

/-- What a scalar is taken for. -/
inductive ScalarForm where
  | null
  | truth
  | whole
  | number
  | date
  | merge
  | standIn
  | sign
  | text
deriving DecidableEq, Repr

namespace PlainForm

def unsigned : List Char → List Char
  | '+' :: rest => rest
  | '-' :: rest => rest
  | rest => rest

/-- Whether a character is a decimal digit or an underscore. -/
def isDigitOrLine (char : Char) : Bool :=
  char.isDigit || char == '_'

/-- Whether there is something, and all of it satisfies a test. -/
def allOf (test : Char → Bool) (text : List Char) : Bool :=
  !text.isEmpty && text.all test

/-- Whether a character is a hexadecimal digit or an underscore. -/
def isHexOrLine (char : Char) : Bool :=
  isDigitOrLine char || ('a' ≤ char && char ≤ 'f') || ('A' ≤ char && char ≤ 'F')

/-- Whether a character is an octal digit or an underscore. -/
def isOctalOrLine (char : Char) : Bool :=
  ('0' ≤ char && char ≤ '7') || char == '_'

/-- Whether a character is a binary digit or an underscore. -/
def isBinaryOrLine (char : Char) : Bool :=
  char == '0' || char == '1' || char == '_'

/-- The rest behind one part of a time: a colon and a number below sixty. -/
def sixtieth? : List Char → Option (List Char)
  | ':' :: first :: second :: rest =>
      if '0' ≤ first && first ≤ '5' && second.isDigit then some rest
      else if first.isDigit then some (second :: rest)
      else none
  | [':', digit] => if digit.isDigit then some [] else none
  | _ => none

/-- The rest behind parts of a time; `steps` bounds their number. -/
def sixtieths : (steps : Nat) → List Char → List Char
  | 0, text => text
  | steps + 1, text =>
      match sixtieth? text with
      | some rest => sixtieths steps rest
      | none => text

/-- The rest behind one or more parts of a time. -/
def sixtiethsOrMore? (text : List Char) : Option (List Char) :=
  (sixtieth? text).map fun rest => sixtieths rest.length rest

/-- Whether a text without its sign is a whole number. -/
def isUnsignedWhole : List Char → Bool
  | ['0'] => true
  | '0' :: 'b' :: rest => allOf isBinaryOrLine rest
  | '0' :: 'x' :: rest => allOf isHexOrLine rest
  | '0' :: rest => allOf isOctalOrLine rest
  | first :: rest =>
      first.isDigit &&
        (let behind := rest.dropWhile isDigitOrLine
        behind.isEmpty || sixtiethsOrMore? behind == some [])
  | [] => false

/-- Whether a text is nothing or an exponent with its sign. -/
def isExponent : List Char → Bool
  | [] => true
  | letter :: sign :: digits =>
      (letter == 'e' || letter == 'E') && (sign == '-' || sign == '+') &&
        allOf Char.isDigit digits
  | _ => false

/-- Whether a text is a fraction behind its point, with or without an
exponent. -/
def isFraction (text : List Char) : Bool :=
  isExponent (text.dropWhile isDigitOrLine)

/-- Whether a text without its sign is a number with a point. -/
def isUnsignedNumber : List Char → Bool
  | [] => false
  | first :: rest =>
      first.isDigit &&
        (match rest.dropWhile isDigitOrLine with
        | '.' :: fraction => isFraction fraction
        | behind =>
            match sixtiethsOrMore? behind with
            | some ('.' :: fraction) => fraction.all isDigitOrLine
            | _ => false)

/-- Whether a text is a number with a point, an infinity or no number. -/
def isNumber (text : List Char) : Bool :=
  isUnsignedNumber (unsigned text) ||
    [".inf", ".Inf", ".INF"].contains (String.ofList (unsigned text)) ||
    [".nan", ".NaN", ".NAN"].contains (String.ofList text) ||
    (match text with
    | '.' :: first :: rest => first.isDigit && isFraction rest
    | _ => false)

def truths : List String :=
  ["yes", "Yes", "YES", "no", "No", "NO", "true", "True", "TRUE", "false", "False", "FALSE",
    "on", "On", "ON", "off", "Off", "OFF"]

def nulls : List String :=
  ["~", "null", "Null", "NULL", ""]

/-! ## All forms -/

/-- The form of a text without a line feed at its end. -/
def ofChars (chars : List Char) : ScalarForm :=
  let text := String.ofList chars
  if truths.contains text then .truth
  else if isNumber chars then .number
  else if isUnsignedWhole (unsigned chars) then .whole
  else if text == "<<" then .merge
  else if nulls.contains text then .null
  else if (Moment.ofText? chars).any fun moment => moment.padded || moment.time.isSome then .date
  else if text == "=" then .standIn
  else if text == "!" || text == "&" || text == "*" then .sign
  else .text

/-- The form of a plain scalar.  A line feed at its end does not count, but a
line feed alone is a text. -/
def ofText (text : String) : ScalarForm :=
  match text.toList.reverse with
  | ['\n'] => .text
  | '\n' :: rest => ofChars rest.reverse
  | _ => ofChars text.toList

end PlainForm

end Yaml

end Schematic
