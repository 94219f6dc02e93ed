import Schematic.Text.DecimalDigit
import Schematic.Text.Lines
import Schematic.Yaml.Atom
import Schematic.Yaml.Fault
import Schematic.Yaml.PlainForm

/-!
# Values of scalars

The text of a scalar becomes a value of the form that it was taken for.  A tag
can demand a form that the text does not have, and then there may be no value.
-/

namespace Schematic

namespace Yaml

namespace ScalarValue

def withoutLines (text : String) : List Char :=
  text.toList.filter (· != '_')

/-- Whether a character may stand around a number: white space, but none of the
characters that separate records. -/
def isAround (char : Char) : Bool :=
  Text.isBlank char && !('\x1c' ≤ char && char ≤ '\x1f')

def trimmed (text : List Char) : List Char :=
  ((text.dropWhile isAround).reverse.dropWhile isAround).reverse

/-- The value of a digit in some base up to sixteen. -/
def digit? (base : Nat) (char : Char) : Option Nat :=
  let value :=
    if char.isDigit then some (char.toNat - '0'.toNat)
    else if 'a' ≤ char ∧ char ≤ 'f' then some (char.toNat - 'a'.toNat + 10)
    else if 'A' ≤ char ∧ char ≤ 'F' then some (char.toNat - 'A'.toNat + 10)
    else none
  value.filter (· < base)

/-- The number that one or more digits stand for. -/
def digits? (base : Nat) (text : List Char) : Option Nat :=
  if text.isEmpty then none
  else text.foldlM (fun number char => (base * number + ·) <$> digit? base char) 0

/-- The letter that may stand behind a zero in front of digits. -/
def baseLetter? : Nat → Option Char
  | 2 => some 'b'
  | 8 => some 'o'
  | 16 => some 'x'
  | _ => none

/-- Digits without the sign of their base in front of them. -/
def withoutBase (base : Nat) (text : List Char) : List Char :=
  match text, baseLetter? base with
  | '0' :: second :: rest, some letter => if second.toLower == letter then rest else text
  | _, _ => text

/-- How many decimal digits a number may have. -/
def decimalLimit : Nat := 4300

/-- The whole number with an optional sign in some base. -/
def signed? (base : Nat) (text : List Char) : Option Int :=
  let text := Text.withPlainDigits (trimmed text)
  let digits := withoutBase base (PlainForm.unsigned text)
  if base == 10 && decimalLimit < digits.length then none
  else
    (digits? base digits).map fun number =>
      if text.head? == some '-' then Int.neg number else number

def splitAtColons (text : List Char) : List (List Char) :=
  text.foldr (fun char parts =>
    if char == ':' then [] :: parts
    else match parts with
      | part :: others => (char :: part) :: others
      | [] => [[char]]) [[]]

/-- A number or the fault that there is none. -/
def orNoNumber {α : Type} (number : Option α) : Except Fault α :=
  match number with
  | some number => .ok number
  | none => .error .noNumber

/-- The size of a whole number whose sign has been taken off. -/
def wholeSize (text : List Char) : Except Fault Int :=
  match text with
  | ['0'] => .ok 0
  | '0' :: 'b' :: rest => orNoNumber (signed? 2 rest)
  | '0' :: 'x' :: rest => orNoNumber (signed? 16 rest)
  | '0' :: _ => orNoNumber (signed? 8 text)
  | [] => .error .noDigits
  | _ =>
      if text.contains ':' then do
        let parts ← orNoNumber ((splitAtColons text).mapM (signed? 10))
        return parts.foldl (fun total part => 60 * total + part) 0
      else orNoNumber (signed? 10 text)

/-- The whole number that a scalar stands for. -/
def whole (text : String) : Except Fault Atom :=
  match withoutLines text with
  | [] => .error .noDigits
  | first :: rest =>
      let unsigned := if first == '-' || first == '+' then rest else first :: rest
      (wholeSize unsigned).map fun size => .whole (if first == '-' then -size else size)

/-- The value of `digits * 10 ^ exponent` in double precision. -/
def scaled (digits : List Char) (exponent : Int) : Option Float :=
  (digits? 10 digits).map fun number =>
    let leading := exponent + digits.length
    if number == 0 || leading < -400 then 0
    else if 400 < leading - ((digits.takeWhile (· == '0')).length : Int) then 1 / 0
    else
      match exponent with
      | .ofNat exponent => Float.ofScientific number false exponent
      | .negSucc places => Float.ofScientific number true (places + 1)

def exponent? (text : List Char) : Option Int :=
  match text with
  | [] => some 0
  | letter :: rest =>
      if letter == 'e' then
        (digits? 10 (PlainForm.unsigned rest)).map fun number =>
          if rest.head? == some '-' then Int.neg number else number
      else none

/-- The number that a decimal without a sign stands for. -/
def decimal? (text : List Char) : Option Float :=
  let whole := text.takeWhile Char.isDigit
  let behind := text.dropWhile Char.isDigit
  let (places, tail) :=
    match behind with
    | '.' :: rest => (rest.takeWhile Char.isDigit, rest.dropWhile Char.isDigit)
    | _ => ([], behind)
  (exponent? tail).bind fun exponent => scaled (whole ++ places) (exponent - places.length)

/-- The number that a text in small letters with an optional sign stands for. -/
def measured? (text : List Char) : Option Float :=
  let text := Text.withPlainDigits (trimmed text)
  let unsigned := PlainForm.unsigned text
  let size :=
    if ["inf", "infinity"].contains (String.ofList unsigned) then some (1 / 0)
    else if unsigned == "nan".toList then some (0 / 0)
    else decimal? unsigned
  size.map fun size => if text.head? == some '-' then -size else size

/-- The number of which each part but the last counts sixty times the next. -/
def ofSixtieths (parts : List Float) : Except Fault Float := do
  let (total, _) ← parts.reverse.foldlM (fun (total, weight) part =>
    let unit := Float.ofNat weight
    if unit.isFinite then .ok (total + part * unit, 60 * weight)
    else .error .tooManyParts) (0.0, 1)
  return total

/-- The size of a number whose sign has been taken off. -/
def numberSize (text : List Char) : Except Fault Float :=
  if text == ".inf".toList then .ok (1 / 0)
  else if text.contains ':' then do
    let parts ← orNoNumber ((splitAtColons text).mapM measured?)
    ofSixtieths parts
  else orNoNumber (measured? text)

def number (text : String) : Except Fault Atom :=
  match (withoutLines text).map Char.toLower with
  | [] => .error .noDigits
  | first :: rest =>
      let unsigned := if first == '-' || first == '+' then rest else first :: rest
      if unsigned == ".nan".toList then .ok .nan
      else
        (numberSize unsigned).map fun size =>
          .number (if first == '-' then -1 * size else size)

/-- The truth value that a scalar stands for. -/
def truth (text : String) : Except Fault Atom :=
  let lower := text.map Char.toLower
  if ["yes", "true", "on"].contains lower then .ok (.truth true)
  else if ["no", "false", "off"].contains lower then .ok (.truth false)
  else .error .noTruth

/-- The date that a scalar stands for.  A line feed at its end does not
count. -/
def date (text : String) : Except Fault Atom :=
  let chars :=
    match text.toList.reverse with
    | '\n' :: rest => rest.reverse
    | _ => text.toList
  match Moment.ofText? chars with
  | none => .error .noDate
  | some moment => if moment.isReal then .ok (.date moment) else .error .noMoment

/-- The six bits that a character of a written byte sequence stands for. -/
def sixBits? (char : Char) : Option Nat :=
  if 'A' ≤ char ∧ char ≤ 'Z' then some (char.toNat - 'A'.toNat)
  else if 'a' ≤ char ∧ char ≤ 'z' then some (char.toNat - 'a'.toNat + 26)
  else if char.isDigit then some (char.toNat - '0'.toNat + 52)
  else if char == '+' then some 62
  else if char == '/' then some 63
  else none

/-- The bytes that groups of four characters stand for.  Other characters do not
count; `held` are the characters of a group that is not complete, and `pads` is
the number of signs for missing characters behind it. -/
def bytesFrom : (held : List Nat) → (pads : Nat) → List Char → Option (List UInt8)
  | [], _, [] => some []
  | _ :: _, _, [] => none
  | held, pads, char :: rest =>
      if char == '=' then
        match held with
        | [first, second] =>
            if pads == 0 then bytesFrom held 1 rest
            else some [(first * 4 + second / 16).toUInt8]
        | [first, second, third] =>
            some [(first * 4 + second / 16).toUInt8, (second * 16 + third / 4).toUInt8]
        | _ => bytesFrom held pads rest
      else
        match sixBits? char, held with
        | none, _ => bytesFrom held pads rest
        | some fourth, [first, second, third] =>
            (bytesFrom [] 0 rest).map fun others =>
              (first * 4 + second / 16).toUInt8 :: (second * 16 + third / 4).toUInt8 ::
                (third * 64 + fourth).toUInt8 :: others
        | some next, _ => bytesFrom (held ++ [next]) 0 rest

def bytes (text : Text.Coded) : Except Fault Atom :=
  let chars := text.replaced.toList
  if chars.all fun char => char.toNat < 0x80 then
    match bytesFrom [] 0 chars with
    | some bytes => .ok (.bytes bytes)
    | none => .error .malformed
  else .error .malformed

/-- The value of a scalar of the given form.  Only a text has a value if it has
halves of characters, as the sign that replaces them is in none of the other
forms. -/
def ofForm (form : ScalarForm) (text : Text.Coded) : Except Fault Atom :=
  match form with
  | .null => .ok .null
  | .truth => truth text.replaced
  | .whole => whole text.replaced
  | .number => number text.replaced
  | .date => date text.replaced
  | .text => .ok (.text text)
  | .merge => .error .malformed
  | .standIn => .error .malformed
  | .sign => .error .malformed

end ScalarValue

end Yaml

end Schematic
