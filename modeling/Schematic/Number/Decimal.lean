import Schematic.Number.Shortest

/-!
# Decimal texts of numbers

This file writes numbers as decimal text in the three ways that the program
uses: with the fewest digits that read back, with six significant digits, and
for drawings as a whole number or with up to three places.
-/

namespace Schematic

namespace Number

/-- How the digits of a decimal are laid out. -/
structure DecimalStyle where
  /-- The least power of ten of a leading digit that is written without an
  exponent. -/
  leastPlain : Int
  /-- The least power of ten of a leading digit above these that needs an
  exponent again. -/
  firstScientific : Int
  /-- Whether a whole number ends in a point and a zero. -/
  keepsPoint : Bool

namespace DecimalStyle

/-- Numbers in messages and answers: plain from `0.0001` to below `10 ^ 16`,
and a whole number keeps its point. -/
def exact : DecimalStyle := ⟨-4, 16, true⟩

/-- Numbers in log lines: plain from `0.0001` to below a million. -/
def brief : DecimalStyle := ⟨-4, 6, false⟩

/-- The exponent part of a decimal: its sign and at least two digits. -/
def exponentText (exponent : Int) : List Char :=
  let digits := Decimal.digitsOf exponent.natAbs
  let padded := if digits.length < 2 then '0' :: digits else digits
  'e' :: (if exponent < 0 then '-' else '+') :: padded

/-- Lays out significant digits whose leading one has the given power of ten. -/
def write (style : DecimalStyle) (digits : List Char) (leading : Int) : List Char :=
  if leading < style.leastPlain ∨ style.firstScientific ≤ leading then
    match digits with
    | first :: second :: rest =>
        first :: '.' :: second :: rest ++ exponentText leading
    | _ => digits ++ exponentText leading
  else if leading < 0 then
    '0' :: '.' :: List.replicate ((-leading).toNat - 1) '0' ++ digits
  else
    let wholeLength := leading.toNat + 1
    if digits.length ≤ wholeLength then
      digits ++ List.replicate (wholeLength - digits.length) '0' ++
        (if style.keepsPoint then ['.', '0'] else [])
    else
      digits.take wholeLength ++ '.' :: digits.drop wholeLength

def writeDecimal (style : DecimalStyle) (decimal : Decimal) : List Char :=
  let digits := Decimal.digitsOf decimal.digits
  style.write digits (decimal.exponent + (digits.length : Int) - 1)

end DecimalStyle

/-- Puts a minus in front of the text of a negative number. -/
def signed (negative : Bool) (text : List Char) : String :=
  String.ofList (if negative then '-' :: text else text)

/-- The fewest digits that read back as `number`. -/
def exactText (number : Float) : String :=
  match Binary64.ofFloat number with
  | .undefined => "nan"
  | .infinite negative => signed negative "inf".toList
  | .finite negative significand exponent =>
      signed negative <|
        if significand = 0 then "0.0".toList
        else DecimalStyle.exact.writeDecimal (shortest significand exponent)

/-- The value of `numerator / denominator` rounded to six significant digits. -/
def sixDigits (numerator denominator : Nat) : Decimal :=
  let last := leadingExponent numerator denominator - 5
  let rounded := roundHalfEven <|
    mkRat (numerator * Nat.pow 10 (-last).toNat) (denominator * Nat.pow 10 last.toNat)
  Decimal.normalize ⟨rounded.toNat, last⟩

/-- Six significant digits of `number`, without zeros at the end. -/
def briefText (number : Float) : String :=
  match Binary64.ofFloat number with
  | .undefined => "nan"
  | .infinite negative => signed negative "inf".toList
  | .finite negative significand exponent =>
      signed negative <|
        if significand = 0 then ['0']
        else DecimalStyle.brief.writeDecimal <|
          sixDigits (significand * Nat.pow 2 exponent.toNat) (Nat.pow 2 (-exponent).toNat)

/-- Six significant digits of an exact value, without zeros at the end. -/
def briefFraction (value : Rat) : String :=
  signed (value < 0) <|
    if value = 0 then ['0']
    else DecimalStyle.brief.writeDecimal (sixDigits value.num.natAbs value.den)

/-- Drops every copy of `char` from the end of a text. -/
def dropTrailing (char : Char) (text : List Char) : List Char :=
  (text.reverse.dropWhile (· == char)).reverse

/-- The text of `value` rounded to three places. -/
def threePlaces (value : Rat) : List Char :=
  let thousandths := (scaledRound 3 (magnitude value)).toNat
  let places := Decimal.digitsOf (thousandths % 1000)
  let padded := List.replicate (3 - places.length) '0' ++ places
  let size := Decimal.digitsOf (thousandths / 1000) ++ '.' :: padded
  if value < 0 then '-' :: size else size

/-- The relative tolerance, of about one billionth, within which a coordinate
counts as whole.  It is the double-precision number nearest to `10 ^ -9`. -/
def wholeTolerance : Rat :=
  mkRat 4835703278458517 (Nat.pow 2 82)

/-- Whether `value` is so close to the whole number `whole` that it is written
as that number.  The bound is computed in double precision. -/
def closeToWhole (value : Rat) (whole : Int) : Bool :=
  let distance := magnitude (value - (whole : Rat))
  distance = 0 ||
    distance ≤ roundBinary (wholeTolerance * magnitude (whole : Rat)) ||
    distance ≤ roundBinary (wholeTolerance * magnitude value)

/-- A drawing coordinate: a whole number if it is very close to one, otherwise
three places without zeros at the end. -/
def coordinateText (value : Rat) : String :=
  let whole := roundHalfEven value
  if closeToWhole value whole then toString whole
  else String.ofList (dropTrailing '.' (dropTrailing '0' (threePlaces value)))

end Number

end Schematic
