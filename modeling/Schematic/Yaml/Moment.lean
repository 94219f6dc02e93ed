/-!
# Moments

A moment is a date, or a date and a time, that a clock of some zone may show.
This file reads and writes moments, and tells which of two comes first.  Moments
can be compared only if both are dates, or both are times of known zones, or
both are times of unknown zones.
-/

namespace Schematic

namespace Yaml

/-- The digits of a date and a time. -/
structure Moment where
  year : Nat
  month : Nat
  day : Nat
  /-- The time of the day: hour, minute, second and millionths of a second. -/
  time : Option (Nat × Nat × Nat × Nat) := none
  /-- How many minutes the clock is ahead, if the text says so. -/
  zone : Option Int := none
  /-- Whether the month, the day and the hour have as many digits as a plain
  scalar needs. -/
  padded : Bool := true
deriving DecidableEq, Repr

namespace Moment

def digitsValue (digits : List Char) : Nat :=
  digits.foldl (fun number digit => 10 * number + (digit.toNat - '0'.toNat)) 0

def fixed? (count : Nat) (text : List Char) : Option (Nat × List Char) :=
  let digits := text.take count
  if digits.length == count && digits.all Char.isDigit then
    some (digitsValue digits, text.drop count)
  else none

def short? (text : List Char) : Option (Nat × List Char) :=
  (fixed? 2 text).orElse fun _ => fixed? 1 text

def after? (char : Char) : List Char → Option (List Char)
  | first :: rest => if first == char then some rest else none
  | [] => none

/-- The rest behind what separates a date from a time. -/
def afterSeparator? (text : List Char) : Option (List Char) :=
  match text with
  | 'T' :: rest => some rest
  | 't' :: rest => some rest
  | _ =>
      let rest := text.dropWhile fun char => char == ' ' || char == '\t'
      if rest.length < text.length then some rest else none

/-- Millionths of a second from the digits of a fraction. -/
def millionths (digits : List Char) : Nat :=
  digitsValue ((digits ++ List.replicate 6 '0').take 6)

def fraction : List Char → Nat × List Char
  | '.' :: rest => (millionths (rest.takeWhile Char.isDigit), rest.dropWhile Char.isDigit)
  | rest => (0, rest)

/-- Reads the minutes by which a clock is ahead, to the end of the text. -/
def zoneMinutes? (text : List Char) : Option Nat := do
  let (hours, rest) ← short? text
  match rest with
  | [] => return 60 * hours
  | _ =>
      let rest ← after? ':' rest
      let (minutes, rest) ← fixed? 2 rest
      if rest.isEmpty then return 60 * hours + minutes else none

/-- Reads an optional zone, to the end of the text. -/
def zone? (text : List Char) : Option (Option Int) :=
  match text with
  | [] => some none
  | _ =>
      match text.dropWhile fun char => char == ' ' || char == '\t' with
      | ['Z'] => some (some 0)
      | '+' :: rest => (zoneMinutes? rest).map fun minutes => some minutes
      | '-' :: rest => (zoneMinutes? rest).map fun minutes => some (Int.neg minutes)
      | _ => none

/-- Reads a date, and a time behind it if there is one. -/
def ofText? (text : List Char) : Option Moment := do
  let (year, rest) ← fixed? 4 text
  let rest ← after? '-' rest
  let (month, afterMonth) ← short? rest
  let rest ← after? '-' afterMonth
  let (day, afterDay) ← short? rest
  let padded := text.length - afterDay.length == 10
  if afterDay.isEmpty then
    return { year, month, day, padded }
  else
    let rest ← afterSeparator? afterDay
    let (hour, rest) ← short? rest
    let rest ← after? ':' rest
    let (minute, rest) ← fixed? 2 rest
    let rest ← after? ':' rest
    let (second, rest) ← fixed? 2 rest
    let (millionths, rest) := fraction rest
    let zone ← zone? rest
    return { year, month, day, time := some (hour, minute, second, millionths), zone }

/-- Whether a year has a twenty-ninth of February. -/
def isLeapYear (year : Nat) : Bool :=
  year % 4 == 0 && (year % 100 != 0 || year % 400 == 0)

def daysIn (year month : Nat) : Nat :=
  if month == 2 then (if isLeapYear year then 29 else 28)
  else if month == 4 || month == 6 || month == 9 || month == 11 then 30
  else 31

def isReal (moment : Moment) : Bool :=
  1 ≤ moment.year && 1 ≤ moment.month && moment.month ≤ 12 && 1 ≤ moment.day &&
    moment.day ≤ daysIn moment.year moment.month &&
    (match moment.time with
    | some (hour, minute, second, _) => hour < 24 && minute < 60 && second < 60
    | none => true) &&
    (match moment.zone with
    | some minutes => minutes.natAbs < 24 * 60
    | none => true)

def zeroPadded (width number : Nat) : String :=
  let digits := toString number
  String.ofList (List.replicate (width - digits.length) '0') ++ digits

def zoneText (minutes : Int) : String :=
  (if minutes < 0 then "-" else "+") ++ zeroPadded 2 (minutes.natAbs / 60) ++ ":" ++
    zeroPadded 2 (minutes.natAbs % 60)

def text (moment : Moment) : String :=
  let pair := zeroPadded 2
  let date := zeroPadded 4 moment.year ++ "-" ++ pair moment.month ++ "-" ++ pair moment.day
  match moment.time with
  | none => date
  | some (hour, minute, second, millionths) =>
      date ++ " " ++ pair hour ++ ":" ++ pair minute ++ ":" ++ pair second ++
        (if millionths == 0 then "" else "." ++ zeroPadded 6 millionths) ++
        (moment.zone.map zoneText).getD ""

/-! ## Order -/

/-- What a moment says. -/
inductive Kind where
  | date
  /-- A date and a time that a clock shows somewhere. -/
  | clock
  /-- A date and a time in a zone. -/
  | zoned
deriving DecidableEq, Repr

def kind (moment : Moment) : Kind :=
  match moment.time, moment.zone with
  | none, _ => .date
  | some _, none => .clock
  | some _, some _ => .zoned

/-- The number of days of the years before a year. -/
def daysBeforeYear (year : Nat) : Nat :=
  let past := year - 1
  365 * past + past / 4 - past / 100 + past / 400

/-- The number of days from the beginning of the first year to the end of the
day of a moment. -/
def dayCount (moment : Moment) : Nat :=
  let months := List.range' 1 (moment.month - 1)
  months.foldl (fun days month => days + daysIn moment.year month)
    (daysBeforeYear moment.year + moment.day)

/-- Where a moment lies on the line of time, in millionths of a second. -/
def instant (moment : Moment) : Int :=
  let (hour, minute, second, millionths) := moment.time.getD (0, 0, 0, 0)
  let minutes : Int := (moment.dayCount * 24 + hour) * 60 + minute - moment.zone.getD 0
  (minutes * 60 + second) * 1000000 + millionths

/-- Whether two moments are the same.  A time is the same in all zones. -/
def same (first second : Moment) : Bool :=
  first.kind == second.kind && first.instant == second.instant

/-- Whether a moment comes before another, if that can be told. -/
def earlier? (first second : Moment) : Option Bool :=
  if first.kind = second.kind then some (first.instant < second.instant) else none

end Moment

end Yaml

end Schematic
