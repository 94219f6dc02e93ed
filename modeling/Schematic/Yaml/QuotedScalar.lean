import Schematic.Yaml.Token

/-!
# Quoted scalars

Between quotes, a line end and the spaces around it stand for one space, and
empty lines for line feeds.  Between single quotes a doubled quote is the only
escape; between double quotes a backslash begins escapes.  An escape by code
point may name half of a character, which then stands alone, also in front of
the other half.
-/

namespace Schematic

namespace Yaml

/-- The character that a short escape stands for. -/
def shortEscape? : Char → Option Char
  | '0' => some '\x00'
  | 'a' => some '\x07'
  | 'b' => some '\x08'
  | 't' => some '\t'
  | '\t' => some '\t'
  | 'n' => some '\n'
  | 'v' => some '\x0b'
  | 'f' => some '\x0c'
  | 'r' => some '\r'
  | 'e' => some '\x1b'
  | ' ' => some ' '
  | '\x22' => some '\x22'
  | '\\' => some '\\'
  | '/' => some '/'
  | 'N' => some '\u0085'
  | '_' => some '\u00a0'
  | 'L' => some '\u2028'
  | 'P' => some '\u2029'
  | _ => none

/-- The number of digits behind the letter of an escape by code point. -/
def codeWidth? : Char → Option Nat
  | 'x' => some 2
  | 'u' => some 4
  | 'U' => some 8
  | _ => none

def codePoint (code : Nat) : Except Fault Text.CodePoint :=
  if isHalf : 0xd800 ≤ code ∧ code < 0xe000 then .ok (.half ⟨code, isHalf⟩)
  else if code < 0x110000 then .ok (.char (Char.ofNat code))
  else .error (.noCharacter code)

/-- Reads line ends and the blanks at the beginnings of the lines behind them;
`steps` bounds the number of lines.  No line may be a mark between documents. -/
def scanBreaks : (steps : Nat) → Scan (List Char)
  | 0, cursor => .ok ([], cursor)
  | steps + 1, cursor => do
      if cursor.atDocumentMark then
        throw .malformed
      else
        let cursor := cursor.skipWhile fun char => char == ' ' || char == '\t'
        match cursor.takeBreak? with
        | none => return ([], cursor)
        | some (char, cursor) =>
            let (others, cursor) ← scanBreaks steps cursor
            return (char :: others, cursor)

def scanEmptyLines : Scan (List Char) := fun cursor =>
  scanBreaks (cursor.rest.length + 1) cursor

/-- What a line end and the line ends behind it stand for. -/
def foldedBreaks (first : Char) (others : List Char) : List Char :=
  if first != '\n' then first :: others
  else if others.isEmpty then [' ']
  else others

/-- Reads blanks inside quotes, and the line ends behind them. -/
def scanQuotedBlanks : Scan (List Char) := fun cursor => do
  let (blanks, next) := cursor.takeWhile fun char => char == ' ' || char == '\t'
  match next.peek with
  | none => throw .malformed
  | some _ =>
      match next.takeBreak? with
      | none => return (blanks, next)
      | some (first, next) =>
          let (others, next) ← scanEmptyLines next
          return (foldedBreaks first others, next)

/-- Reads the code point of an escape of `width` digits behind its letter. -/
def scanCode (width : Nat) : Scan Nat := fun cursor => do
  let digits := cursor.rest.take width
  if digits.length < width then
    throw .malformed
  else
    match hexNumber? digits with
    | none => throw .malformed
    | some code => return (code, cursor.advanceBy width)

def scanEscape : Scan (List Text.CodePoint) := fun cursor => do
  match cursor.peek with
  | none => throw .malformed
  | some letter =>
      match shortEscape? letter, codeWidth? letter with
      | some char, _ => return ([.char char], cursor.advance)
      | none, some width =>
          let (code, next) ← scanCode width cursor.advance
          return ([← codePoint code], next)
      | none, none =>
          if isBreak letter then
            let (breaks, next) ← scanEmptyLines cursor.skipBreak
            return (breaks.map .char, next)
          else throw .malformed

/-- Reads a piece inside quotes: an escape, blanks, or a character that stands
for itself. -/
def scanQuotedPiece (double : Bool) : Scan (List Text.CodePoint) := fun cursor => do
  match cursor.rest with
  | [] => throw .malformed
  | char :: rest =>
      if !double && char == '\x27' && rest.head? == some '\x27' then
        return ([.char '\x27'], cursor.advanceBy 2)
      else if double && char == '\\' then scanEscape cursor.advance
      else if isSeparator char then
        let (blanks, next) ← scanQuotedBlanks cursor
        return (blanks.map .char, next)
      else return ([.char char], cursor.advance)

/-- Whether the quote at the end of a scalar stands here. -/
def atQuoteEnd (quote : Char) (cursor : Cursor) : Bool :=
  match cursor.rest with
  | char :: rest => char == quote && !(quote == '\x27' && rest.head? == some '\x27')
  | [] => false

/-- Reads the pieces up to the quote at the end; `steps` bounds their number. -/
def scanQuotedPieces (quote : Char) : (steps : Nat) → Scan (List Text.CodePoint)
  | 0, _ => .error .malformed
  | steps + 1, cursor => do
      if atQuoteEnd quote cursor then
        return ([], cursor.advance)
      else
        let (piece, cursor) ← scanQuotedPiece (quote == '\x22') cursor
        let (others, cursor) ← scanQuotedPieces quote steps cursor
        return (piece ++ others, cursor)

def scanQuoted (quote : Char) : Scan Text.Coded := fun cursor => do
  let (points, next) ← scanQuotedPieces quote (cursor.rest.length + 1) cursor.advance
  return (.ofPoints points, next)

end Yaml

end Schematic
