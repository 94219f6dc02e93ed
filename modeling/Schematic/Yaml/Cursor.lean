import Schematic.Yaml.Fault

/-!
# Places in a document

A document is read from a cursor, which knows what is left of the text and
where it is.  Line ends other than the line feed are characters of their own;
carriage returns have been made line feeds before.
-/

namespace Schematic

namespace Yaml

/-- A place in a text. -/
structure Cursor where
  /-- The characters ahead. -/
  rest : List Char
  index : Nat := 0
  line : Nat := 0
  column : Nat := 0
deriving DecidableEq, Repr

/-- Reads something at a cursor. -/
abbrev Scan (α : Type) := Cursor → Except Fault (α × Cursor)

def isBreak (char : Char) : Bool :=
  char == '\n' || char == '\u0085' || char == '\u2028' || char == '\u2029'

def isSeparator (char : Char) : Bool :=
  char == ' ' || char == '\t' || isBreak char

/-- Whether a line ends here, at a line end or at the end of the text. -/
def endsLine : Option Char → Bool
  | none => true
  | some char => isBreak char

/-- Whether a word ends here, where only spaces separate words. -/
def endsWord : Option Char → Bool
  | none => true
  | some char => char == ' ' || isBreak char

def endsToken : Option Char → Bool
  | none => true
  | some char => isSeparator char

/-- Whether a character may stand in a name. -/
def isNameChar (char : Char) : Bool :=
  char.isAlphanum || char == '-' || char == '_'

namespace Cursor

def ofText (text : String) : Cursor :=
  { rest := text.toList }

def peek (cursor : Cursor) : Option Char :=
  cursor.rest.head?

def peekAt (cursor : Cursor) (count : Nat) : Option Char :=
  cursor.rest[count]?

/-- Moves behind the next character.  A byte order mark takes no column. -/
def advance (cursor : Cursor) : Cursor :=
  match cursor.rest with
  | [] => cursor
  | char :: rest =>
      if isBreak char then
        { rest, index := cursor.index + 1, line := cursor.line + 1, column := 0 }
      else
        { rest, index := cursor.index + 1, line := cursor.line
          column := if char == '\ufeff' then cursor.column else cursor.column + 1 }

def advanceBy (cursor : Cursor) : Nat → Cursor
  | 0 => cursor
  | count + 1 => cursor.advance.advanceBy count

/-- Reads the characters ahead that satisfy a test. -/
def takeWhile (cursor : Cursor) (test : Char → Bool) : List Char × Cursor :=
  let taken := cursor.rest.takeWhile test
  (taken, cursor.advanceBy taken.length)

/-- Moves behind the characters ahead that satisfy a test. -/
def skipWhile (cursor : Cursor) (test : Char → Bool) : Cursor :=
  (cursor.takeWhile test).2

def skipSpaces (cursor : Cursor) : Cursor :=
  cursor.skipWhile (· == ' ')

/-- Moves to the end of a comment that begins here, if there is one. -/
def skipComment (cursor : Cursor) : Cursor :=
  if cursor.peek == some '#' then cursor.skipWhile (!isBreak ·) else cursor

/-- Reads a line end, if there is one.  The next-line character becomes a line
feed. -/
def takeBreak? (cursor : Cursor) : Option (Char × Cursor) :=
  match cursor.rest with
  | [] => none
  | char :: _ =>
      if isBreak char then
        some (if char == '\u0085' then '\n' else char, cursor.advance)
      else none

/-- Moves behind a line end, if there is one. -/
def skipBreak (cursor : Cursor) : Cursor :=
  match cursor.takeBreak? with
  | some (_, next) => next
  | none => cursor

/-- Whether three copies of `char` stand here as a token. -/
def atTriple (cursor : Cursor) (char : Char) : Bool :=
  cursor.rest.take 3 == [char, char, char] && endsToken (cursor.peekAt 3)

def atDocumentMark (cursor : Cursor) : Bool :=
  cursor.atTriple '-' || cursor.atTriple '.'

/-- Moves to the next line, if nothing but a comment is left of this one. -/
def finishLine (cursor : Cursor) : Except Fault Cursor :=
  let cursor := cursor.skipSpaces.skipComment
  if endsLine cursor.peek then .ok cursor.skipBreak else .error .malformed

end Cursor

end Yaml

end Schematic
