import Schematic.Yaml.QuotedScalar

/-!
# Plain scalars

A plain scalar stands without quotes and ends at a colon in front of a blank,
at a comment, at a line that is not indented enough, and inside brackets at a
comma or bracket.  Its line ends are folded into spaces.
-/

namespace Schematic

namespace Yaml

/-- Whether a character ends a plain scalar inside brackets. -/
def isFlowSign (char : Char) : Bool :=
  ",?[]\x7b\x7d".toList.contains char

/-- Whether a colon in front of this character ends a plain scalar. -/
def endsKey (inFlow : Bool) : Option Char → Bool
  | none => true
  | some char => isSeparator char || (inFlow && ",[]\x7b\x7d".toList.contains char)

/-- The characters up to the next blank or to the end of a plain scalar. -/
def plainRun (inFlow : Bool) : List Char → List Char
  | [] => []
  | char :: rest =>
      if isSeparator char || (char == ':' && endsKey inFlow rest.head?) ||
          (inFlow && isFlowSign char) then []
      else char :: plainRun inFlow rest

/-- Reads line ends and the spaces behind them up to a mark between documents,
and tells whether there is one; `steps` bounds the number of characters. -/
def takePlainBreaks : (steps : Nat) → Cursor → List Char × Bool × Cursor
  | 0, cursor => ([], false, cursor)
  | steps + 1, cursor =>
      if cursor.peek == some ' ' then takePlainBreaks steps cursor.advance
      else
        match cursor.takeBreak? with
        | none => ([], false, cursor)
        | some (char, next) =>
            if next.atDocumentMark then ([char], true, next)
            else
              let (others, marked, next) := takePlainBreaks steps next
              (char :: others, marked, next)

/-- What stands between two runs of a plain scalar. -/
structure PlainGap where
  /-- What the blanks and line ends stand for; nothing at the end of the
  scalar. -/
  joint : List Char
  /-- Whether a line ends in the gap. -/
  broken : Bool
  next : Cursor

def takePlainGap (cursor : Cursor) : PlainGap :=
  let (spaces, next) := cursor.takeWhile (· == ' ')
  match next.takeBreak? with
  | none => ⟨spaces, false, next⟩
  | some (first, next) =>
      if next.atDocumentMark then ⟨[], true, next⟩
      else
        let (others, marked, next) := takePlainBreaks (next.rest.length + 1) next
        ⟨if marked then [] else foldedBreaks first others, true, next⟩

/-- A plain scalar, and whether a line ends behind it. -/
structure PlainScalar where
  text : List Char
  /-- Whether the place behind the scalar is on a new line. -/
  broken : Bool
  next : Cursor

/-- Reads the runs of a plain scalar behind a gap; `steps` bounds their
number. -/
def takePlainRuns (inFlow : Bool) (indent : Int) :
    (steps : Nat) → (joint : List Char) → (broken : Bool) → Cursor → PlainScalar
  | 0, _, broken, cursor => ⟨[], broken, cursor⟩
  | steps + 1, joint, broken, cursor =>
      let run := plainRun inFlow cursor.rest
      if cursor.peek == some '#' || run.isEmpty then ⟨[], broken, cursor⟩
      else
        let gap := takePlainGap (cursor.advanceBy run.length)
        if gap.joint.isEmpty || gap.next.peek == some '#' ||
            (!inFlow && gap.next.column < indent) then
          ⟨joint ++ run, gap.broken, gap.next⟩
        else
          let others := takePlainRuns inFlow indent steps gap.joint gap.broken gap.next
          { others with text := joint ++ run ++ others.text }

/-- Reads a plain scalar; `parent` is the indentation of what surrounds it. -/
def takePlain (inFlow : Bool) (parent : Int) (cursor : Cursor) : PlainScalar :=
  takePlainRuns inFlow (parent + 1) (cursor.rest.length + 1) [] false cursor

end Yaml

end Schematic
