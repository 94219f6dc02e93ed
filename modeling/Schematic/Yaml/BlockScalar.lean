import Schematic.Yaml.QuotedScalar

/-!
# Block scalars

A block scalar is a run of indented lines below its sign.  In a literal one
every line end counts; in a folded one a line end between two lines that begin
with no blank stands for a space.  Signs behind the first one say how deep the
lines are indented and which line ends at the end are kept.
-/

namespace Schematic

namespace Yaml

/-- Which line ends at the end of a block scalar are kept. -/
inductive Chomping where
  /-- The first one. -/
  | clip
  /-- None. -/
  | strip
  /-- All of them. -/
  | keep
deriving DecidableEq, Repr

def chomping? : Char → Option Chomping
  | '+' => some .keep
  | '-' => some .strip
  | _ => none

/-- The signs of a block scalar. -/
structure BlockHeader where
  /-- Which line ends at its end are kept. -/
  chomping : Chomping := .clip
  /-- How much deeper than its surroundings it is indented. -/
  increment : Option Nat := none
deriving DecidableEq, Repr

/-- Reads a sign for the chomping, if there is one. -/
def takeChomping (cursor : Cursor) : Option Chomping × Cursor :=
  match cursor.peek.bind chomping? with
  | some chomping => (some chomping, cursor.advance)
  | none => (none, cursor)

/-- Reads a digit for the indentation, if there is one; it is not zero. -/
def scanIncrement : Scan (Option Nat) := fun cursor =>
  match cursor.peek with
  | some char =>
      if char == '0' then .error .malformed
      else if char.isDigit then .ok (some (char.toNat - '0'.toNat), cursor.advance)
      else .ok (none, cursor)
  | none => .ok (none, cursor)

/-- Reads the signs of a block scalar, in any order, and the rest of the
line. -/
def scanBlockHeader : Scan BlockHeader := fun cursor => do
  let (early, next) := takeChomping cursor
  let (increment, next) ← scanIncrement next
  let (late, next) := if early.isNone && increment.isSome then takeChomping next else (none, next)
  if endsWord next.peek then
    let next ← next.finishLine
    return (⟨(early.or late).getD .clip, increment⟩, next)
  else throw .malformed

/-- Reads empty lines up to the first line with a content.  The column in front
of the content counts, and so do the spaces in empty lines. -/
def takeMargin : (steps : Nat) → Cursor → (deepest : Nat) → List Char × Nat × Cursor
  | 0, cursor, deepest => ([], deepest, cursor)
  | steps + 1, cursor, deepest =>
      match cursor.takeBreak? with
      | some (char, next) =>
          let (others, deepest, next) := takeMargin steps next deepest
          (char :: others, deepest, next)
      | none =>
          if cursor.peek == some ' ' then
            takeMargin steps cursor.advance (max deepest cursor.advance.column)
          else ([], deepest, cursor)

/-- Moves behind the spaces ahead, but not deeper than `indent`. -/
def skipIndent (indent : Nat) (cursor : Cursor) : Cursor :=
  let spaces := (cursor.rest.take (indent - cursor.column)).takeWhile (· == ' ')
  cursor.advanceBy spaces.length

/-- Reads empty lines and the indentation of the line behind them; `steps`
bounds the number of lines. -/
def takeEmptyLines (indent : Nat) : (steps : Nat) → Cursor → List Char × Cursor
  | 0, cursor => ([], cursor)
  | steps + 1, cursor =>
      let cursor := skipIndent indent cursor
      match cursor.takeBreak? with
      | none => ([], cursor)
      | some (char, next) =>
          let (others, next) := takeEmptyLines indent steps next
          (char :: others, next)

def atBlank (cursor : Cursor) : Bool :=
  cursor.peek == some ' ' || cursor.peek == some '\t'

/-- What stands between two lines of a block scalar. -/
def blockJoint (folded plainLine plainNext : Bool) (lineEnd : List Char)
    (emptyLines : List Char) : List Char :=
  if folded && lineEnd == ['\n'] && plainLine && plainNext then
    if emptyLines.isEmpty then [' '] else []
  else lineEnd

/-- The line ends at the end of a block scalar that are kept. -/
def blockTail (chomping : Chomping) (lineEnd emptyLines : List Char) : List Char :=
  match chomping with
  | .strip => []
  | .clip => lineEnd
  | .keep => lineEnd ++ emptyLines

/-- Reads the lines of a block scalar behind some empty lines; `lineEnd` is the
end of the line before these. -/
def takeBlockLines (folded : Bool) (chomping : Chomping) (indent : Nat) :
    (steps : Nat) → (lineEnd emptyLines : List Char) → Cursor → List Char × Cursor
  | 0, lineEnd, emptyLines, cursor => (blockTail chomping lineEnd emptyLines, cursor)
  | steps + 1, lineEnd, emptyLines, cursor =>
      if cursor.column == indent && cursor.peek.isSome then
        let plainLine := !atBlank cursor
        let (line, next) := cursor.takeWhile (!isBreak ·)
        let (lineEnd, next) :=
          match next.takeBreak? with
          | some (char, next) => ([char], next)
          | none => ([], next)
        let (following, next) := takeEmptyLines indent (next.rest.length + 1) next
        let joint :=
          if next.column == indent && next.peek.isSome then
            blockJoint folded plainLine (!atBlank next) lineEnd following
          else []
        let (others, next) :=
          takeBlockLines folded chomping indent steps lineEnd following next
        (emptyLines ++ line ++ joint ++ others, next)
      else (blockTail chomping lineEnd emptyLines, cursor)

/-- Reads a block scalar; `parent` is the indentation of what surrounds it. -/
def scanBlock (folded : Bool) (parent : Int) : Scan String := fun cursor => do
  let (header, next) ← scanBlockHeader cursor.advance
  let least := (max 1 (parent + 1)).toNat
  let (emptyLines, indent, next) :=
    match header.increment with
    | some increment =>
        let indent := least + increment - 1
        let (emptyLines, next) := takeEmptyLines indent (next.rest.length + 1) next
        (emptyLines, indent, next)
    | none =>
        let (emptyLines, deepest, next) := takeMargin (next.rest.length + 1) next 0
        (emptyLines, max least deepest, next)
  let (text, next) :=
    takeBlockLines folded header.chomping indent (next.rest.length + 1) [] emptyLines next
  return (String.ofList text, next)

end Yaml

end Schematic
