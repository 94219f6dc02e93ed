import Schematic.Text.Coded
import Schematic.Yaml.Cursor

/-!
# Tokens of a document

The structure of a document is made of indicators and of indentation; both
become tokens.  The tokens with a content of their own are names, tags,
directives and scalars.  This file holds all tokens and reads those that are
not scalars.
-/

namespace Schematic

namespace Yaml

/-- A line that says how to read a document. -/
inductive Directive where
  /-- The version of the language. -/
  | version (major minor : Nat)
  /-- A short form for the beginnings of tags. -/
  | shortTag (handle start : String)
  | other
deriving DecidableEq, Repr

/-- A tag as it is written: the short form that it starts with, if any, and
the rest. -/
structure WrittenTag where
  handle : Option String
  suffix : String
deriving DecidableEq, Repr

/-- A token. -/
inductive Token where
  | directive (directive : Directive)
  | documentStart
  | documentEnd
  | blockSequenceStart
  | blockMappingStart
  | blockEnd
  | flowSequenceStart
  | flowSequenceEnd
  | flowMappingStart
  | flowMappingEnd
  | blockEntry
  | flowEntry
  | key
  | value
  | alias (name : String)
  | anchor (name : String)
  | tag (written : WrittenTag)
  | scalar (text : Text.Coded) (plain : Bool)
deriving DecidableEq, Repr

/-- The tokens of a document, and the fault behind them, if there is one. -/
structure TokenStream where
  tokens : List Token
  fault : Option Fault := none
deriving DecidableEq, Repr

/-! ## Names -/

/-- Reads the name behind an anchor or alias sign. -/
def scanName : Scan String := fun cursor =>
  let (name, next) := cursor.advance.takeWhile isNameChar
  let ends : Bool :=
    match next.peek with
    | none => true
    | some char => isSeparator char || "?:,]\x7d%@\x60".toList.contains char
  if name.isEmpty || !ends then .error .malformed
  else .ok (String.ofList name, next)

/-! ## Tags -/

/-- Whether a character may stand in a tag as it is. -/
def isTagChar (char : Char) : Bool :=
  char.isAlphanum || "-;/?:@&=+$,_.!~*'()[]".toList.contains char

def hexValue? (char : Char) : Option Nat :=
  if char.isDigit then some (char.toNat - '0'.toNat)
  else if 'a' ≤ char ∧ char ≤ 'f' then some (char.toNat - 'a'.toNat + 10)
  else if 'A' ≤ char ∧ char ≤ 'F' then some (char.toNat - 'A'.toNat + 10)
  else none

def hexNumber? (digits : List Char) : Option Nat :=
  digits.foldlM (fun number digit => (16 * number + ·) <$> hexValue? digit) 0

/-- Reads the bytes of escapes that follow one another. -/
def takeEscapes : List Char → Option (List UInt8 × List Char)
  | '%' :: first :: second :: rest => do
      let byte ← hexNumber? [first, second]
      let (bytes, rest) ← takeEscapes rest
      return (byte.toUInt8 :: bytes, rest)
  | '%' :: _ => none
  | rest => some ([], rest)

/-- Reads the characters of a tag; `steps` bounds their number. -/
def takeTag : (steps : Nat) → List Char → Option (List Char × List Char)
  | 0, rest => some ([], rest)
  | _ + 1, [] => some ([], [])
  | steps + 1, char :: rest =>
      if char == '%' then do
        let (bytes, rest) ← takeEscapes (char :: rest)
        let escaped ← String.fromUTF8? ⟨bytes.toArray⟩
        let (others, rest) ← takeTag steps rest
        return (escaped.toList ++ others, rest)
      else if isTagChar char then do
        let (others, rest) ← takeTag steps rest
        return (char :: others, rest)
      else some ([], char :: rest)

def scanTagText : Scan String := fun cursor =>
  match takeTag cursor.rest.length cursor.rest with
  | none => .error .malformed
  | some (text, rest) =>
      let next := cursor.advanceBy (cursor.rest.length - rest.length)
      if next.index == cursor.index then .error .malformed
      else .ok (String.ofList text, next)

/-- Reads a short form between exclamation marks.  A single mark is a short form
of its own in front of a space. -/
def scanHandle : Scan String := fun cursor =>
  match cursor.rest with
  | '!' :: ' ' :: _ => .ok ("!", cursor.advance)
  | '!' :: _ =>
      let (name, next) := cursor.advance.takeWhile isNameChar
      if next.peek == some '!' then
        .ok ("!" ++ String.ofList name ++ "!", next.advance)
      else .error .malformed
  | _ => .error .malformed

def scanTagParts : Scan WrittenTag := fun cursor => do
  match cursor.peekAt 1 with
  | some '<' =>
      let (suffix, next) ← scanTagText (cursor.advanceBy 2)
      if next.peek == some '>' then
        return (⟨none, suffix⟩, next.advance)
      else throw .malformed
  | following =>
      if endsToken following then
        return (⟨none, "!"⟩, cursor.advance)
      else
        let word := cursor.rest.tail.takeWhile fun char => !(char == ' ' || isBreak char)
        let (handle, next) ←
          if word.contains '!' then scanHandle cursor
          else pure ("!", cursor.advance)
        let (suffix, next) ← scanTagText next
        return (⟨some handle, suffix⟩, next)

/-- Reads a tag to the end of its word. -/
def scanTag : Scan WrittenTag := fun cursor => do
  let (tag, next) ← scanTagParts cursor
  if endsWord next.peek then return (tag, next) else throw .malformed

/-! ## Directives -/

def decimalNumber (digits : List Char) : Nat :=
  digits.foldl (fun number digit => 10 * number + (digit.toNat - '0'.toNat)) 0

/-- Reads a number of one or more digits. -/
def scanDecimal : Scan Nat := fun cursor =>
  let (digits, next) := cursor.takeWhile Char.isDigit
  if digits.isEmpty then .error .malformed else .ok (decimalNumber digits, next)

def scanVersion : Scan Directive := fun cursor => do
  let (major, next) ← scanDecimal cursor.skipSpaces
  if next.peek == some '.' then
    let (minor, next) ← scanDecimal next.advance
    if endsWord next.peek then return (.version major minor, next) else throw .malformed
  else throw .malformed

/-- Reads a short form and what it stands for. -/
def scanShortTag : Scan Directive := fun cursor => do
  let (handle, next) ← scanHandle cursor.skipSpaces
  if next.peek == some ' ' then
    let (start, next) ← scanTagText next.skipSpaces
    if endsWord next.peek then return (.shortTag handle start, next) else throw .malformed
  else throw .malformed

/-- Reads a directive behind its sign, and the rest of its line. -/
def scanDirective : Scan Directive := fun cursor => do
  let (name, next) := cursor.advance.takeWhile isNameChar
  if name.isEmpty || !endsWord next.peek then
    throw .malformed
  else
    let (directive, next) ←
      match String.ofList name with
      | "YAML" => scanVersion next
      | "TAG" => scanShortTag next
      | _ => pure (.other, next.skipWhile (!isBreak ·))
    let next ← next.finishLine
    return (directive, next)

end Yaml

end Schematic
