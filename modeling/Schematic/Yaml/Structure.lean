import Schematic.Yaml.BlockScalar
import Schematic.Yaml.PlainScalar

/-!
# The structure of a document in tokens

Indentation opens and closes blocks, and a colon may turn what stands in front
of it on the same line into a key.  So every token that could begin a key is
remembered as a candidate until its line is over; when a colon follows, the
tokens that open the key are inserted in front of it.
-/

namespace Schematic

namespace Yaml

/-- A token that could begin a key. -/
structure Candidate where
  /-- The number of tokens in front of it. -/
  count : Nat
  /-- Whether nothing but a key can stand there. -/
  required : Bool
  start : Cursor

def keyLimit : Nat := 1024

/-- What is known of a document up to a place in it. -/
structure Progress where
  cursor : Cursor
  /-- The tokens so far, the last one first. -/
  tokens : List Token := []
  /-- The number of brackets around the place. -/
  depth : Nat := 0
  /-- The indentation of the innermost block. -/
  indent : Int := -1
  /-- The indentations of the blocks around it, the innermost one first. -/
  outer : List Int := []
  keyAllowed : Bool := true
  /-- The candidates, with the number of brackets around each. -/
  candidates : List (Nat × Candidate) := []

namespace Progress

def push (progress : Progress) (token : Token) : Progress :=
  { progress with tokens := token :: progress.tokens }

def inFlow (progress : Progress) : Bool :=
  progress.depth != 0

/-- Whether a key could still begin with a candidate. -/
def fresh (progress : Progress) (candidate : Candidate) : Bool :=
  candidate.start.line == progress.cursor.line &&
    progress.cursor.index - candidate.start.index ≤ keyLimit

/-- Forgets the candidates that can no longer begin a key. -/
def dropStale (progress : Progress) : Except Fault Progress :=
  let stale := progress.candidates.filter fun entry => !progress.fresh entry.2
  if stale.any fun entry => entry.2.required then .error .malformed
  else
    .ok { progress with
      candidates := progress.candidates.filter fun entry => progress.fresh entry.2 }

def candidate? (progress : Progress) : Option Candidate :=
  progress.candidates.lookup progress.depth

def withoutCandidate (progress : Progress) : Progress :=
  { progress with
    candidates := progress.candidates.filter fun entry => entry.1 != progress.depth }

/-- Forgets the candidate inside the same brackets; one that is required must
have become a key. -/
def dropCandidate (progress : Progress) : Except Fault Progress :=
  match progress.candidate? with
  | some candidate =>
      if candidate.required then .error .malformed else .ok progress.withoutCandidate
  | none => .ok progress

def saveCandidate (progress : Progress) : Except Fault Progress := do
  if progress.keyAllowed then
    let required := !progress.inFlow && progress.indent == progress.cursor.column
    let cleared ← progress.dropCandidate
    let candidate : Candidate := ⟨progress.tokens.length, required, progress.cursor⟩
    return { cleared with candidates := (progress.depth, candidate) :: cleared.candidates }
  else return progress

/-- Closes blocks while they are indented deeper than `column`. -/
def closeBlocks (column : Int) : List Int → (indent : Int) → (tokens : List Token) →
    List Int × Int × List Token
  | [], indent, tokens => ([], indent, tokens)
  | around :: outer, indent, tokens =>
      if column < indent then closeBlocks column outer around (.blockEnd :: tokens)
      else (around :: outer, indent, tokens)

/-- Closes the blocks that end in front of a column; brackets hide them. -/
def unwind (progress : Progress) (column : Int) : Progress :=
  if progress.inFlow then progress
  else
    let (outer, indent, tokens) :=
      closeBlocks column progress.outer progress.indent progress.tokens
    { progress with outer, indent, tokens }

/-- Inserts a token behind the first `count` tokens. -/
def insertAt (progress : Progress) (count : Nat) (token : Token) : Progress :=
  { progress with
    tokens := progress.tokens.insertIdx (progress.tokens.length - count) token }

/-- Opens a block at a column, if the innermost one is not as deep, with a token
behind the first `count` ones. -/
def openBlock (progress : Progress) (column count : Nat) (token : Token) : Progress :=
  if progress.indent < column then
    { progress.insertAt count token with
      indent := column, outer := progress.indent :: progress.outer }
  else progress

def take (progress : Progress) (width : Nat) (token : Token) : Progress :=
  { progress.push token with cursor := progress.cursor.advanceBy width }

/-- Reads a mark between documents, or moves to a directive. -/
def outermost (progress : Progress) : Except Fault Progress := do
  let progress ← (progress.unwind (-1)).dropCandidate
  return { progress with keyAllowed := false }

def documentMark (progress : Progress) (token : Token) : Except Fault Progress := do
  let progress ← progress.outermost
  return progress.take 3 token

def directive (progress : Progress) : Except Fault Progress := do
  let progress ← progress.outermost
  let (directive, cursor) ← scanDirective progress.cursor
  return { progress.push (.directive directive) with cursor }

def openBracket (progress : Progress) (token : Token) : Except Fault Progress := do
  let progress ← progress.saveCandidate
  return { progress.take 1 token with depth := progress.depth + 1, keyAllowed := true }

def closeBracket (progress : Progress) (token : Token) : Except Fault Progress := do
  let progress ← progress.dropCandidate
  if progress.inFlow then
    return { progress.take 1 token with depth := progress.depth - 1, keyAllowed := false }
  else throw .malformed

def comma (progress : Progress) : Except Fault Progress := do
  let progress ← progress.dropCandidate
  return { progress.take 1 .flowEntry with keyAllowed := true }

/-- Reads the dash in front of an entry. -/
def dash (progress : Progress) : Except Fault Progress := do
  if !progress.inFlow && !progress.keyAllowed then
    throw .malformed
  else
    let opened :=
      if progress.inFlow then progress
      else progress.openBlock progress.cursor.column progress.tokens.length .blockSequenceStart
    let progress ← opened.dropCandidate
    return { progress.take 1 .blockEntry with keyAllowed := true }

/-- Reads the question mark in front of a key. -/
def questionMark (progress : Progress) : Except Fault Progress := do
  if !progress.inFlow && !progress.keyAllowed then
    throw .malformed
  else
    let opened :=
      if progress.inFlow then progress
      else progress.openBlock progress.cursor.column progress.tokens.length .blockMappingStart
    let progress ← opened.dropCandidate
    return { progress.take 1 .key with keyAllowed := !progress.inFlow }

def makeKey (progress : Progress) (candidate : Candidate) : Progress :=
  let keyed := progress.withoutCandidate.insertAt candidate.count .key
  let opened :=
    if progress.inFlow then keyed
    else keyed.openBlock candidate.start.column candidate.count .blockMappingStart
  { opened with keyAllowed := false }

/-- Reads the colon in front of a value. -/
def colon (progress : Progress) : Except Fault Progress := do
  match progress.candidate? with
  | some candidate => return (progress.makeKey candidate).take 1 .value
  | none =>
      if !progress.inFlow && !progress.keyAllowed then
        throw .malformed
      else
        let opened :=
          if progress.inFlow then progress
          else
            progress.openBlock progress.cursor.column progress.tokens.length .blockMappingStart
        let progress ← opened.dropCandidate
        return { progress.take 1 .value with keyAllowed := !progress.inFlow }

/-- Reads a token that could begin a key. -/
def keyPart (progress : Progress) (scan : Scan Token) : Except Fault Progress := do
  let progress ← progress.saveCandidate
  let (token, cursor) ← scan progress.cursor
  return { progress.push token with cursor, keyAllowed := false }

def block (progress : Progress) (folded : Bool) : Except Fault Progress := do
  let progress ← progress.dropCandidate
  let (text, cursor) ← scanBlock folded progress.indent progress.cursor
  return { progress.push (.scalar text false) with cursor, keyAllowed := true }

def plain (progress : Progress) : Except Fault Progress := do
  let progress ← progress.saveCandidate
  let scalar := takePlain progress.inFlow progress.indent progress.cursor
  return { progress.push (.scalar (String.ofList scalar.text) true) with
    cursor := scalar.next, keyAllowed := scalar.broken }

def atPlain (progress : Progress) (char : Char) : Bool :=
  let cursor := progress.cursor
  !(isSeparator char || "-?:,[]\x7b\x7d#&*!|>'\"%@\x60".toList.contains char) ||
    (!endsToken (cursor.peekAt 1) &&
      (char == '-' || (!progress.inFlow && (char == '?' || char == ':'))))

/-- Moves over blanks, comments and line ends; `steps` bounds the number of
lines.  Outside of brackets a key may begin on every line. -/
def skipBlanks : (steps : Nat) → Progress → Progress
  | 0, progress => progress
  | steps + 1, progress =>
      let cursor := progress.cursor.skipSpaces.skipComment
      match cursor.takeBreak? with
      | none => { progress with cursor }
      | some (_, next) =>
          skipBlanks steps
            { progress with cursor := next, keyAllowed := progress.keyAllowed || !progress.inFlow }

/-- Reads the token that begins with `char` here. -/
def token (progress : Progress) (char : Char) : Except Fault Progress :=
  let cursor := progress.cursor
  let apart := endsToken (cursor.peekAt 1)
  if char == '%' && cursor.column == 0 then progress.directive
  else if cursor.column == 0 && cursor.atTriple '-' then progress.documentMark .documentStart
  else if cursor.column == 0 && cursor.atTriple '.' then progress.documentMark .documentEnd
  else if char == '[' then progress.openBracket .flowSequenceStart
  else if char == '\x7b' then progress.openBracket .flowMappingStart
  else if char == ']' then progress.closeBracket .flowSequenceEnd
  else if char == '\x7d' then progress.closeBracket .flowMappingEnd
  else if char == ',' then progress.comma
  else if char == '-' && apart then progress.dash
  else if char == '?' && (progress.inFlow || apart) then progress.questionMark
  else if char == ':' && (progress.inFlow || apart) then progress.colon
  else if char == '*' then
    progress.keyPart fun cursor => do
      let (name, next) ← scanName cursor
      return (.alias name, next)
  else if char == '&' then
    progress.keyPart fun cursor => do
      let (name, next) ← scanName cursor
      return (.anchor name, next)
  else if char == '!' then
    progress.keyPart fun cursor => do
      let (written, next) ← scanTag cursor
      return (.tag written, next)
  else if char == '|' && !progress.inFlow then progress.block false
  else if char == '>' && !progress.inFlow then progress.block true
  else if char == '\x27' || char == '\x22' then
    progress.keyPart fun cursor => do
      let (text, next) ← scanQuoted char cursor
      return (.scalar text false, next)
  else if progress.atPlain char then progress.plain
  else .error .malformed

/-- Moves to the next token and closes the blocks that end in front of it. -/
def approach (progress : Progress) : Except Fault Progress := do
  let start :=
    if progress.cursor.index == 0 && progress.cursor.peek == some '\ufeff' then
      { progress with cursor := progress.cursor.advance }
    else progress
  let progress ← (start.skipBlanks (start.cursor.rest.length + 1)).dropStale
  return progress.unwind progress.cursor.column

/-- Reads all tokens; `steps` bounds their number.  At the end every block is
closed. -/
def tokensFrom : (steps : Nat) → Progress → TokenStream
  | 0, progress => ⟨progress.tokens.reverse, some .malformed⟩
  | steps + 1, progress =>
      match progress.approach with
      | .error fault => ⟨progress.tokens.reverse, some fault⟩
      | .ok progress =>
          match progress.cursor.peek with
          | none =>
              let closed := progress.unwind (-1)
              match closed.dropCandidate with
              | .error fault => ⟨closed.tokens.reverse, some fault⟩
              | .ok _ => ⟨closed.tokens.reverse, none⟩
          | some char =>
              match progress.token char with
              | .error fault => ⟨progress.tokens.reverse, some fault⟩
              | .ok progress => tokensFrom steps progress

end Progress

/-- Whether a character may stand in a document. -/
def isAllowed (char : Char) : Bool :=
  let code := char.toNat
  char == '\t' || char == '\n' || char == '\r' || (0x20 ≤ code && code ≤ 0x7e) ||
    code == 0x85 || (0xa0 ≤ code && code ≤ 0xfffd) || 0x10000 ≤ code

def tokenize (text : String) : TokenStream :=
  if text.toList.all isAllowed then
    Progress.tokensFrom (text.length + 1) { cursor := .ofText text }
  else ⟨[], some .malformed⟩

end Yaml

end Schematic
