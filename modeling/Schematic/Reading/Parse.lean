import Schematic.Reading.Token

/-!
# Reading circuits

The grammar of the notation has four levels.  A document is a twoport, which
is a chain of links, or a single circuit.  A circuit is an element or a group
in parentheses.  A group is a sum of one or more parallel groups, and a
parallel group joins one or more circuits.  A level with one member is that
member itself.

Two bars side by side are the parallel operator only inside a group; outside of
groups a bar begins a shunt link.  Reading looks one token ahead and stops at
the first fault.
-/

namespace Schematic

namespace Reading

/-- What is left to read. -/
structure Cursor where
  tokens : List Token
  /-- The fault behind these tokens, if there is one. -/
  fault : Option Fault
  /-- The offset just behind the last token that was read. -/
  offset : Int := 0
deriving DecidableEq, Repr

/-- Reads something from the tokens ahead, or meets a fault. -/
abbrev Reader (α : Type) := Cursor → Except Fault (α × Cursor)

namespace Cursor

def ofStream (stream : TokenStream) : Cursor :=
  { tokens := stream.tokens, fault := stream.fault }

/-- The next token.  A stream that stops without an end of input ends where its
last token ended. -/
def current (cursor : Cursor) : Except Fault Token :=
  match cursor.tokens, cursor.fault with
  | token :: _, _ => .ok token
  | [], some fault => .error fault
  | [], none => .ok ⟨.endOfInput, cursor.offset, none⟩

/-- Moves behind the next token.  Nothing lies behind the end of input. -/
def advance (cursor : Cursor) : Cursor :=
  match cursor.tokens with
  | [] => cursor
  | token :: rest =>
      if token.kind = .endOfInput then cursor
      else { cursor with tokens := rest, offset := token.finish }

/-- The fault of a token that is not what was expected. -/
def unexpected (token : Token) (expected : String) : Fault :=
  ⟨token.position, .unexpectedToken token.describe expected⟩

def expect (cursor : Cursor) (kind : TokenKind) (expected : String) : Except Fault Cursor := do
  let token ← cursor.current
  if token.kind = kind then
    return cursor.advance
  else
    throw (unexpected token expected)

end Cursor

/-- How many groups may be nested in one another. -/
def nestingLimit : Nat := 330

def circuitStart : String :=
  "an element (O, R, C, L, V, I, Z) or '('"

/-- Reads one operator, if there is one. -/
abbrev OperatorReader := Cursor → Except Fault (Option Cursor)

/-- Reads one or more items with operators between them; `steps` bounds the
number of operators. -/
def readChain {α : Type} (item : Reader α) (operator : OperatorReader) :
    Nat → Reader (List α)
  | 0, cursor => do
      let (first, cursor) ← item cursor
      return ([first], cursor)
  | steps + 1, cursor => do
      let (first, cursor) ← item cursor
      match ← operator cursor with
      | none => return ([first], cursor)
      | some cursor =>
          let (rest, cursor) ← readChain item operator steps cursor
          return (first :: rest, cursor)

/-- The operator between the members of a series group. -/
def readPlus : OperatorReader := fun cursor => do
  let token ← cursor.current
  if token.kind = .plus then
    return some cursor.advance
  else
    return none

/-- The operator between the branches of a parallel group: a token of its own,
or two bars. -/
def readParallel : OperatorReader := fun cursor => do
  let token ← cursor.current
  if token.kind = .doublePipe then
    return some cursor.advance
  else if token.kind = .pipe then
    let next ← cursor.advance.current
    if next.kind = .pipe then
      return some cursor.advance.advance
    else
      throw ⟨token.position, .loneBar⟩
  else
    return none

def collapse (group : List Circuit → Circuit) : List Circuit → Circuit
  | [single] => single
  | members => group members

def readBranches (circuit : Reader Circuit) : Reader Circuit := fun cursor => do
  let (branches, cursor) ← readChain circuit readParallel cursor.tokens.length cursor
  return (collapse .parallel branches, cursor)

/-- Reads a sum of parallel groups of circuits. -/
def readMembers (circuit : Reader Circuit) : Reader Circuit := fun cursor => do
  let (members, cursor) ←
    readChain (readBranches circuit) readPlus cursor.tokens.length cursor
  return (collapse .series members, cursor)

/-- The kind of element that the value of a letter token stands for. -/
def kindOfValue? (value : Option String) : Option ElementKind :=
  match value.map String.toList with
  | some [letter] => ElementKind.ofLetter? letter
  | _ => none

/-- Reads the identifier of an element whose letter was `letter`. -/
def readElement (letter : Token) : Reader Circuit := fun cursor => do
  match kindOfValue? letter.value with
  | none => throw ⟨letter.position, .unknownLetter letter.shownValue⟩
  | some kind =>
      let next ← cursor.current
      if kind = .openCircuit then
        throw (Cursor.unexpected next "an operator or ')' after open circuit 'O'")
      else if next.kind = .identifier then
        return (.element ⟨kind, next.value⟩, cursor.advance)
      else
        throw ⟨letter.position, .missingIdentifier letter.shownValue⟩

/-- Reads an element or a group; `depth` is how many groups may still be
opened. -/
def readCircuit : (depth : Nat) → Reader Circuit
  | depth, cursor => do
      let token ← cursor.current
      match token.kind with
      | .openGroup =>
          let inner := cursor.advance
          match depth with
          | 0 => throw ⟨inner.offset, .nestingTooDeep⟩
          | depth + 1 =>
              let next ← inner.current
              if next.kind = .closeGroup then
                throw ⟨token.position, .emptyGroup⟩
              else
                let (group, cursor) ← readMembers (readCircuit depth) inner
                let cursor ← cursor.expect .closeGroup "'+', '||' or ')'"
                return (group, cursor)
      | .elementLetter => readElement token cursor.advance
      | .openCircuit => return (.element ⟨.openCircuit, none⟩, cursor.advance)
      | _ => throw (Cursor.unexpected token circuitStart)

/-- The kind of link that a token begins. -/
def linkKind? : TokenKind → Option LinkKind
  | .pipe => some .shunt
  | .dash => some .series
  | _ => none

/-- Reads links as long as there are any; `steps` bounds their number. -/
def readLinks (circuit : Reader Circuit) : Nat → Reader (List (Link Circuit))
  | 0, cursor => return ([], cursor)
  | steps + 1, cursor => do
      let token ← cursor.current
      match linkKind? token.kind with
      | none => return ([], cursor)
      | some kind =>
          let (target, cursor) ← circuit cursor.advance
          let (rest, cursor) ← readLinks circuit steps cursor
          return (⟨kind, target⟩ :: rest, cursor)

/-- Reads the root of a document: a twoport or a circuit. -/
def readRoot : Reader Circuit := fun cursor => do
  let token ← cursor.current
  if (linkKind? token.kind).isSome then
    let (links, cursor) ←
      readLinks (readCircuit nestingLimit) (cursor.tokens.length + 1) cursor
    return (.twoport links, cursor)
  else
    readCircuit nestingLimit cursor

/-- Reads a document to the end of its tokens. -/
def parseTokens (stream : TokenStream) : Except Fault Circuit := do
  let (root, cursor) ← readRoot (.ofStream stream)
  let _ ← cursor.expect .endOfInput "end of input"
  return root

def parse (text : String) : Except Fault Circuit :=
  parseTokens (tokenize text)

end Reading

end Schematic
