import Schematic.Circuit
import Schematic.Reading.Fault

/-!
# Tokens of the notation

A text is read as a stream of tokens: operators, parentheses, element letters
and identifiers, with the end of the input as the last one.  The stream stops
at the first character that begins no token.
-/

namespace Schematic

namespace Reading

/-- The kinds of tokens. -/
inductive TokenKind where
  | pipe
  | dash
  | plus
  | doublePipe
  | openGroup
  | closeGroup
  | elementLetter
  | identifier
  | openCircuit
  | endOfInput
deriving DecidableEq, Repr

/-- A token with the offset of its first character. -/
structure Token where
  kind : TokenKind
  position : Int
  /-- The letter of an element or the characters of an identifier. -/
  value : Option String := none
deriving DecidableEq, Repr

namespace Token

/-- The value of a token inside a message. -/
def shownValue (token : Token) : String :=
  token.value.getD "None"

def describe (token : Token) : String :=
  match token.kind with
  | .pipe => "'|'"
  | .dash => "'-'"
  | .plus => "'+'"
  | .doublePipe => "'||'"
  | .openGroup => "'('"
  | .closeGroup => "')'"
  | .elementLetter => "element letter '" ++ token.shownValue ++ "'"
  | .identifier => "identifier '" ++ token.shownValue ++ "'"
  | .openCircuit => "open circuit 'O'"
  | .endOfInput => "end of input"

/-- The number of characters of a token; one that carries none counts as one
character. -/
def width (token : Token) : Nat :=
  max 1 (token.value.getD "").length

def finish (token : Token) : Int :=
  token.position + token.width

end Token

/-- Tokens in the order of the text, and the fault that ended them early. -/
structure TokenStream where
  tokens : List Token
  /-- The fault behind the last token, if the text was not read to its end. -/
  fault : Option Fault := none
deriving DecidableEq, Repr

namespace TokenStream

/-- Puts a token in front of a stream. -/
def push (token : Token) (stream : TokenStream) : TokenStream :=
  { stream with tokens := token :: stream.tokens }

end TokenStream

/-- The token that a single character is by itself. -/
def operatorKind? : Char → Option TokenKind
  | '|' => some .pipe
  | '-' => some .dash
  | '+' => some .plus
  | '(' => some .openGroup
  | ')' => some .closeGroup
  | _ => none

/-- Whether a character may stand in an identifier: a letter or a digit of
ASCII. -/
def isIdentifierChar (char : Char) : Bool :=
  char.isAlphanum

/-- Reads tokens from the offset `position` on.  The first `skip` characters
belong to an identifier that has been read already. -/
def scan : (position skip : Nat) → List Char → TokenStream
  | position, _, [] => ⟨[⟨.endOfInput, position, none⟩], none⟩
  | position, skip + 1, _ :: rest => scan (position + 1) skip rest
  | position, 0, char :: rest =>
      match operatorKind? char with
      | some kind => (scan (position + 1) 0 rest).push ⟨kind, position, none⟩
      | none =>
          if (ElementKind.ofLetter? char).isSome then
            let identifier := rest.takeWhile isIdentifierChar
            if identifier.isEmpty then
              (scan (position + 1) 0 rest).push <|
                if char = 'O' then ⟨.openCircuit, position, none⟩
                else ⟨.elementLetter, position, some (String.singleton char)⟩
            else
              ((scan (position + 1) identifier.length rest).push
                ⟨.identifier, position + 1, some (String.ofList identifier)⟩).push
                ⟨.elementLetter, position, some (String.singleton char)⟩
          else
            ⟨[], some ⟨position, .unexpectedCharacter (String.singleton char)⟩⟩

def tokenize (text : String) : TokenStream :=
  scan 0 0 text.toList

end Reading

end Schematic
