import Schematic.Diagnostic
import Schematic.Text.Quoted

/-!
# Faults of the notation

A text that is not in the notation has one fault: the first that a reader
meets, at an offset in the text.  This file holds the causes of faults and
their wording.
-/

namespace Schematic

namespace Reading

/-- Why a text is not in the notation. -/
inductive Cause where
  | unexpectedCharacter (character : String)
  /-- A token in a place where the grammar does not allow it. -/
  | unexpectedToken (found expected : String)
  /-- A bar inside parentheses that no second bar follows. -/
  | loneBar
  | missingIdentifier (letter : String)
  | emptyGroup
  | unknownLetter (letter : String)
  | nestingTooDeep
deriving DecidableEq, Repr

namespace Cause

def message : Cause → String
  | .unexpectedCharacter character => "Unexpected character " ++ Text.quoted character
  | .unexpectedToken found expected => "Expected " ++ expected ++ ", found " ++ found
  | .loneBar =>
      "Expected '||' (parallel operator); shunt links are only allowed at the top level, " ++
        "found a single '|'"
  | .missingIdentifier letter =>
      "Element letter '" ++ letter ++ "' must be followed by an identifier"
  | .emptyGroup => "Parentheses enclose an empty group"
  | .unknownLetter letter => "Unknown element letter " ++ Text.quoted letter
  | .nestingTooDeep => "Groups are nested too deeply to parse"

/-- The heading of a report on the cause. -/
def heading : Cause → String
  | .unexpectedCharacter _ => "Unexpected Character"
  | .unexpectedToken _ _ => "Unexpected Token"
  | .loneBar => "Unexpected Token"
  | .missingIdentifier _ => "Missing Identifier"
  | .emptyGroup => "Empty Group"
  | .unknownLetter _ => "Unknown Element Letter"
  | .nestingTooDeep => "Nesting Too Deep"

/-- What a user can do about tokens in the wrong place. -/
def tokenSuggestion : String :=
  "A circuit is an element (e.g. R1) or a parenthesized group such as (R1+R2||R3); " ++
    "a twoport is a chain of '|' (shunt) and '-' (series) links such as |V1-R1|R2."

/-- What a user can do about the cause. -/
def suggestion : Cause → String
  | .unexpectedCharacter _ =>
      "Only the operators '|', '-', '+', '||', parentheses and the element letters " ++
        "O, R, C, L, V, I, Z followed by an alphanumeric identifier are allowed. " ++
        "Whitespace is not permitted anywhere."
  | .unexpectedToken _ _ => tokenSuggestion
  | .loneBar => tokenSuggestion
  | .missingIdentifier _ =>
      "Follow the element letter with an alphanumeric identifier, e.g. R1, Cload or Zth1."
  | .emptyGroup => "Put at least one element between the parentheses, or remove them."
  | .unknownLetter _ => "Use one of the element letters O, R, C, L, V, I or Z."
  | .nestingTooDeep =>
      "Reduce the nesting depth of parenthesized groups; " ++
        "redundant parentheses can be removed."

end Cause

/-- A fault: its cause and its offset in the text. -/
structure Fault where
  /-- The offset of the offending character or token. -/
  position : Int
  cause : Cause
deriving DecidableEq, Repr

namespace Fault

/-- The fault with its position, in one line. -/
def text (fault : Fault) : String :=
  fault.cause.message ++ " (at position " ++ toString fault.position ++ ")"

def diagnostic (fault : Fault) (source : String) : Diagnostic where
  heading := fault.cause.heading
  details := fault.cause.message
  suggestion := fault.cause.suggestion
  locus := { position := some fault.position, source := some source }

/-- How far a text could still have become part of the notation when the fault
was met.  Some faults show only at the character behind the one they name. -/
def reach (fault : Fault) : Int :=
  match fault.cause with
  | .loneBar => fault.position + 1
  | .missingIdentifier _ => fault.position + 1
  | .emptyGroup => fault.position + 1
  | _ => fault.position

end Fault

end Reading

end Schematic
