/-!
# Faults of YAML documents

A document can fail to be YAML at all, and a YAML document can hold a node that
has no value.
-/

namespace Schematic

namespace Yaml

/-- Why a document has no value. -/
inductive Fault where
  /-- The text is not a YAML document, or not one of plain data. -/
  | malformed
  /-- An escape names a code point beyond the last character. -/
  | noCharacter (code : Nat)
  /-- A scalar that must be a number is none. -/
  | noNumber
  /-- A scalar that must be a number is empty. -/
  | noDigits
  /-- A scalar that must be a truth value is none. -/
  | noTruth
  /-- A date or a time that does not exist. -/
  | noMoment
  /-- A scalar that must be a date does not look like one. -/
  | noDate
  /-- A mapping stands where a scalar must be a date. -/
  | noDateText
  /-- A number has so many parts that the unit of the first is beyond double
  precision. -/
  | tooManyParts
  /-- A mapping stands for a scalar, and its text is that of the mapping. -/
  | endlessText
  /-- Nodes are nested too deeply. -/
  | tooDeep
deriving DecidableEq, Repr

end Yaml

end Schematic
