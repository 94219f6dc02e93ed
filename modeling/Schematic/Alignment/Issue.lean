import Schematic.Alignment.Check
import Schematic.Diagnostic

/-!
# Issues

An issue is a finding as it is told to a user.  A layout with errors is refused
with a report that lists them; warnings alone do not stop it.
-/

namespace Schematic

namespace Alignment

/-- A finding as it is told to a user. -/
structure Issue where
  severity : Severity
  code : String
  message : String
  /-- The circuit that has the issue, in the notation. -/
  circuit : Option String := none
  /-- Which parts of the circuit are involved. -/
  details : Text.Arguments := []

namespace Issue

def text (issue : Issue) : String :=
  let head := "[" ++ issue.severity.name ++ " - " ++ issue.code ++ "]"
  let circuit := (Diagnostic.filled? issue.circuit).toList.map ("Node: " ++ ·)
  let details :=
    if issue.details.isEmpty then []
    else ["Details: (" ++ Text.Arguments.summary issue.details ++ ")"]
  " ".intercalate (head :: circuit ++ ["Message: " ++ issue.message] ++ details)

def ofFinding {α : Type} [Text.Mentionable α] (located : Located α) : Issue :=
  let finding := located.finding
  { severity := finding.kind.severity
    code := finding.kind.code
    message := finding.message
    circuit := some located.circuit.text
    details := finding.indexValues }

end Issue

def issues {α : Type} [Scalar α] [Text.Mentionable α] (layout : Layout α) : List Issue :=
  (check layout).map Issue.ofFinding

/-- The errors for which a layout is refused. -/
structure Refusal where
  errors : List Issue

namespace Refusal

/-- The refusal for a list of issues: warnings are left out. -/
def ofIssues (issues : List Issue) : Refusal :=
  ⟨issues.filter fun issue => issue.severity == .error⟩

def errorLines (refusal : Refusal) : String :=
  Text.joinLines (refusal.errors.map ("  - " ++ ·.text))

def countText (refusal : Refusal) : String :=
  toString refusal.errors.length ++ " error(s)"

def message (refusal : Refusal) : String :=
  "Layout validation failed with " ++ refusal.countText ++ ":\n" ++ refusal.errorLines

def diagnostic (refusal : Refusal) : Diagnostic where
  heading := "Layout Validation Error"
  details :=
    "The computed diagram does not keep its ports aligned.\n" ++
      "Found " ++ refusal.countText ++ ". See details below:\n\n" ++ refusal.errorLines
  suggestion :=
    "This indicates a bug in the layout engine or a custom symbol with " ++
      "inconsistent port offsets."
  locus := { circuit := refusal.errors.head?.bind Issue.circuit }

end Refusal

def accept (issues : List Issue) : Except Refusal Unit :=
  if issues.any fun issue => issue.severity == .error then .error (.ofIssues issues)
  else .ok ()

end Alignment

end Schematic
