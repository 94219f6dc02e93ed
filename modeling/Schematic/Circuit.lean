/-!
# Circuits

A circuit is an element, a group of circuits in series or in parallel, or a
twoport: a chain of links between an input and an output pair of terminals.
This file holds these trees and their notation.  A reader of the notation
makes only groups with two or more members and twoports at the root, but every
other tree can be built and written as well.
-/

namespace Schematic

/-- The kinds of elements. -/
inductive ElementKind where
  | resistor
  | capacitor
  | inductor
  | voltageSource
  | currentSource
  | impedance
  | openCircuit
deriving DecidableEq, Repr

namespace ElementKind

/-- Every kind, in the order of their letters. -/
def all : List ElementKind :=
  [.capacitor, .currentSource, .inductor, .openCircuit, .resistor, .voltageSource, .impedance]

/-- The letter that stands for a kind in the notation. -/
def letter : ElementKind → Char
  | .resistor => 'R'
  | .capacitor => 'C'
  | .inductor => 'L'
  | .voltageSource => 'V'
  | .currentSource => 'I'
  | .impedance => 'Z'
  | .openCircuit => 'O'

def ofLetter? : Char → Option ElementKind
  | 'R' => some .resistor
  | 'C' => some .capacitor
  | 'L' => some .inductor
  | 'V' => some .voltageSource
  | 'I' => some .currentSource
  | 'Z' => some .impedance
  | 'O' => some .openCircuit
  | _ => none

def name : ElementKind → String
  | .resistor => "RESISTOR"
  | .capacitor => "CAPACITOR"
  | .inductor => "INDUCTOR"
  | .voltageSource => "VOLTAGE_SOURCE"
  | .currentSource => "CURRENT_SOURCE"
  | .impedance => "IMPEDANCE"
  | .openCircuit => "OPEN_CIRCUIT"

theorem ofLetter?_letter (kind : ElementKind) : ofLetter? kind.letter = some kind := by
  cases kind <;> rfl

end ElementKind

/-- One element, such as `R1`. -/
structure Element where
  kind : ElementKind
  /-- What tells the element from others of its kind; an open circuit has
  none. -/
  identifier : Option String := none
deriving DecidableEq, Repr

namespace Element

/-- The label of an element in a drawing; an open circuit has an empty one. -/
def label (element : Element) : String :=
  if element.kind = .openCircuit then ""
  else String.singleton element.kind.letter ++ element.identifier.getD "None"

def text (element : Element) : String :=
  let label := element.label
  if label.isEmpty then "O" else label

end Element

/-- How a link of a twoport is connected. -/
inductive LinkKind where
  /-- From the signal line down to the return rail. -/
  | shunt
  /-- Along the signal line. -/
  | series
deriving DecidableEq, Repr

namespace LinkKind

/-- The sign in front of a link in the notation. -/
def sign : LinkKind → Char
  | .shunt => '|'
  | .series => '-'

end LinkKind

/-- A link of a twoport to what it connects. -/
structure Link (α : Type) where
  kind : LinkKind
  target : α
deriving DecidableEq, Repr

/-- A circuit. -/
inductive Circuit where
  | element (element : Element)
  /-- Circuits connected end to end. -/
  | series (members : List Circuit)
  /-- Circuits between two shared buses. -/
  | parallel (branches : List Circuit)
  /-- A chain of links between two pairs of terminals. -/
  | twoport (links : List (Link Circuit))
  /-- A link that stands on its own, outside every chain. -/
  | link (link : Link Circuit)
deriving Repr, Inhabited

namespace Circuit

mutual

/-- Whether two circuits are equal, with the proof. -/
def decideEq : (first second : Circuit) → Decidable (first = second)
  | .element first, .element second =>
      if same : first = second then isTrue (by rw [same])
      else isFalse (by simpa using same)
  | .series first, .series second =>
      match decideListEq first second with
      | isTrue same => isTrue (by rw [same])
      | isFalse different => isFalse (by simpa using different)
  | .parallel first, .parallel second =>
      match decideListEq first second with
      | isTrue same => isTrue (by rw [same])
      | isFalse different => isFalse (by simpa using different)
  | .twoport first, .twoport second =>
      match decideLinksEq first second with
      | isTrue same => isTrue (by rw [same])
      | isFalse different => isFalse (by simpa using different)
  | .link ⟨firstKind, first⟩, .link ⟨secondKind, second⟩ =>
      match decideEq first second with
      | isTrue same =>
          if sameKind : firstKind = secondKind then isTrue (by rw [same, sameKind])
          else isFalse (by simp [sameKind])
      | isFalse different => isFalse (by simp [different])
  | .element _, .series _ => isFalse (by simp)
  | .element _, .parallel _ => isFalse (by simp)
  | .element _, .twoport _ => isFalse (by simp)
  | .element _, .link _ => isFalse (by simp)
  | .series _, .element _ => isFalse (by simp)
  | .series _, .parallel _ => isFalse (by simp)
  | .series _, .twoport _ => isFalse (by simp)
  | .series _, .link _ => isFalse (by simp)
  | .parallel _, .element _ => isFalse (by simp)
  | .parallel _, .series _ => isFalse (by simp)
  | .parallel _, .twoport _ => isFalse (by simp)
  | .parallel _, .link _ => isFalse (by simp)
  | .twoport _, .element _ => isFalse (by simp)
  | .twoport _, .series _ => isFalse (by simp)
  | .twoport _, .parallel _ => isFalse (by simp)
  | .twoport _, .link _ => isFalse (by simp)
  | .link _, .element _ => isFalse (by simp)
  | .link _, .series _ => isFalse (by simp)
  | .link _, .parallel _ => isFalse (by simp)
  | .link _, .twoport _ => isFalse (by simp)

/-- Whether two lists of circuits are equal, with the proof. -/
def decideListEq : (first second : List Circuit) → Decidable (first = second)
  | [], [] => isTrue rfl
  | [], _ :: _ => isFalse (by simp)
  | _ :: _, [] => isFalse (by simp)
  | first :: firsts, second :: seconds =>
      match decideEq first second, decideListEq firsts seconds with
      | isTrue same, isTrue sameRest => isTrue (by rw [same, sameRest])
      | isFalse different, _ => isFalse (by simp [different])
      | _, isFalse different => isFalse (by simp [different])

/-- Whether two chains of links are equal, with the proof. -/
def decideLinksEq : (first second : List (Link Circuit)) → Decidable (first = second)
  | [], [] => isTrue rfl
  | [], _ :: _ => isFalse (by simp)
  | _ :: _, [] => isFalse (by simp)
  | ⟨firstKind, first⟩ :: firsts, ⟨secondKind, second⟩ :: seconds =>
      match decideEq first second, decideLinksEq firsts seconds with
      | isTrue same, isTrue sameRest =>
          if sameKind : firstKind = secondKind then
            isTrue (by rw [same, sameRest, sameKind])
          else isFalse (by simp [sameKind])
      | isFalse different, _ => isFalse (by simp [different])
      | _, isFalse different => isFalse (by simp [different])

end

instance : DecidableEq Circuit := decideEq

def grouped (inner : String) : String :=
  "(" ++ inner ++ ")"

mutual

/-- A circuit in the notation.  A parallel group that is a member of a series
group needs no parentheses of its own, because its operator binds tighter. -/
def text : Circuit → String
  | .element single => single.text
  | .series members => grouped ("+".intercalate (memberTexts members))
  | .parallel branches => grouped ("||".intercalate (texts branches))
  | .twoport links => linksText links
  | .link ⟨kind, target⟩ => String.singleton kind.sign ++ target.text

def texts : List Circuit → List String
  | [] => []
  | circuit :: rest => circuit.text :: texts rest

/-- The texts of the members of a series group. -/
def memberTexts : List Circuit → List String
  | [] => []
  | .parallel branches :: rest =>
      "||".intercalate (texts branches) :: memberTexts rest
  | circuit :: rest => circuit.text :: memberTexts rest

def linksText : List (Link Circuit) → String
  | [] => ""
  | ⟨kind, target⟩ :: rest => String.singleton kind.sign ++ target.text ++ linksText rest

end

instance : ToString Circuit := ⟨text⟩

/-- The word for the form of a circuit in log lines. -/
def formName : Circuit → String
  | .element _ => "Element"
  | .series _ => "SeriesGroup"
  | .parallel _ => "ParallelGroup"
  | .twoport _ => "TwoportNetwork"
  | .link _ => "TwoportLink"

end Circuit

end Schematic
