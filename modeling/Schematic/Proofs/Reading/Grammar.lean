import Schematic.Circuit

/-!
# The grammar of the notation

The notation has a grammar with one rule for every level, and each rule says
which circuit it builds.  This file states the rules on their own, without
tokens and without looking ahead.  A rule relates a text to a circuit and to
the rest of the text behind it.

The rules only compare characters, so a text may derive a circuit in front of
any rest; a whole document is derived in front of the empty one.
-/

namespace Schematic

namespace Grammar

/-- Nothing behind an element goes on with its identifier: the rest begins with
no letter or digit of ASCII. -/
def Stops (rest : List Char) : Prop :=
  ∀ char ∈ rest.head?, char.isAlphanum = false

/-- An element in front of a rest: an open circuit, or the letter of another
kind with as many letters and digits behind it as there are. -/
inductive ElementForm : List Char → Element → List Char → Prop where
  | openCircuit {rest : List Char} :
      Stops rest → ElementForm ('O' :: rest) ⟨.openCircuit, none⟩ rest
  | named {kind : ElementKind} {identifier rest : List Char} :
      kind ≠ .openCircuit → identifier ≠ [] →
      (∀ char ∈ identifier, char.isAlphanum = true) → Stops rest →
      ElementForm (kind.letter :: (identifier ++ rest))
        ⟨kind, some (String.ofList identifier)⟩ rest

/-- What a level of the grammar makes of its members: one member stands for
itself, several are a group. -/
inductive Collapsed (group : List Circuit → Circuit) : List Circuit → Circuit → Prop where
  | single {circuit : Circuit} : Collapsed group [circuit] circuit
  | several {members : List Circuit} :
      2 ≤ members.length → Collapsed group members (group members)

mutual

/-- `subcircuit := element | '(' series_group ')'`. -/
inductive Subcircuit : List Char → Circuit → List Char → Prop where
  | element {input rest : List Char} {element : Element} :
      ElementForm input element rest → Subcircuit input (.element element) rest
  | group {input rest : List Char} {circuit : Circuit} :
      SeriesGroup input circuit (')' :: rest) → Subcircuit ('(' :: input) circuit rest

/-- A series group is one member or the sum of several. -/
inductive SeriesGroup : List Char → Circuit → List Char → Prop where
  | of {input rest : List Char} {members : List Circuit} {circuit : Circuit} :
      Members input members rest → Collapsed .series members circuit →
      SeriesGroup input circuit rest

/-- `parallel_group ('+' parallel_group)*`. -/
inductive Members : List Char → List Circuit → List Char → Prop where
  | last {input rest : List Char} {member : Circuit} :
      ParallelGroup input member rest → Members input [member] rest
  | more {input middle rest : List Char} {member : Circuit} {members : List Circuit} :
      ParallelGroup input member ('+' :: middle) → Members middle members rest →
      Members input (member :: members) rest

/-- A parallel group is one branch or several between two buses. -/
inductive ParallelGroup : List Char → Circuit → List Char → Prop where
  | of {input rest : List Char} {branches : List Circuit} {circuit : Circuit} :
      Branches input branches rest → Collapsed .parallel branches circuit →
      ParallelGroup input circuit rest

/-- `subcircuit ('||' subcircuit)*`. -/
inductive Branches : List Char → List Circuit → List Char → Prop where
  | last {input rest : List Char} {branch : Circuit} :
      Subcircuit input branch rest → Branches input [branch] rest
  | more {input middle rest : List Char} {branch : Circuit} {branches : List Circuit} :
      Subcircuit input branch ('|' :: '|' :: middle) → Branches middle branches rest →
      Branches input (branch :: branches) rest

end

/-- `link+`, where `link := ('|' | '-') subcircuit`. -/
inductive Links : List Char → List (Link Circuit) → List Char → Prop where
  | last {kind : LinkKind} {input rest : List Char} {target : Circuit} :
      Subcircuit input target rest → Links (kind.sign :: input) [⟨kind, target⟩] rest
  | more {kind : LinkKind} {input middle rest : List Char} {target : Circuit}
      {links : List (Link Circuit)} :
      Subcircuit input target middle → Links middle links rest →
      Links (kind.sign :: input) (⟨kind, target⟩ :: links) rest

/-- `document := twoport | subcircuit`, up to the end of the text. -/
inductive Document : List Char → Circuit → Prop where
  | circuit {text : List Char} {circuit : Circuit} :
      Subcircuit text circuit [] → Document text circuit
  | twoport {text : List Char} {links : List (Link Circuit)} :
      Links text links [] → Document text (.twoport links)

/-- How many groups are open at once at most in a text, if `level` groups are
open in front of it. -/
def nesting : (level : Nat) → List Char → Nat
  | level, [] => level
  | level, char :: rest =>
      if char = '(' then nesting (level + 1) rest
      else if char = ')' then max level (nesting (level - 1) rest)
      else nesting level rest

/-! ## Rests -/

@[simp]
theorem stops_nil : Stops [] := by
  simp [Stops]

@[simp]
theorem stops_cons (char : Char) (rest : List Char) :
    Stops (char :: rest) ↔ char.isAlphanum = false := by
  simp [Stops]

/-! ## Chains -/

theorem Branches.ne_nil {input rest : List Char} {branches : List Circuit}
    (derived : Branches input branches rest) : branches ≠ [] := by
  cases derived <;> simp

theorem Members.ne_nil {input rest : List Char} {members : List Circuit}
    (derived : Members input members rest) : members ≠ [] := by
  cases derived <;> simp

/-! ## Nesting -/

/-- A character that neither opens nor closes a group. -/
def IsPlain (char : Char) : Prop :=
  char ≠ '(' ∧ char ≠ ')'

theorem isPlain_of_isAlphanum {char : Char} (alphanumeric : char.isAlphanum = true) :
    IsPlain char := by
  constructor <;> rintro rfl <;> exact absurd alphanumeric (by decide)

theorem isPlain_letter (kind : ElementKind) : IsPlain kind.letter := by
  cases kind <;> simp [IsPlain, ElementKind.letter]

theorem isPlain_sign (kind : LinkKind) : IsPlain kind.sign := by
  cases kind <;> simp [IsPlain, LinkKind.sign]

@[simp]
theorem nesting_open (level : Nat) (rest : List Char) :
    nesting level ('(' :: rest) = nesting (level + 1) rest := by
  simp [nesting]

@[simp]
theorem nesting_close (level : Nat) (rest : List Char) :
    nesting level (')' :: rest) = max level (nesting (level - 1) rest) := by
  simp [nesting]

theorem nesting_plain {char : Char} (plain : IsPlain char) (level : Nat)
    (rest : List Char) : nesting level (char :: rest) = nesting level rest := by
  simp [nesting, plain.1, plain.2]

theorem nesting_append_plain {plain : List Char} (allPlain : ∀ char ∈ plain, IsPlain char)
    (level : Nat) (rest : List Char) :
    nesting level (plain ++ rest) = nesting level rest := by
  induction plain with
  | nil => rfl
  | cons char plain ih =>
      rw [List.cons_append, nesting_plain (allPlain char (by simp))]
      exact ih fun other mem => allPlain other (by simp [mem])

theorem le_nesting (level : Nat) (text : List Char) : level ≤ nesting level text := by
  induction text generalizing level with
  | nil => exact Nat.le_refl level
  | cons char rest ih =>
      have nextLevel := ih (level + 1)
      have sameLevel := ih level
      unfold nesting
      split
      · omega
      · split <;> omega

theorem nesting_append_le (first : List Char) {second third : List Char}
    (shallower : ∀ level, nesting level second ≤ nesting level third) (level : Nat) :
    nesting level (first ++ second) ≤ nesting level (first ++ third) := by
  induction first generalizing level with
  | nil => exact shallower level
  | cons char first ih =>
      have deeper := ih (level + 1)
      have higher := ih (level - 1)
      have same := ih level
      rw [List.cons_append, List.cons_append]
      unfold nesting
      split
      · exact deeper
      · split <;> omega

/-- An element opens and closes no group. -/
theorem ElementForm.nesting_eq {input rest : List Char} {element : Element}
    (form : ElementForm input element rest) (level : Nat) :
    nesting level input = nesting level rest := by
  cases form with
  | openCircuit stops => exact nesting_plain (by simp [IsPlain]) level rest
  | named notOpen nonempty alphanumeric stops =>
      rw [nesting_plain (isPlain_letter _)]
      exact nesting_append_plain
        (fun char mem => isPlain_of_isAlphanum (alphanumeric char mem)) level rest

mutual

/-- A circuit closes every group that it opens, so the rest behind it is nested
no deeper than the whole text. -/
theorem Subcircuit.nesting_le {input rest : List Char} {circuit : Circuit} (level : Nat) :
    Subcircuit input circuit rest → nesting level rest ≤ nesting level input
  | .element form => Nat.le_of_eq (form.nesting_eq level).symm
  | .group inner => by
      have inside := SeriesGroup.nesting_le (level + 1) inner
      rw [nesting_close, Nat.add_sub_cancel] at inside
      rw [nesting_open]
      exact Nat.le_trans (Nat.le_max_right _ _) inside

theorem SeriesGroup.nesting_le {input rest : List Char} {circuit : Circuit} (level : Nat) :
    SeriesGroup input circuit rest → nesting level rest ≤ nesting level input
  | .of inner _ => Members.nesting_le level inner

theorem Members.nesting_le {input rest : List Char} {members : List Circuit} (level : Nat) :
    Members input members rest → nesting level rest ≤ nesting level input
  | .last inner => ParallelGroup.nesting_le level inner
  | .more first others => by
      have behindFirst := ParallelGroup.nesting_le level first
      rw [nesting_plain (by simp [IsPlain])] at behindFirst
      exact Nat.le_trans (Members.nesting_le level others) behindFirst

theorem ParallelGroup.nesting_le {input rest : List Char} {circuit : Circuit} (level : Nat) :
    ParallelGroup input circuit rest → nesting level rest ≤ nesting level input
  | .of inner _ => Branches.nesting_le level inner

theorem Branches.nesting_le {input rest : List Char} {branches : List Circuit} (level : Nat) :
    Branches input branches rest → nesting level rest ≤ nesting level input
  | .last inner => Subcircuit.nesting_le level inner
  | .more first others => by
      have behindFirst := Subcircuit.nesting_le level first
      rw [nesting_plain (by simp [IsPlain]), nesting_plain (by simp [IsPlain])] at behindFirst
      exact Nat.le_trans (Branches.nesting_le level others) behindFirst

end

end Grammar

end Schematic
