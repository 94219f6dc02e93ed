import Schematic.Proofs.Reading.Correct

/-!
# The circuits that the notation stands for

A circuit can be written and read again only if it is well formed: its groups
have at least two parts, twoports stand only at the root, and its elements have
the identifiers that the notation can write.  This file proves that every
circuit that is read is well formed.
-/

namespace Schematic

/-- An element that the notation can write. -/
inductive Element.WellFormed : Element → Prop where
  | openCircuit : WellFormed ⟨.openCircuit, none⟩
  | named {kind : ElementKind} {identifier : String} :
      kind ≠ .openCircuit → identifier ≠ "" →
      (∀ char ∈ identifier.toList, char.isAlphanum = true) →
      WellFormed ⟨kind, some identifier⟩

namespace Circuit

/-- A well-formed circuit that may be a part of another one. -/
inductive IsPart : Circuit → Prop where
  | element {element : Element} : element.WellFormed → IsPart (.element element)
  | series {members : List Circuit} :
      2 ≤ members.length → (∀ member ∈ members, IsPart member) → IsPart (.series members)
  | parallel {branches : List Circuit} :
      2 ≤ branches.length → (∀ branch ∈ branches, IsPart branch) → IsPart (.parallel branches)

/-- A well-formed circuit: a part, or a twoport with such parts at its links. -/
inductive WellFormed : Circuit → Prop where
  | part {circuit : Circuit} : IsPart circuit → WellFormed circuit
  | twoport {links : List (Link Circuit)} :
      links ≠ [] → (∀ link ∈ links, IsPart link.target) → WellFormed (.twoport links)

end Circuit

namespace Grammar

open Circuit

theorem ElementForm.wellFormed {input rest : List Char} {element : Element}
    (form : ElementForm input element rest) : element.WellFormed := by
  cases form with
  | openCircuit stops => exact .openCircuit
  | named notOpen nonempty alphanumeric stops =>
      refine .named notOpen ?_ ?_
      · simpa [String.ofList_eq_empty_iff] using nonempty
      · simpa using alphanumeric

theorem Collapsed.isPart {group : List Circuit → Circuit} {members : List Circuit}
    {circuit : Circuit}
    (grouped : 2 ≤ members.length → (∀ member ∈ members, IsPart member) →
      IsPart (group members))
    (parts : ∀ member ∈ members, IsPart member) (collapsed : Collapsed group members circuit) :
    IsPart circuit := by
  cases collapsed with
  | single => exact parts circuit (by simp)
  | several several => exact grouped several parts

mutual

theorem Subcircuit.isPart {input rest : List Char} {circuit : Circuit} :
    Subcircuit input circuit rest → IsPart circuit
  | .element form => .element form.wellFormed
  | .group inner => SeriesGroup.isPart inner

theorem SeriesGroup.isPart {input rest : List Char} {circuit : Circuit} :
    SeriesGroup input circuit rest → IsPart circuit
  | .of inner collapsed => collapsed.isPart .series (Members.isPart inner)

theorem Members.isPart {input rest : List Char} {members : List Circuit} :
    Members input members rest → ∀ member ∈ members, IsPart member
  | .last inner => by simpa using ParallelGroup.isPart inner
  | .more first others => by
      simpa using ⟨ParallelGroup.isPart first, Members.isPart others⟩

theorem ParallelGroup.isPart {input rest : List Char} {circuit : Circuit} :
    ParallelGroup input circuit rest → IsPart circuit
  | .of inner collapsed => collapsed.isPart .parallel (Branches.isPart inner)

theorem Branches.isPart {input rest : List Char} {branches : List Circuit} :
    Branches input branches rest → ∀ branch ∈ branches, IsPart branch
  | .last inner => by simpa using Subcircuit.isPart inner
  | .more first others => by
      simpa using ⟨Subcircuit.isPart first, Branches.isPart others⟩

end

theorem Links.isPart {input rest : List Char} {links : List (Link Circuit)}
    (derived : Links input links rest) : ∀ link ∈ links, IsPart link.target := by
  induction derived with
  | last derived => simpa using Subcircuit.isPart derived
  | more derived others ih => simpa using ⟨Subcircuit.isPart derived, ih⟩

theorem Links.ne_nil {input rest : List Char} {links : List (Link Circuit)}
    (derived : Links input links rest) : links ≠ [] := by
  cases derived <;> simp

/-- Whatever the grammar derives is well formed. -/
theorem Document.wellFormed {text : List Char} {circuit : Circuit}
    (derived : Document text circuit) : circuit.WellFormed := by
  cases derived with
  | circuit derived => exact .part (Subcircuit.isPart derived)
  | twoport derived => exact .twoport derived.ne_nil derived.isPart

end Grammar

namespace Reading

/-- Whatever is read is well formed. -/
theorem wellFormed_of_parse {text : String} {circuit : Circuit}
    (parsed : parse text = .ok circuit) : circuit.WellFormed :=
  (document_of_parse parsed).1.wellFormed

end Reading

end Schematic
