import Schematic.Proofs.Reading.Complete

/-!
# Reading is the inverse of the grammar

Soundness and completeness of the readers together say that a text is read
exactly as the grammar derives it.  A reader has one result for every text, so
a derived circuit is the only one that a text derives.
-/

namespace Schematic

namespace Reading

open Grammar

/-- In front of the same rest a text derives one circuit. -/
theorem Subcircuit.unique {input rest : List Char} {first second : Circuit}
    (derivedFirst : Subcircuit input first rest)
    (derivedSecond : Subcircuit input second rest) : first = second := by
  have enough : nesting 0 input ≤ 0 + nesting 0 input := by omega
  obtain ⟨_, readFirst, -⟩ := readCircuit_complete 0 _ enough derivedFirst 0
  obtain ⟨_, readSecond, -⟩ := readCircuit_complete 0 _ enough derivedSecond 0
  exact congrArg Prod.fst (Except.ok.inj (readFirst.symm.trans readSecond))

theorem Links.unique {input : List Char} {first second : List (Link Circuit)}
    (derivedFirst : Links input first []) (derivedSecond : Links input second []) :
    first = second := by
  have enough : nesting 0 input ≤ 0 + nesting 0 input := by omega
  obtain ⟨_, readFirst⟩ := readLinks_complete derivedFirst rfl enough 0 _ (Nat.le_refl _)
  obtain ⟨_, readSecond⟩ := readLinks_complete derivedSecond rfl enough 0 _ (Nat.le_refl _)
  exact congrArg Prod.fst (Except.ok.inj (readFirst.symm.trans readSecond))

/-- No text is both a circuit and a chain of links. -/
theorem Subcircuit.not_links {input rest others : List Char} {circuit : Circuit}
    {links : List (Link Circuit)} (derived : Subcircuit input circuit rest) :
    ¬ Links input links others := by
  intro chain
  obtain ⟨first, currentFirst, noLink⟩ := Subcircuit.linkKind?_eq_none derived 0
  obtain ⟨second, currentSecond, isLink⟩ := Links.linkKind?_isSome chain 0
  rw [currentFirst] at currentSecond
  cases currentSecond
  simp [noLink] at isLink

/-- The grammar derives at most one circuit from a text. -/
theorem Document.unique {text : List Char} {first second : Circuit}
    (derivedFirst : Document text first) (derivedSecond : Document text second) :
    first = second := by
  cases derivedFirst with
  | circuit derivedFirst =>
      cases derivedSecond with
      | circuit derivedSecond => exact Subcircuit.unique derivedFirst derivedSecond
      | twoport derivedSecond => exact absurd derivedSecond (Subcircuit.not_links derivedFirst)
  | twoport derivedFirst =>
      cases derivedSecond with
      | circuit derivedSecond => exact absurd derivedFirst (Subcircuit.not_links derivedSecond)
      | twoport derivedSecond => rw [Links.unique derivedFirst derivedSecond]

/-- A text whose parentheses nest at most a hundred deep is read as the circuit
that the grammar derives from it; there is at most one such circuit, and a text
that derives none is refused with a fault. -/
theorem parse_iff_document (text : String) :
    (nesting 0 text.toList ≤ 100 →
      ∀ circuit, parse text = .ok circuit ↔ Document text.toList circuit) ∧
    (∀ first second, Document text.toList first → Document text.toList second →
      first = second) ∧
    ((∀ circuit, ¬ Document text.toList circuit) → ∃ fault, parse text = .error fault) := by
  refine ⟨fun shallow circuit => ⟨fun parsed => (document_of_parse parsed).1, ?_⟩, ?_, ?_⟩
  · intro derived
    exact parse_of_document derived (Nat.le_trans shallow (by decide))
  · intro first second derivedFirst derivedSecond
    exact Document.unique derivedFirst derivedSecond
  · intro notDerived
    cases parsed : parse text with
    | error fault => exact ⟨fault, rfl⟩
    | ok circuit => exact absurd (document_of_parse parsed).1 (notDerived circuit)

/-- A ladder with a group inside of a group, an open circuit in front of a bar,
and a bar behind a parenthesis. -/
theorem parse_iff_document_ladder :
    nesting 0 "|V1-(R1+(L2||O)||C3)|O".toList ≤ 100 ∧
      Document "|V1-(R1+(L2||O)||C3)|O".toList
        (.twoport [⟨.shunt, .element ⟨.voltageSource, some "1"⟩⟩,
          ⟨.series, .series [.element ⟨.resistor, some "1"⟩,
            .parallel [.parallel [.element ⟨.inductor, some "2"⟩, .element ⟨.openCircuit, none⟩],
              .element ⟨.capacitor, some "3"⟩]]⟩,
          ⟨.shunt, .element ⟨.openCircuit, none⟩⟩]) := by
  have shallow : nesting 0 "|V1-(R1+(L2||O)||C3)|O".toList ≤ 100 := by decide
  refine ⟨shallow, ((parse_iff_document _).1 shallow _).mp (eq_ok_of_toOption ?_)⟩
  decide +kernel

end Reading

end Schematic
