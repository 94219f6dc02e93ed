import Schematic.Proofs.Reading.WellFormed

/-!
# The notation is a normal form

Writing a well-formed circuit gives a text from which the grammar derives that
circuit and nothing else.  Only one pair of parentheses is ever left out: that
of a parallel group inside of a series group.  So the texts of the members of a
series group are followed on their own, and a part is derived in two ways: as a
circuit from its text, and as a member from its text inside of a sum.

A text that was written is nested no deeper than any text from which its circuit
was read, so a circuit that was read once can always be written and read again.
-/

namespace Schematic

namespace Circuit

/-- The text of a circuit as a member of a series group. -/
def memberText : Circuit → String
  | .parallel branches => "||".intercalate (texts branches)
  | circuit => circuit.text

theorem texts_eq_map (circuits : List Circuit) : texts circuits = circuits.map text := by
  induction circuits with
  | nil => rfl
  | cons circuit rest ih => rw [texts, ih, List.map_cons]

theorem memberTexts_eq_map (members : List Circuit) :
    memberTexts members = members.map memberText := by
  induction members with
  | nil => rfl
  | cons member rest ih => cases member <;> simp [memberTexts, memberText, ih]

/-- The characters of several circuits with a sign between them. -/
def joined (write : Circuit → String) (sign : List Char) (circuits : List Circuit) :
    List Char :=
  sign.intercalate (circuits.map fun circuit => (write circuit).toList)

theorem joined_singleton (write : Circuit → String) (sign : List Char) (circuit : Circuit) :
    joined write sign [circuit] = (write circuit).toList := by
  simp [joined]

theorem joined_cons (write : Circuit → String) (sign : List Char) (circuit : Circuit)
    {others : List Circuit} (nonempty : others ≠ []) :
    joined write sign (circuit :: others) =
      (write circuit).toList ++ (sign ++ joined write sign others) := by
  have mapped : others.map (fun circuit => (write circuit).toList) ≠ [] := by
    simpa using nonempty
  simp [joined, List.intercalate_cons_of_ne_nil mapped]

theorem series_text_toList (members : List Circuit) :
    (Circuit.series members).text.toList =
      '(' :: (joined memberText ['+'] members ++ [')']) := by
  simp [text, grouped, memberTexts_eq_map, joined, Function.comp_def]

theorem parallel_memberText_toList (branches : List Circuit) :
    (Circuit.parallel branches).memberText.toList = joined text ['|', '|'] branches := by
  simp [memberText, texts_eq_map, joined, Function.comp_def]

theorem parallel_text_toList (branches : List Circuit) :
    (Circuit.parallel branches).text.toList =
      '(' :: (joined text ['|', '|'] branches ++ [')']) := by
  simp [text, grouped, texts_eq_map, joined, Function.comp_def]

end Circuit

namespace Grammar

open Circuit

/-! ## Derivations of written texts -/

theorem Element.WellFormed.form {element : Element} (wellFormed : element.WellFormed)
    {rest : List Char} (stops : Stops rest) :
    ElementForm (element.text.toList ++ rest) element rest := by
  cases wellFormed with
  | openCircuit => exact .openCircuit stops
  | @named kind identifier notOpen nonempty alphanumeric =>
      have written : (Element.mk kind (some identifier)).text.toList =
          kind.letter :: identifier.toList := by
        simp [Element.text, Element.label, notOpen]
      have letters : identifier.toList ≠ [] := by simpa using nonempty
      have form := ElementForm.named notOpen letters alphanumeric stops
      rw [String.ofList_toList] at form
      rw [written]
      exact form

/-- How a part is written as a circuit and as a member of a sum. -/
structure IsWritten (circuit : Circuit) : Prop where
  subcircuit : ∀ rest, Stops rest → Subcircuit (circuit.text.toList ++ rest) circuit rest
  member : ∀ rest, Stops rest → ParallelGroup (circuit.memberText.toList ++ rest) circuit rest

/-- Only parallel groups are written in another way as members. -/
theorem IsWritten.of_subcircuit {circuit : Circuit} (sameText : circuit.memberText = circuit.text)
    (derived : ∀ rest, Stops rest → Subcircuit (circuit.text.toList ++ rest) circuit rest) :
    IsWritten circuit where
  subcircuit := derived
  member rest stops := by
    rw [sameText]
    exact .of (.last (derived rest stops)) .single

theorem branches_joined {branches : List Circuit} (nonempty : branches ≠ [])
    (written : ∀ branch ∈ branches, IsWritten branch) {rest : List Char} (stops : Stops rest) :
    Branches (joined text ['|', '|'] branches ++ rest) branches rest := by
  induction branches with
  | nil => exact absurd rfl nonempty
  | cons branch others ih =>
      cases others with
      | nil =>
          rw [joined_singleton]
          exact .last ((written branch (by simp)).subcircuit rest stops)
      | cons next others =>
          rw [joined_cons text _ branch (by simp), List.append_assoc, List.append_assoc]
          refine .more ((written branch (by simp)).subcircuit _ (by simp)) ?_
          exact ih (by simp) fun other mem => written other (by simp [mem])

theorem members_joined {members : List Circuit} (nonempty : members ≠ [])
    (written : ∀ member ∈ members, IsWritten member) {rest : List Char} (stops : Stops rest) :
    Members (joined memberText ['+'] members ++ rest) members rest := by
  induction members with
  | nil => exact absurd rfl nonempty
  | cons member others ih =>
      cases others with
      | nil =>
          rw [joined_singleton]
          exact .last ((written member (by simp)).member rest stops)
      | cons next others =>
          rw [joined_cons memberText _ member (by simp), List.append_assoc, List.append_assoc]
          refine .more ((written member (by simp)).member _ (by simp)) ?_
          exact ih (by simp) fun other mem => written other (by simp [mem])

theorem stops_close (rest : List Char) : Stops (')' :: rest) := by
  rw [stops_cons]
  decide

/-- Every part of a well-formed circuit is derived from its text, in front of
anything that does not go on with an identifier. -/
theorem isWritten_of_isPart {circuit : Circuit} (part : IsPart circuit) :
    IsWritten circuit := by
  induction part with
  | @element element wellFormed =>
      refine .of_subcircuit rfl fun rest stops => .element ?_
      exact Element.WellFormed.form wellFormed stops
  | @series members several parts written =>
      refine .of_subcircuit rfl fun rest stops => ?_
      have nonempty : members ≠ [] := by
        rintro rfl
        simp at several
      rw [series_text_toList, List.cons_append, List.append_assoc]
      exact .group (.of (members_joined nonempty written (stops_close rest)) (.several several))
  | @parallel branches several parts written =>
      have nonempty : branches ≠ [] := by
        rintro rfl
        simp at several
      refine ⟨fun rest stops => ?_, fun rest stops => ?_⟩
      · rw [parallel_text_toList, List.cons_append, List.append_assoc]
        have inside := branches_joined nonempty written (stops_close rest)
        exact .group (.of (.last (.of inside (.several several))) .single)
      · rw [parallel_memberText_toList]
        exact .of (branches_joined nonempty written stops) (.several several)

theorem stops_linksText (links : List (Link Circuit)) : Stops (linksText links).toList := by
  cases links with
  | nil => simp [linksText]
  | cons link others =>
      obtain ⟨kind, target⟩ := link
      cases kind <;> simp [linksText, LinkKind.sign]

theorem links_text {links : List (Link Circuit)} (nonempty : links ≠ [])
    (parts : ∀ link ∈ links, IsPart link.target) : Links (linksText links).toList links [] := by
  induction links with
  | nil => exact absurd rfl nonempty
  | cons link others ih =>
      obtain ⟨kind, target⟩ := link
      have written := isWritten_of_isPart (parts ⟨kind, target⟩ (by simp))
      have derived := written.subcircuit _ (stops_linksText others)
      have chars : (linksText (⟨kind, target⟩ :: others)).toList =
          kind.sign :: (target.text.toList ++ (linksText others).toList) := by
        simp [linksText]
      rw [chars]
      cases others with
      | nil =>
          simp only [linksText] at derived ⊢
          exact .last derived
      | cons next others =>
          exact .more derived (ih (by simp) fun link mem => parts link (by simp [mem]))

/-- A well-formed circuit is derived from its text. -/
theorem document_text {circuit : Circuit} (wellFormed : circuit.WellFormed) :
    Document circuit.text.toList circuit := by
  cases wellFormed with
  | part part =>
      have derived := (isWritten_of_isPart part).subcircuit [] stops_nil
      rw [List.append_nil] at derived
      exact .circuit derived
  | twoport nonempty parts => exact .twoport (by simpa [text] using links_text nonempty parts)

/-! ## Nesting of written texts -/

/-- A text is nested no deeper than another one, in front of anything. -/
def NestsIn (written input : List Char) : Prop :=
  ∀ level rest, nesting level (written ++ rest) ≤ max (nesting level input) (nesting level rest)

theorem nesting_mono {level higher : Nat} (le : level ≤ higher) (text : List Char) :
    nesting level text ≤ nesting higher text := by
  induction text generalizing level higher with
  | nil => exact le
  | cons char rest ih =>
      have opened := ih (Nat.succ_le_succ le)
      have closed := ih (Nat.sub_le_sub_right le 1)
      have same := ih le
      unfold nesting
      split
      · exact opened
      · split
        · omega
        · exact same

theorem NestsIn.trans {written input whole : List Char} (nests : NestsIn written input)
    (le : ∀ level, nesting level input ≤ nesting level whole) : NestsIn written whole := by
  intro level rest
  have inside := nests level rest
  have further := le level
  omega

/-- Parentheses around both texts keep the order. -/
theorem NestsIn.grouped {written input : List Char} (nests : NestsIn written input) :
    NestsIn ('(' :: (written ++ [')'])) ('(' :: input) := by
  intro level rest
  have inside := nests (level + 1) (')' :: rest)
  have opened := le_nesting (level + 1) input
  rw [nesting_close, Nat.add_sub_cancel] at inside
  rw [List.cons_append, List.append_assoc, nesting_open, nesting_open]
  simp only [List.cons_append, List.nil_append]
  omega

/-- Parentheses around the second text alone keep the order as well. -/
theorem NestsIn.opened {written input : List Char} (nests : NestsIn written input) :
    NestsIn written ('(' :: input) := by
  apply nests.trans
  intro level
  rw [nesting_open]
  exact nesting_mono (Nat.le_succ level) input

theorem nestsIn_joined {write : Circuit → String} {sign input : List Char}
    (plain : ∀ char ∈ sign, IsPlain char) {circuits : List Circuit}
    (nest : ∀ circuit ∈ circuits, NestsIn (write circuit).toList input) :
    NestsIn (joined write sign circuits) input := by
  induction circuits with
  | nil =>
      intro level rest
      exact Nat.le_max_right _ _
  | cons circuit others ih =>
      have first := nest circuit (by simp)
      have behind := ih fun other mem => nest other (by simp [mem])
      cases others with
      | nil => rwa [joined_singleton]
      | cons next others =>
          intro level rest
          rw [joined_cons write sign circuit (by simp), List.append_assoc, List.append_assoc]
          have start := first level (sign ++ (joined write sign (next :: others) ++ rest))
          have finish := behind level rest
          rw [nesting_append_plain plain] at start
          omega

theorem isPlain_text {element : Element} (wellFormed : element.WellFormed) :
    ∀ char ∈ element.text.toList, IsPlain char := by
  cases wellFormed with
  | openCircuit => simp [Element.text, Element.label, IsPlain]
  | @named kind identifier notOpen nonempty alphanumeric =>
      intro char mem
      have letters : char = kind.letter ∨ char ∈ identifier.toList := by
        simpa [Element.text, Element.label, notOpen] using mem
      rcases letters with rfl | mem
      · exact isPlain_letter kind
      · exact isPlain_of_isAlphanum (alphanumeric char mem)

/- Every circuit is followed both as it is written by itself and as a member.  A
parallel group may get parentheses that it had not in the text that was read, but
only where a group is opened around it. -/
mutual

theorem Subcircuit.nestsIn {input rest : List Char} {circuit : Circuit} :
    Subcircuit input circuit rest →
      NestsIn circuit.text.toList input ∧ NestsIn circuit.memberText.toList input
  | @Subcircuit.element _ _ written form => by
      have plain : NestsIn written.text.toList input := fun level rest => by
        rw [nesting_append_plain (isPlain_text form.wellFormed)]
        exact Nat.le_max_right _ _
      exact ⟨plain, plain⟩
  | .group inner => SeriesGroup.nestsIn inner

theorem SeriesGroup.nestsIn {input rest : List Char} {circuit : Circuit} :
    SeriesGroup input circuit rest →
      NestsIn circuit.text.toList ('(' :: input) ∧ NestsIn circuit.memberText.toList ('(' :: input)
  | @SeriesGroup.of _ _ members _ inner collapsed => by
      have nests := Members.nestsIn inner
      cases collapsed with
      | single => exact ⟨(nests circuit (by simp)).1, (nests circuit (by simp)).2.opened⟩
      | several several =>
          have sum : NestsIn (Circuit.series members).text.toList ('(' :: input) := by
            rw [series_text_toList]
            exact NestsIn.grouped
              (nestsIn_joined (by simp [IsPlain]) fun member mem => (nests member mem).2)
          exact ⟨sum, sum⟩

theorem Members.nestsIn {input rest : List Char} {members : List Circuit} :
    Members input members rest → ∀ member ∈ members,
      NestsIn member.text.toList ('(' :: input) ∧ NestsIn member.memberText.toList input
  | .last inner => by simpa using ParallelGroup.nestsIn inner
  | @Members.more _ middle _ _ _ first others => by
      have firstNests := ParallelGroup.nestsIn first
      have othersNest := Members.nestsIn others
      have behind : ∀ level, nesting level middle ≤ nesting level input := fun level => by
        have behindFirst := ParallelGroup.nesting_le level first
        rwa [nesting_plain (by simp [IsPlain])] at behindFirst
      rw [List.forall_mem_cons]
      refine ⟨firstNests, fun member mem => ⟨(othersNest member mem).1.trans fun level => ?_,
        (othersNest member mem).2.trans behind⟩⟩
      rw [nesting_open, nesting_open]
      exact behind (level + 1)

theorem ParallelGroup.nestsIn {input rest : List Char} {circuit : Circuit} :
    ParallelGroup input circuit rest →
      NestsIn circuit.text.toList ('(' :: input) ∧ NestsIn circuit.memberText.toList input
  | @ParallelGroup.of _ _ branches _ inner collapsed => by
      have nests := Branches.nestsIn inner
      cases collapsed with
      | single => exact ⟨(nests circuit (by simp)).1.opened, (nests circuit (by simp)).2⟩
      | several several =>
          have between : NestsIn (joined text ['|', '|'] branches) input :=
            nestsIn_joined (by simp [IsPlain]) fun branch mem => (nests branch mem).1
          rw [parallel_text_toList, parallel_memberText_toList]
          exact ⟨between.grouped, between⟩

theorem Branches.nestsIn {input rest : List Char} {branches : List Circuit} :
    Branches input branches rest → ∀ branch ∈ branches,
      NestsIn branch.text.toList input ∧ NestsIn branch.memberText.toList input
  | .last inner => by simpa using Subcircuit.nestsIn inner
  | @Branches.more _ middle _ _ _ first others => by
      have firstNests := Subcircuit.nestsIn first
      have othersNest := Branches.nestsIn others
      have behind : ∀ level, nesting level middle ≤ nesting level input := fun level => by
        have behindFirst := Subcircuit.nesting_le level first
        rwa [nesting_plain (by simp [IsPlain]), nesting_plain (by simp [IsPlain])] at behindFirst
      rw [List.forall_mem_cons]
      exact ⟨firstNests, fun branch mem =>
        ⟨(othersNest branch mem).1.trans behind, (othersNest branch mem).2.trans behind⟩⟩

end

theorem Links.nestsIn {input rest : List Char} {links : List (Link Circuit)}
    (derived : Links input links rest) : NestsIn (linksText links).toList input := by
  induction derived with
  | @last kind input rest target derived =>
      intro level after
      have targetNests := (Subcircuit.nestsIn derived).1 level after
      simp only [linksText, String.toList_append, String.toList_singleton, List.cons_append,
        List.nil_append, String.append_empty]
      rwa [nesting_plain (isPlain_sign kind), nesting_plain (isPlain_sign kind)]
  | @more kind input middle rest target links derived others ih =>
      intro level after
      have targetNests := (Subcircuit.nestsIn derived).1 level ((linksText links).toList ++ after)
      have othersNest := ih level after
      have behind := Subcircuit.nesting_le level derived
      simp only [linksText, String.toList_append, String.toList_singleton, List.cons_append,
        List.nil_append, List.append_assoc]
      rw [nesting_plain (isPlain_sign kind), nesting_plain (isPlain_sign kind)]
      omega

/-- A circuit is written with no deeper groups than it was read with. -/
theorem Document.nesting_text_le {input : List Char} {circuit : Circuit}
    (derived : Document input circuit) : nesting 0 circuit.text.toList ≤ nesting 0 input := by
  have nests : NestsIn circuit.text.toList input := by
    cases derived with
    | circuit derived => exact (Subcircuit.nestsIn derived).1
    | twoport derived => simpa [text] using Links.nestsIn derived
  simpa [nesting] using nests 0 []

end Grammar

namespace Reading

open Grammar

/-- A circuit that was read is read again from its own text. -/
theorem parse_text_of_parse {text : String} {circuit : Circuit}
    (parsed : parse text = .ok circuit) : parse circuit.text = .ok circuit := by
  obtain ⟨derived, nested⟩ := document_of_parse parsed
  exact parse_of_document (document_text derived.wellFormed)
    (Nat.le_trans derived.nesting_text_le nested)

/-- Well-formed circuits and their texts are in bijection: a well-formed circuit
whose text nests at most a hundred deep is read from its text; whatever is read
is well formed; so the text of a circuit that was read is its normal form, and
two documents have the same one exactly if they describe the same circuit. -/
theorem notation_bijection :
    (∀ circuit : Circuit, circuit.WellFormed → nesting 0 circuit.text.toList ≤ 100 →
      parse circuit.text = .ok circuit) ∧
    (∀ text circuit, parse text = .ok circuit → circuit.WellFormed) ∧
    (∀ text circuit, parse text = .ok circuit → parse circuit.text = .ok circuit) ∧
    (∀ first second firstCircuit secondCircuit, parse first = .ok firstCircuit →
      parse second = .ok secondCircuit →
      (firstCircuit.text = secondCircuit.text ↔ firstCircuit = secondCircuit)) := by
  refine ⟨fun circuit wellFormed shallow => ?_, fun text circuit parsed => ?_,
    fun text circuit parsed => parse_text_of_parse parsed, ?_⟩
  · exact parse_of_document (document_text wellFormed) (Nat.le_trans shallow (by decide))
  · exact wellFormed_of_parse parsed
  · intro first second firstCircuit secondCircuit parsedFirst parsedSecond
    constructor
    · intro sameText
      have again := parse_text_of_parse parsedFirst
      rw [sameText, parse_text_of_parse parsedSecond] at again
      exact (Except.ok.inj again).symm
    · rintro rfl
      rfl

/-- Groups in groups of the same kind and of the other kind, an open circuit in
front of a parenthesis, and a twoport around them. -/
theorem notation_bijection_nested :
    ∃ circuit : Circuit, circuit.WellFormed ∧ nesting 0 circuit.text.toList ≤ 100 ∧
      circuit.text = "|((R1+O)+(C2||L3)||Va)-O" ∧ parse circuit.text = .ok circuit := by
  have parsed : parse "|(((R1+O))+((C2||L3)||Va))-(O)" = .ok (.twoport
      [⟨.shunt, .series
        [.series [.element ⟨.resistor, some "1"⟩, .element ⟨.openCircuit, none⟩],
          .parallel [.parallel [.element ⟨.capacitor, some "2"⟩, .element ⟨.inductor, some "3"⟩],
            .element ⟨.voltageSource, some "a"⟩]]⟩,
        ⟨.series, .element ⟨.openCircuit, none⟩⟩]) :=
    eq_ok_of_toOption (by decide +kernel)
  have wellFormed := notation_bijection.2.1 _ _ parsed
  exact ⟨_, wellFormed, by decide, by decide, notation_bijection.1 _ wellFormed (by decide)⟩

end Reading

end Schematic
