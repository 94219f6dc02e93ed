import Mathlib.Logic.Relation
import Schematic.Proofs.Reading.Notation

/-!
# The notation is the shortest one

A text may have parentheses around any circuit, and as many pairs as it likes.
The notation of a circuit keeps only those pairs without which the text would
be read as another circuit: every text that is read as the circuit becomes the
notation when its other pairs are dropped, one after the other, and it is read
as the same circuit all the way.  So the notation is shorter than all other
texts of its circuit, and no text of the circuit is nested less.

A text is followed rule by rule.  What a rule derives from it is derived from
the same characters in front of any other rest, so a pair that is dropped in a
part of a text can be dropped in the whole text.
-/

namespace Schematic

namespace Grammar

open Circuit Relation

/-! ## Pairs of parentheses -/

/-- Every parenthesis has its partner. -/
inductive Balanced : List Char → Prop where
  | nil : Balanced []
  | plain {char : Char} {rest : List Char} :
      IsPlain char → Balanced rest → Balanced (char :: rest)
  | group {inside rest : List Char} :
      Balanced inside → Balanced rest → Balanced ('(' :: (inside ++ ')' :: rest))

namespace Balanced

theorem append {first second : List Char} (firstBalanced : Balanced first)
    (secondBalanced : Balanced second) : Balanced (first ++ second) := by
  induction firstBalanced with
  | nil => exact secondBalanced
  | plain isPlain _ ih => exact .plain isPlain ih
  | group inside _ _ ih =>
      rw [List.cons_append, List.append_assoc, List.cons_append]
      exact .group inside ih

theorem of_plain {text : List Char} (plain : ∀ char ∈ text, IsPlain char) : Balanced text := by
  induction text with
  | nil => exact .nil
  | cons char rest ih =>
      rw [List.forall_mem_cons] at plain
      exact .plain plain.1 (ih plain.2)

theorem grouped {inside : List Char} (balanced : Balanced inside) :
    Balanced ('(' :: (inside ++ [')'])) :=
  .group balanced .nil

theorem joined {write : Circuit → String} {sign : List Char}
    (plain : ∀ char ∈ sign, IsPlain char) {circuits : List Circuit}
    (balanced : ∀ circuit ∈ circuits, Balanced (write circuit).toList) :
    Balanced (joined write sign circuits) := by
  induction circuits with
  | nil => exact .nil
  | cons circuit others ih =>
      rw [List.forall_mem_cons] at balanced
      cases others with
      | nil => simpa [joined_singleton] using balanced.1
      | cons next others =>
          rw [joined_cons write sign circuit (by simp)]
          exact balanced.1.append ((of_plain plain).append (ih balanced.2))

/-- A balanced text adds its own depth to what is open around it. -/
theorem exists_depth {text : List Char} (balanced : Balanced text) :
    ∃ depth, ∀ level rest,
      nesting level (text ++ rest) = max (level + depth) (nesting level rest) := by
  induction balanced with
  | nil => exact ⟨0, fun level rest => (Nat.max_eq_right (le_nesting level rest)).symm⟩
  | plain isPlain _ ih =>
      obtain ⟨depth, deep⟩ := ih
      refine ⟨depth, fun level rest => ?_⟩
      rw [List.cons_append, nesting_plain isPlain, deep]
  | group _ _ ihInside ihRest =>
      obtain ⟨inner, insideDeep⟩ := ihInside
      obtain ⟨outer, restDeep⟩ := ihRest
      refine ⟨max (inner + 1) outer, fun level rest => ?_⟩
      rw [List.cons_append, List.append_assoc, List.cons_append, nesting_open, insideDeep,
        nesting_close, Nat.add_sub_cancel, restDeep]
      omega

end Balanced

/-- Both texts of a well-formed part are balanced. -/
theorem balanced_of_isPart {circuit : Circuit} (part : IsPart circuit) :
    Balanced circuit.text.toList ∧ Balanced circuit.memberText.toList := by
  induction part with
  | element wellFormed =>
      exact ⟨.of_plain (isPlain_text wellFormed), .of_plain (isPlain_text wellFormed)⟩
  | @series members _ _ ih =>
      have sum : Balanced (Circuit.series members).text.toList := by
        rw [series_text_toList]
        exact .grouped (.joined (by simp [IsPlain]) fun member isMember => (ih member isMember).2)
      exact ⟨sum, sum⟩
  | @parallel branches _ _ ih =>
      have between : Balanced (joined text ['|', '|'] branches) :=
        .joined (by simp [IsPlain]) fun branch isBranch => (ih branch isBranch).1
      rw [parallel_text_toList, parallel_memberText_toList]
      exact ⟨between.grouped, between⟩

/-- The second text is the first one without a pair of parentheses. -/
def DropsPair (longer shorter : List Char) : Prop :=
  ∃ before inside behind, Balanced inside ∧
    longer = before ++ '(' :: (inside ++ ')' :: behind) ∧
    shorter = before ++ (inside ++ behind)

namespace DropsPair

variable {longer shorter : List Char}

theorem length_eq (drops : DropsPair longer shorter) : longer.length = shorter.length + 2 := by
  obtain ⟨before, inside, behind, -, rfl, rfl⟩ := drops
  simp only [List.length_append, List.length_cons]
  omega

theorem between (before behind : List Char) (drops : DropsPair longer shorter) :
    DropsPair (before ++ (longer ++ behind)) (before ++ (shorter ++ behind)) := by
  obtain ⟨start, inside, finish, balanced, rfl, rfl⟩ := drops
  exact ⟨before ++ start, inside, finish ++ behind, balanced, by simp, by simp⟩

theorem grouped {inside : List Char} (balanced : Balanced inside) :
    DropsPair ('(' :: (inside ++ [')'])) inside :=
  ⟨[], inside, [], balanced, by simp, by simp⟩

/-- Dropping a pair nests no deeper. -/
theorem nesting_le (drops : DropsPair longer shorter) (level : Nat) :
    nesting level shorter ≤ nesting level longer := by
  obtain ⟨before, inside, behind, balanced, rfl, rfl⟩ := drops
  obtain ⟨depth, deep⟩ := balanced.exists_depth
  refine nesting_append_le before (fun level => ?_) level
  rw [nesting_open, deep, deep, nesting_close, Nat.add_sub_cancel]
  omega

end DropsPair

/-! ## Texts that stand for a value -/

section

variable {β γ : Type}

/-- A rule derives a value from a text, in front of every rest that does not go on
with an identifier. -/
def Denotes (Rule : List Char → β → List Char → Prop) (value : β) (text : List Char) : Prop :=
  ∀ rest, Stops rest → Rule (text ++ rest) value rest

/-- Pairs of parentheses are dropped from a text, which stands for the value after
every step. -/
def Reduces (Rule : List Char → β → List Char → Prop) (value : β) :
    List Char → List Char → Prop :=
  ReflTransGen fun longer shorter => DropsPair longer shorter ∧ Denotes Rule value shorter

variable {Rule : List Char → β → List Char → Prop} {Outer : List Char → γ → List Char → Prop}
  {value : β} {outer : γ}

namespace Reduces

theorem denotes {longer shorter : List Char} (denoted : Denotes Rule value longer)
    (reduces : Reduces Rule value longer shorter) : Denotes Rule value shorter := by
  rcases ReflTransGen.cases_tail reduces with rfl | ⟨_, -, step⟩
  · exact denoted
  · exact step.2

/-- What is dropped from a part of a text is dropped from the whole text. -/
theorem between {longer shorter : List Char} (before behind : List Char)
    (denotes : ∀ text, Denotes Rule value text →
      Denotes Outer outer (before ++ (text ++ behind)))
    (reduces : Reduces Rule value longer shorter) :
    Reduces Outer outer (before ++ (longer ++ behind)) (before ++ (shorter ++ behind)) :=
  ReflTransGen.lift (fun text => before ++ (text ++ behind))
    (fun _ shorter step => ⟨step.1.between before behind, denotes shorter step.2⟩) _ _ reduces

/-- A rule that derives the same texts drops the same pairs. -/
theorem imp {longer shorter : List Char}
    (denotes : ∀ text, Denotes Rule value text → Denotes Outer outer text)
    (reduces : Reduces Rule value longer shorter) : Reduces Outer outer longer shorter :=
  ReflTransGen.mono (fun _ shorter step => ⟨step.1, denotes shorter step.2⟩) _ _ reduces

end Reduces

/-- What a rule derives from an input stands in front of the rest, and reduces to a
text. -/
def ReducesTo (Rule : List Char → β → List Char → Prop) (value : β) (goal : List Char)
    (input rest : List Char) : Prop :=
  ∃ written, input = written ++ rest ∧ Balanced written ∧ Denotes Rule value written ∧
    Reduces Rule value written goal

namespace ReducesTo

variable {goal input rest : List Char}

theorem imp (denotes : ∀ text, Denotes Rule value text → Denotes Outer outer text) :
    ReducesTo Rule value goal input rest → ReducesTo Outer outer goal input rest
  | ⟨written, consumed, balanced, denoted, reduces⟩ =>
      ⟨written, consumed, balanced, denotes written denoted, reduces.imp denotes⟩

theorem trans {further : List Char} (reduces : Reduces Rule value goal further) :
    ReducesTo Rule value goal input rest → ReducesTo Rule value further input rest
  | ⟨written, consumed, balanced, denoted, first⟩ =>
      ⟨written, consumed, balanced, denoted, ReflTransGen.trans first reduces⟩

/-- A text reduces to its own notation if it is already written so. -/
theorem of_denotes {written : List Char} (balanced : Balanced written)
    (denoted : Denotes Rule value written) (rest : List Char) :
    ReducesTo Rule value written (written ++ rest) rest :=
  ⟨written, rfl, balanced, denoted, .refl⟩

/-- A chain reduces item by item, from its start. -/
theorem cons {Chain : List Char → List β → List Char → Prop} {values : List β}
    {sign goals middle : List Char} (plain : ∀ char ∈ sign, IsPlain char)
    (more : ∀ first others, Denotes Rule value first → Denotes Chain values others →
      Denotes Chain (value :: values) (first ++ (sign ++ others)))
    (first : ReducesTo Rule value goal input (sign ++ middle))
    (others : ReducesTo Chain values goals middle rest) :
    ReducesTo Chain (value :: values) (goal ++ (sign ++ goals)) input rest := by
  obtain ⟨head, rfl, headBalanced, headDenotes, headReduces⟩ := first
  obtain ⟨tail, rfl, tailBalanced, tailDenotes, tailReduces⟩ := others
  have goalDenotes := headReduces.denotes headDenotes
  refine ⟨head ++ (sign ++ tail), by simp, ?_, more head tail headDenotes tailDenotes, ?_⟩
  · exact headBalanced.append ((Balanced.of_plain plain).append tailBalanced)
  · have headFirst : Reduces Chain (value :: values) (head ++ (sign ++ tail))
        (goal ++ (sign ++ tail)) :=
      headReduces.between [] (sign ++ tail) fun text denoted =>
        more text tail denoted tailDenotes
    have tailThen : Reduces Chain (value :: values) (goal ++ (sign ++ tail))
        (goal ++ (sign ++ goals)) := by
      simpa using tailReduces.between (goal ++ sign) [] fun text denoted => by
        simpa using more goal text goalDenotes denoted
    exact ReflTransGen.trans headFirst tailThen

end ReducesTo

end

/-! ## Rules -/

/-- An element is derived from its own notation only. -/
theorem ElementForm.input_eq {input rest : List Char} {element : Element}
    (form : ElementForm input element rest) : input = element.text.toList ++ rest := by
  cases form with
  | openCircuit => simp [Element.text, Element.label]
  | named notOpen nonempty => simp [Element.text, Element.label, notOpen]

namespace Denotes

variable {circuit : Circuit} {text : List Char}

theorem group (denoted : Denotes SeriesGroup circuit text) :
    Denotes Subcircuit circuit ('(' :: (text ++ [')'])) := by
  intro rest _
  rw [List.cons_append, List.append_assoc]
  exact .group (denoted _ (stops_close rest))

theorem branches {branches : List Circuit} {others : List Char}
    (denoted : Denotes Subcircuit circuit text) (denotedOthers : Denotes Branches branches others) :
    Denotes Branches (circuit :: branches) (text ++ (['|', '|'] ++ others)) := by
  intro rest stops
  rw [List.append_assoc, List.append_assoc]
  exact .more (denoted _ (by simp)) (denotedOthers rest stops)

theorem members {members : List Circuit} {others : List Char}
    (denoted : Denotes ParallelGroup circuit text) (denotedOthers : Denotes Members members others) :
    Denotes Members (circuit :: members) (text ++ (['+'] ++ others)) := by
  intro rest stops
  rw [List.append_assoc, List.append_assoc]
  exact .more (denoted _ (by simp)) (denotedOthers rest stops)

end Denotes

section

variable {circuit : Circuit}

/-- A pair around a member is dropped if the circuit is a parallel group. -/
theorem reduces_memberText (part : IsPart circuit) :
    Reduces ParallelGroup circuit circuit.text.toList circuit.memberText.toList := by
  have written := isWritten_of_isPart part
  have balanced := (balanced_of_isPart part).2
  cases part with
  | element | series => exact .refl
  | parallel =>
      rw [parallel_text_toList, ← parallel_memberText_toList]
      exact .single ⟨.grouped balanced, written.member⟩

/-- A pair around a circuit that is no sum is dropped if the circuit is no parallel
group. -/
theorem reduces_text (part : IsPart circuit) :
    Reduces Subcircuit circuit ('(' :: (circuit.memberText.toList ++ [')']))
      circuit.text.toList := by
  have written := isWritten_of_isPart part
  have balanced := (balanced_of_isPart part).1
  cases part with
  | element | series => exact .single ⟨.grouped balanced, written.subcircuit⟩
  | parallel =>
      rw [parallel_text_toList, parallel_memberText_toList]
      exact .refl

end

mutual

theorem Subcircuit.reducesTo {input rest : List Char} {circuit : Circuit} :
    Subcircuit input circuit rest →
      ReducesTo Subcircuit circuit circuit.text.toList input rest
  | @Subcircuit.element _ _ single form => by
      have part : IsPart (.element single) := .element form.wellFormed
      rw [form.input_eq]
      exact .of_denotes (balanced_of_isPart part).1 (isWritten_of_isPart part).subcircuit rest
  | .group inner => by
      obtain ⟨goal, ⟨written, rfl, balanced, denoted, reduces⟩, further⟩ :=
        SeriesGroup.reducesTo inner
      refine ReducesTo.trans further ⟨'(' :: (written ++ [')']), by simp, balanced.grouped,
        denoted.group, ?_⟩
      exact reduces.between ['('] [')'] fun _ denoted => denoted.group

theorem SeriesGroup.reducesTo {input rest : List Char} {circuit : Circuit} :
    SeriesGroup input circuit rest → ∃ goal, ReducesTo SeriesGroup circuit goal input rest ∧
      Reduces Subcircuit circuit ('(' :: (goal ++ [')'])) circuit.text.toList
  | .of inner collapsed => by
      refine ⟨_, (Members.reducesTo inner).imp fun _ denoted rest stops =>
        .of (denoted rest stops) collapsed, ?_⟩
      cases collapsed with
      | single =>
          rw [joined_singleton]
          exact reduces_text (Members.isPart inner circuit List.mem_cons_self)
      | several =>
          rw [series_text_toList]
          exact .refl

theorem Members.reducesTo {input rest : List Char} {members : List Circuit} :
    Members input members rest →
      ReducesTo Members members (joined memberText ['+'] members) input rest
  | .last inner => by
      rw [joined_singleton]
      exact (ParallelGroup.reducesTo inner).imp fun _ denoted rest stops =>
        .last (denoted rest stops)
  | .more first others => by
      rw [joined_cons _ _ _ others.ne_nil]
      exact .cons (by simp [IsPlain]) (fun _ _ => Denotes.members)
        (ParallelGroup.reducesTo first) (Members.reducesTo others)

theorem ParallelGroup.reducesTo {input rest : List Char} {circuit : Circuit} :
    ParallelGroup input circuit rest →
      ReducesTo ParallelGroup circuit circuit.memberText.toList input rest
  | .of inner collapsed => by
      have reduced : ReducesTo ParallelGroup circuit (joined text ['|', '|'] _) input rest :=
        (Branches.reducesTo inner).imp fun _ denoted rest stops =>
          .of (denoted rest stops) collapsed
      cases collapsed with
      | single =>
          rw [joined_singleton] at reduced
          exact reduced.trans (reduces_memberText (Branches.isPart inner circuit List.mem_cons_self))
      | several => rwa [parallel_memberText_toList]

theorem Branches.reducesTo {input rest : List Char} {branches : List Circuit} :
    Branches input branches rest →
      ReducesTo Branches branches (joined text ['|', '|'] branches) input rest
  | .last inner => by
      rw [joined_singleton]
      exact (Subcircuit.reducesTo inner).imp fun _ denoted rest stops =>
        .last (denoted rest stops)
  | .more first others => by
      rw [joined_cons _ _ _ others.ne_nil]
      exact .cons (by simp [IsPlain]) (fun _ _ => Denotes.branches)
        (Subcircuit.reducesTo first) (Branches.reducesTo others)

end

/-! ## Documents -/

/-- The sign of a link and its target. -/
def LinkForm (input : List Char) (link : Link Circuit) (rest : List Char) : Prop :=
  ∃ target, input = link.kind.sign :: target ∧ Subcircuit target link.target rest

theorem LinkForm.reducesTo {link : Link Circuit} {input rest : List Char}
    (derived : Subcircuit input link.target rest) :
    ReducesTo LinkForm link (link.kind.sign :: link.target.text.toList)
      (link.kind.sign :: input) rest := by
  obtain ⟨written, rfl, balanced, denoted, reduces⟩ := Subcircuit.reducesTo derived
  have signed : ∀ text, Denotes Subcircuit link.target text →
      Denotes LinkForm link (link.kind.sign :: text) :=
    fun text denoted rest stops => ⟨text ++ rest, rfl, denoted rest stops⟩
  refine ⟨link.kind.sign :: written, rfl, .plain (isPlain_sign link.kind) balanced,
    signed written denoted, ?_⟩
  simpa using reduces.between [link.kind.sign] [] fun text denoted => by
    simpa using signed text denoted

theorem Links.stops {input rest : List Char} {links : List (Link Circuit)}
    (derived : Links input links rest) : Stops input := by
  cases derived with
  | @last kind | @more kind => cases kind <;> simp [LinkKind.sign]

theorem Denotes.links {link : Link Circuit} {links : List (Link Circuit)}
    {first others : List Char} (denoted : Denotes LinkForm link first)
    (denotedOthers : Denotes Links links others) :
    Denotes Links (link :: links) (first ++ ([] ++ others)) := by
  intro rest stops
  have chain := denotedOthers rest stops
  obtain ⟨target, split, derived⟩ := denoted (others ++ rest) chain.stops
  rw [List.nil_append, List.append_assoc, split]
  exact .more derived chain

theorem linksText_toList (kind : LinkKind) (target : Circuit) (others : List (Link Circuit)) :
    (linksText (⟨kind, target⟩ :: others)).toList =
      (kind.sign :: target.text.toList) ++ ([] ++ (linksText others).toList) := by
  simp [linksText]

theorem Links.reducesTo {input rest : List Char} {links : List (Link Circuit)}
    (derived : Links input links rest) :
    ReducesTo Links links (linksText links).toList input rest := by
  induction derived with
  | @last kind input rest target derived =>
      have alone : ReducesTo LinkForm ⟨kind, target⟩ (kind.sign :: target.text.toList)
          (kind.sign :: input) rest := LinkForm.reducesTo derived
      have written : (linksText [⟨kind, target⟩]).toList = kind.sign :: target.text.toList := by
        simp [linksText]
      rw [written]
      refine alone.imp fun text denoted rest stops => ?_
      obtain ⟨inner, split, derived⟩ := denoted rest stops
      rw [split]
      exact .last derived
  | more derived others ih =>
      rw [linksText_toList]
      exact .cons (by simp) (fun _ _ => Denotes.links) (LinkForm.reducesTo derived) ih

/-- A text of a circuit reduces to its notation, and the circuit is derived from all
texts on the way. -/
theorem Document.reduces {input : List Char} {circuit : Circuit}
    (derived : Document input circuit) :
    ReflTransGen (fun longer shorter => DropsPair longer shorter ∧ Document shorter circuit)
      input circuit.text.toList := by
  cases derived with
  | circuit derived =>
      obtain ⟨written, consumed, -, -, reduces⟩ := Subcircuit.reducesTo derived
      rw [List.append_nil] at consumed
      subst consumed
      refine ReflTransGen.mono (fun _ shorter step => ⟨step.1, .circuit ?_⟩) _ _ reduces
      simpa using step.2 [] stops_nil
  | twoport derived =>
      obtain ⟨written, consumed, -, -, reduces⟩ := derived.reducesTo
      rw [List.append_nil] at consumed
      subst consumed
      rw [Circuit.text]
      refine ReflTransGen.mono (fun _ shorter step => ⟨step.1, .twoport ?_⟩) _ _ reduces
      simpa using step.2 [] stops_nil

end Grammar

namespace Reading

open Grammar Relation

/-- The second text is the first one without a pair of parentheses, and both are read
alike. -/
def DropsRedundantPair (longer shorter : String) : Prop :=
  DropsPair longer.toList shorter.toList ∧ parse shorter = parse longer

/-- A chain of texts with ever fewer parentheses ends in a shorter text, unless it is
no chain at all. -/
theorem eq_or_shorter {longer shorter : String}
    (chain : ReflTransGen DropsRedundantPair longer shorter) :
    longer = shorter ∨ shorter.length < longer.length := by
  induction chain with
  | refl => exact .inl rfl
  | @tail middle shorter _ step ih =>
      have lengths := step.1.length_eq
      rw [String.length_toList, String.length_toList] at lengths
      right
      rcases ih with rfl | less <;> omega

theorem exists_chain {text : String} {circuit : Circuit} (parsed : parse text = .ok circuit) :
    ReflTransGen DropsRedundantPair text circuit.text := by
  obtain ⟨derived, nested⟩ := document_of_parse parsed
  have chain : ∀ characters, ReflTransGen
      (fun longer shorter => DropsPair longer shorter ∧ Document shorter circuit)
      text.toList characters →
      nesting 0 characters ≤ nestingLimit ∧ parse (String.ofList characters) = .ok circuit ∧
        ReflTransGen DropsRedundantPair text (String.ofList characters) := by
    intro characters reduces
    induction reduces with
    | refl => exact ⟨nested, by rwa [String.ofList_toList], by rw [String.ofList_toList]⟩
    | @tail longer shorter _ step ih =>
        obtain ⟨longerNested, longerParsed, chain⟩ := ih
        have shorterNested := Nat.le_trans (step.1.nesting_le 0) longerNested
        have shorterParsed : parse (String.ofList shorter) = .ok circuit :=
          parse_of_document (by simpa using step.2) (by simpa using shorterNested)
        refine ⟨shorterNested, shorterParsed, chain.tail ⟨?_, ?_⟩⟩
        · simpa using step.1
        · rw [shorterParsed, longerParsed]
  simpa using (chain _ derived.reduces).2.2

/-- The notation of a circuit is the unique shortest text that is read as it, and it
is nested least: every other text becomes the notation by dropping pairs of
parentheses, one after the other, without which it is read as the same circuit. -/
theorem notation_is_shortest {text : String} {circuit : Circuit}
    (parsed : parse text = .ok circuit) :
    parse circuit.text = .ok circuit ∧
      circuit.text.length ≤ text.length ∧
      nesting 0 circuit.text.toList ≤ nesting 0 text.toList ∧
      (circuit.text.length = text.length → circuit.text = text) ∧
      ReflTransGen DropsRedundantPair text circuit.text := by
  have chain := exists_chain parsed
  refine ⟨parse_text_of_parse parsed, ?_, ?_, ?_, chain⟩
  · rcases eq_or_shorter chain with rfl | shorter
    · exact Nat.le_refl _
    · exact Nat.le_of_lt shorter
  · exact (document_of_parse parsed).1.nesting_text_le
  · intro sameLength
    rcases eq_or_shorter chain with same | shorter
    · exact same.symm
    · omega

/-- A sum inside of a sum keeps its pair; those around an element, a whole branch, a
parallel group in a sum and a target of a link are dropped. -/
theorem notation_is_shortest_wrapped :
    ∃ circuit, parse "|(((R1)+((C2||(L3)))+(O+Z4)))-(V5)" = .ok circuit ∧
      circuit.text = "|(R1+C2||L3+(O+Z4))-V5" ∧
      circuit.text.length ≤ 34 ∧ nesting 0 circuit.text.toList ≤ 5 ∧
      ReflTransGen DropsRedundantPair "|(((R1)+((C2||(L3)))+(O+Z4)))-(V5)" circuit.text := by
  have parsed : parse "|(((R1)+((C2||(L3)))+(O+Z4)))-(V5)" = .ok (.twoport
      [⟨.shunt, .series [.element ⟨.resistor, some "1"⟩,
        .parallel [.element ⟨.capacitor, some "2"⟩, .element ⟨.inductor, some "3"⟩],
        .series [.element ⟨.openCircuit, none⟩, .element ⟨.impedance, some "4"⟩]]⟩,
        ⟨.series, .element ⟨.voltageSource, some "5"⟩⟩]) :=
    eq_ok_of_toOption (by decide +kernel)
  obtain ⟨-, short, nested, -, chain⟩ := notation_is_shortest parsed
  exact ⟨_, parsed, by decide, short, nested, chain⟩

end Reading

end Schematic
