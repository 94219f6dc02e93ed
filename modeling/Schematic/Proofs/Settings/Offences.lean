import Schematic.Proofs.Number.Doubles
import Schematic.Settings.Schema

/-!
# Keys that offend

A key of some raw settings offends if there is no setting or section of its name, if it
is a section and has no mapping for its value, or if its value breaks the rule of its
setting.  This file states this on its own, and proves that the list of offending keys
has every one of them once, in the order of the names of the keys at each level.
-/

namespace Schematic

namespace Settings

/-! ## Rules -/

/-- The name of the type of a value, if settings can have values of this type. -/
def Raw.typeName? : Raw → Option String
  | .flag _ => some "boolean"
  | .whole _ => some "number"
  | .number _ => some "number"
  | .text _ => some "string"
  | .mapping _ => some "dict"
  | .null => none
  | .other => none

/-- How a value breaks a rule. -/
inductive Rule.Breaks : Rule → Raw → Offence → Prop where
  | null {rule : Rule} : Breaks rule .null .nullValue
  | otherType {rule : Rule} {raw : Raw} : raw ≠ .null → raw.typeName? ≠ some rule.typeName →
      Breaks rule raw (.wrongType rule.typeName)
  | wholeBelow {tenths : Nat} {count : Int} : 10 * count < tenths →
      Breaks (.number (some tenths)) (.whole count) (.tooSmall tenths)
  | numberBelow {tenths : Nat} {measured : Float} : measured < Scalar.tenths tenths →
      Breaks (.number (some tenths)) (.number measured) (.tooSmall tenths)
  | emptyText : Breaks .filledText (.text "") .emptyText
  | notAllowed {allowed : List String} {text : Text.Coded} :
      (∀ content ∈ allowed, text ≠ .ofText content) →
      Breaks (.oneOf allowed) (.text text) (.notAllowed text)

/-- The bounds of numbers that there are. -/
def Rule.HasKnownBound (rule : Rule) : Prop :=
  ∀ tenths, rule = .number (some tenths) → tenths = 0 ∨ tenths = 1 ∨ tenths = 10

theorem wholeBelow_eq {tenths : Nat} (known : tenths = 0 ∨ tenths = 1 ∨ tenths = 10)
    (count : Int) : wholeBelow count tenths = decide (10 * count < tenths) := by
  have below (numerator denominator : Nat) (positive : 0 < denominator)
      (value : (Number.Binary64.ofFloat (Scalar.tenths tenths)).value? =
        some ((numerator : Rat) / denominator))
      (same : count * denominator < numerator ↔ 10 * count < tenths) :
      wholeBelow count tenths = decide (10 * count < tenths) := by
    rw [wholeBelow, value]
    refine decide_eq_decide.mpr (Iff.trans ?_ same)
    rw [lt_div_iff₀ (by exact_mod_cast positive)]
    exact_mod_cast Iff.rfl
  rcases known with rfl | rfl | rfl
  · exact below 0 1 (by decide) (by decide +kernel) (by omega)
  · exact below 3602879701896397 36028797018963968 (by decide) (by decide +kernel) (by omega)
  · exact below 1 1 (by decide) (by decide +kernel) (by omega)

theorem any_contains_iff {allowed : List String} {text : Text.Coded} :
    text.whole?.any allowed.contains = true ↔ ∃ content ∈ allowed, text = .ofText content := by
  simp only [Option.any_eq_true, Text.Coded.whole?_eq_some_iff, List.contains_iff_mem]
  exact ⟨fun ⟨content, same, isAllowed⟩ => ⟨content, isAllowed, same⟩,
    fun ⟨content, isAllowed, same⟩ => ⟨content, same, isAllowed⟩⟩

theorem boundOffence?_eq_some_iff {least : Option Nat} {below : Nat → Bool} {offence : Offence} :
    Rule.boundOffence? least below = some offence ↔
      ∃ tenths, least = some tenths ∧ below tenths = true ∧ .tooSmall tenths = offence := by
  simp [Rule.boundOffence?, Option.filter_eq_some_iff, and_assoc]

/-- The offence that is found in a value is how it breaks the rule. -/
theorem Rule.offence?_eq_some_iff {rule : Rule} (known : rule.HasKnownBound) {raw : Raw}
    {offence : Offence} : rule.offence? raw = some offence ↔ rule.Breaks raw offence := by
  constructor
  · intro found
    unfold Rule.offence? at found
    split at found
    · cases found
      exact .null
    · next least count =>
      obtain ⟨tenths, rfl, below, rfl⟩ := boundOffence?_eq_some_iff.mp found
      rw [wholeBelow_eq (known tenths rfl), decide_eq_true_iff] at below
      exact .wholeBelow below
    · next least measured =>
      obtain ⟨tenths, rfl, below, rfl⟩ := boundOffence?_eq_some_iff.mp found
      exact .numberBelow (of_decide_eq_true below)
    · cases found
    · next text =>
      split at found
      · next empty =>
        cases found
        obtain rfl := Text.Coded.isEmpty_iff.mp empty
        exact .emptyText
      · cases found
    · next allowed text =>
      split at found
      · cases found
      · next missing =>
        cases found
        refine .notAllowed fun content isAllowed same => missing ?_
        exact any_contains_iff.mpr ⟨content, isAllowed, same⟩
    · next notNull _ _ _ _ _ =>
      cases found
      refine .otherType notNull ?_
      cases raw <;> cases rule <;> simp_all [Raw.typeName?, Rule.typeName]
  · intro breaks
    cases breaks with
    | null => cases rule <;> rfl
    | otherType notNull otherType =>
        cases raw <;> cases rule <;>
          simp_all [Rule.offence?, Raw.typeName?, Rule.typeName]
    | @wholeBelow tenths count below =>
        refine boundOffence?_eq_some_iff.mpr ⟨tenths, rfl, ?_, rfl⟩
        rwa [wholeBelow_eq (known tenths rfl), decide_eq_true_iff]
    | numberBelow below => exact boundOffence?_eq_some_iff.mpr ⟨_, rfl, decide_eq_true below, rfl⟩
    | emptyText => rfl
    | @notAllowed allowed text missing =>
        have none : ¬text.whole?.any allowed.contains = true := fun isAllowed =>
          have ⟨content, isAllowed, same⟩ := any_contains_iff.mp isAllowed
          missing content isAllowed same
        simp only [Rule.offence?, none, Bool.false_eq_true, if_false]

/-! ## Keys of settings -/

theorem text?_eq_some_iff {atom : Yaml.Atom} {content : String} :
    atom.text? = some content ↔ atom = .text content := by
  cases atom <;> simp [Yaml.Atom.text?, Text.Coded.whole?_eq_some_iff]

theorem isText_iff {atom : Yaml.Atom} {content : String} :
    atom.isText content = true ↔ atom = .text content := by
  rw [Yaml.Atom.isText, beq_iff_eq, text?_eq_some_iff]

/-- A key of a setting, in one of the sections. -/
inductive SettingKey where
  | layout (key : LayoutKey)
  | drawing (key : DrawingKey)
deriving DecidableEq

namespace SettingKey

/-- The section of a setting. -/
def home : SettingKey → Section
  | .layout _ => .layout
  | .drawing _ => .drawing

def name : SettingKey → String
  | .layout key => key.name
  | .drawing key => key.name

def rule : SettingKey → Rule
  | .layout key => key.rule
  | .drawing key => key.rule

theorem hasKnownBound (key : SettingKey) : key.rule.HasKnownBound := by
  rintro tenths same
  rcases key with key | key <;> cases key <;> cases same <;> simp

end SettingKey

/-- Keys of which each is found by its name are found by nothing else. -/
theorem find?_name_iff {κ : Type} {all : List κ} {name : κ → String}
    (finds : ∀ key, all.find? (fun other => name other == name key) = some key) {text : String}
    {key : κ} : all.find? (fun other => name other == text) = some key ↔ text = name key := by
  constructor
  · intro found
    exact (beq_iff_eq.mp (List.find?_some (p := fun other => name other == text) found)).symm
  · rintro rfl
    exact finds key

theorem LayoutKey.ofName?_eq_some_iff {name : String} {key : LayoutKey} :
    LayoutKey.ofName? name = some key ↔ name = key.name :=
  find?_name_iff fun key => by cases key <;> decide

theorem DrawingKey.ofName?_eq_some_iff {name : String} {key : DrawingKey} :
    DrawingKey.ofName? name = some key ↔ name = key.name :=
  find?_name_iff fun key => by cases key <;> decide

theorem Section.ofKey?_eq_some_iff {atom : Yaml.Atom} {section_ : Section} :
    Section.ofKey? atom = some section_ ↔ atom = .text section_.name := by
  constructor
  · intro found
    have named := List.find?_some (p := fun other => atom.isText (Section.name other)) found
    exact isText_iff.mp named
  · rintro rfl
    cases section_ <;> decide

theorem Section.rule?_eq_some_iff {section_ : Section} {atom : Yaml.Atom} {rule : Rule} :
    section_.rule? atom = some rule ↔
      ∃ key : SettingKey, key.home = section_ ∧ atom = .text key.name ∧ key.rule = rule := by
  constructor
  · intro found
    obtain ⟨name, isText, found⟩ := Option.bind_eq_some_iff.mp found
    obtain rfl := text?_eq_some_iff.mp isText
    cases section_ with
    | layout =>
        obtain ⟨key, named, isRule⟩ := Option.map_eq_some_iff.mp found
        have same : name = key.name := LayoutKey.ofName?_eq_some_iff.mp named
        exact ⟨.layout key, rfl, by rw [same]; rfl, isRule⟩
    | drawing =>
        obtain ⟨key, named, isRule⟩ := Option.map_eq_some_iff.mp found
        have same : name = key.name := DrawingKey.ofName?_eq_some_iff.mp named
        exact ⟨.drawing key, rfl, by rw [same]; rfl, isRule⟩
  · rintro ⟨key | key, rfl, rfl, rfl⟩
    · exact Option.map_eq_some_iff.mpr ⟨key, LayoutKey.ofName?_eq_some_iff.mpr rfl, rfl⟩
    · exact Option.map_eq_some_iff.mpr ⟨key, DrawingKey.ofName?_eq_some_iff.mpr rfl, rfl⟩

theorem Section.rule?_eq_none_iff {section_ : Section} {atom : Yaml.Atom} :
    section_.rule? atom = none ↔
      ∀ key : SettingKey, key.home = section_ → atom ≠ .text key.name := by
  rw [Option.eq_none_iff_forall_ne_some]
  constructor
  · intro none key isHome isName
    exact none _ (rule?_eq_some_iff.mpr ⟨key, isHome, isName, rfl⟩)
  · intro unknown rule found
    obtain ⟨key, isHome, isName, -⟩ := rule?_eq_some_iff.mp found
    exact unknown key isHome isName

/-! ## Offending keys -/

/-- What is wrong with a key of a section and its value. -/
inductive Section.Refuses (section_ : Section) : Yaml.Atom → Raw → Offence → Prop where
  | unknownKey {atom : Yaml.Atom} {raw : Raw} :
      (∀ key : SettingKey, key.home = section_ → atom ≠ .text key.name) →
      Refuses section_ atom raw .unknownKey
  | broken {key : SettingKey} {raw : Raw} {offence : Offence} : key.home = section_ →
      key.rule.Breaks raw offence → Refuses section_ (.text key.name) raw offence

/-- A key offends, at the end of the keys of the mappings that it is in. -/
inductive Offends (entries : RawEntries) : List Yaml.Atom → Offence → Prop where
  | unknownKey {key : Yaml.Atom} {raw : Raw} : (key, raw) ∈ entries →
      (∀ section_ : Section, key ≠ .text section_.name) → Offends entries [key] .unknownKey
  | nullSection {section_ : Section} : (.text section_.name, .null) ∈ entries →
      Offends entries [.text section_.name] .nullValue
  | noMapping {section_ : Section} {raw : Raw} : (.text section_.name, raw) ∈ entries →
      raw ≠ .null → raw.typeName? ≠ some "dict" →
      Offends entries [.text section_.name] (.wrongType "dict")
  | inside {section_ : Section} {inner : RawEntries} {key : Yaml.Atom} {raw : Raw}
      {offence : Offence} : (.text section_.name, .mapping inner) ∈ entries →
      (key, raw) ∈ inner → section_.Refuses key raw offence →
      Offends entries [.text section_.name, key] offence

theorem Section.keyOffence?_eq_some_iff {section_ : Section} {atom : Yaml.Atom} {raw : Raw}
    {offence : Offence} :
    section_.keyOffence? atom raw = some offence ↔ section_.Refuses atom raw offence := by
  unfold Section.keyOffence?
  cases found : section_.rule? atom with
  | none =>
      have unknown := rule?_eq_none_iff.mp found
      constructor
      · rintro ⟨⟩
        exact .unknownKey unknown
      · rintro (_ | ⟨isHome, _⟩)
        · rfl
        · exact absurd rfl (unknown _ isHome)
  | some rule =>
      obtain ⟨key, isHome, rfl, rfl⟩ := rule?_eq_some_iff.mp found
      dsimp only
      rw [Rule.offence?_eq_some_iff key.hasKnownBound]
      constructor
      · exact fun breaks => .broken isHome breaks
      · intro refuses
        generalize same : Yaml.Atom.text key.name = atom at refuses
        cases refuses with
        | unknownKey unknown => exact absurd same.symm (unknown key isHome)
        | @broken other _ _ otherHome breaks =>
            have sameRule : section_.rule? (.text key.name) = some other.rule :=
              rule?_eq_some_iff.mpr ⟨other, otherHome, same, rfl⟩
            rw [found] at sameRule
            rwa [Option.some.inj sameRule]

/-! ## The list of offending keys -/

/-- An offending key at the end of the keys of the mappings that it is in, with what is
wrong. -/
structure Offender where
  keys : List Yaml.Atom
  offence : Offence

namespace Offender

/-- The names of the keys with points between them, and what is wrong. -/
def offendingKey (offender : Offender) : OffendingKey :=
  ⟨".".intercalate (offender.keys.map fun key => key.name.shown), offender.offence⟩

end Offender

/-- The offending keys under one key of the whole. -/
def entryOffenders (key : Yaml.Atom) (raw : Raw) : List Offender :=
  match Section.ofKey? key, raw with
  | none, _ => [⟨[key], .unknownKey⟩]
  | some section_, .mapping inner =>
      (byName inner).filterMap fun (inside, raw) =>
        (section_.keyOffence? inside raw).map (Offender.mk [key, inside])
  | some _, .null => [⟨[key], .nullValue⟩]
  | some _, _ => [⟨[key], .wrongType "dict"⟩]

/-- The offending keys of the whole, in the order in which they are listed. -/
def offenders (entries : RawEntries) : List Offender :=
  (byName entries).flatMap fun (key, raw) => entryOffenders key raw

theorem mem_byName {α : Type} {entries : List (Yaml.Atom × α)} {entry : Yaml.Atom × α} :
    entry ∈ byName entries ↔ entry ∈ entries :=
  List.mem_mergeSort

theorem entryOffenders_unknown {key : Yaml.Atom}
    (unknown : ∀ section_ : Section, key ≠ .text section_.name) (raw : Raw) :
    entryOffenders key raw = [⟨[key], .unknownKey⟩] := by
  have isNone : Section.ofKey? key = none :=
    Option.eq_none_iff_forall_ne_some.mpr fun section_ found =>
      unknown section_ (Section.ofKey?_eq_some_iff.mp found)
  unfold entryOffenders
  rw [isNone]

theorem entryOffenders_section (section_ : Section) (raw : Raw) :
    entryOffenders (.text section_.name) raw =
      match raw with
      | .mapping inner => (byName inner).filterMap fun (inside, raw) =>
          (section_.keyOffence? inside raw).map (Offender.mk [.text section_.name, inside])
      | .null => [⟨[.text section_.name], .nullValue⟩]
      | _ => [⟨[.text section_.name], .wrongType "dict"⟩] := by
  unfold entryOffenders
  rw [Section.ofKey?_eq_some_iff.mpr rfl]
  cases raw <;> rfl

theorem entryOffenders_noMapping (section_ : Section) {raw : Raw} (notNull : raw ≠ .null)
    (otherType : raw.typeName? ≠ some "dict") :
    entryOffenders (.text section_.name) raw =
      [⟨[.text section_.name], .wrongType "dict"⟩] := by
  rw [entryOffenders_section]
  cases raw <;> simp_all [Raw.typeName?]

/-- What is found in a section. -/
theorem mem_entryOffenders_mapping {section_ : Section} {inner : RawEntries}
    {offender : Offender} :
    offender ∈ entryOffenders (.text section_.name) (.mapping inner) ↔
      ∃ key raw offence, (key, raw) ∈ inner ∧ section_.Refuses key raw offence ∧
        offender = ⟨[.text section_.name, key], offence⟩ := by
  rw [entryOffenders_section]
  simp only [List.mem_filterMap, mem_byName, Prod.exists, Option.map_eq_some_iff,
    Section.keyOffence?_eq_some_iff]
  constructor
  · rintro ⟨key, raw, isEntry, offence, refuses, rfl⟩
    exact ⟨key, raw, offence, isEntry, refuses, rfl⟩
  · rintro ⟨key, raw, offence, isEntry, refuses, rfl⟩
    exact ⟨key, raw, isEntry, offence, refuses, rfl⟩

theorem offends_of_mem_entryOffenders {entries : RawEntries} {key : Yaml.Atom} {raw : Raw}
    {offender : Offender} (isEntry : (key, raw) ∈ entries)
    (found : offender ∈ entryOffenders key raw) :
    Offends entries offender.keys offender.offence := by
  by_cases known : ∃ section_ : Section, key = .text section_.name
  · obtain ⟨section_, rfl⟩ := known
    by_cases isNull : raw = .null
    · subst isNull
      obtain rfl := List.mem_singleton.mp (entryOffenders_section section_ _ ▸ found)
      exact .nullSection isEntry
    by_cases otherType : raw.typeName? = some "dict"
    · obtain ⟨inner, rfl⟩ : ∃ inner, raw = .mapping inner := by
        cases raw <;> simp [Raw.typeName?] at otherType ⊢
      obtain ⟨_, _, _, isInside, refuses, rfl⟩ := mem_entryOffenders_mapping.mp found
      exact .inside isEntry isInside refuses
    · obtain rfl := List.mem_singleton.mp
        (entryOffenders_noMapping section_ isNull otherType ▸ found)
      exact .noMapping isEntry isNull otherType
  · have unknown := not_exists.mp known
    obtain rfl := List.mem_singleton.mp (entryOffenders_unknown unknown raw ▸ found)
    exact .unknownKey isEntry unknown

/-- The list has those keys that offend, each with its offence. -/
theorem mem_offenders {entries : RawEntries} {offender : Offender} :
    offender ∈ offenders entries ↔ Offends entries offender.keys offender.offence := by
  simp only [offenders, List.mem_flatMap, mem_byName, Prod.exists]
  constructor
  · rintro ⟨key, raw, isEntry, found⟩
    exact offends_of_mem_entryOffenders isEntry found
  · obtain ⟨keys, offence⟩ := offender
    rintro offends
    cases offends with
    | @unknownKey key raw isEntry unknown =>
        exact ⟨key, raw, isEntry, by simp [entryOffenders_unknown unknown]⟩
    | @nullSection section_ isEntry =>
        exact ⟨_, _, isEntry, by simp [entryOffenders_section]⟩
    | @noMapping section_ raw isEntry notNull otherType =>
        exact ⟨_, _, isEntry, by simp [entryOffenders_noMapping section_ notNull otherType]⟩
    | inside isEntry isInside refuses =>
        exact ⟨_, _, isEntry, mem_entryOffenders_mapping.mpr
          ⟨_, _, _, isInside, refuses, rfl⟩⟩

/-! ## The order of the list -/

/-- Keys are in order if their names are at the first level where the keys differ. -/
def InOrder : List Yaml.Atom → List Yaml.Atom → Prop
  | first :: rest, second :: others =>
      first.name ≤ second.name ∧ (first = second → InOrder rest others)
  | _, _ => True

/-- Entries with different keys. -/
def RawEntries.Distinct (entries : RawEntries) : Prop :=
  (entries.map Prod.fst).Nodup

theorem pairwise_byName {entries : RawEntries} (distinct : entries.Distinct) :
    (byName entries).Pairwise fun first second =>
      first.1 ≠ second.1 ∧ first.1.name ≤ second.1.name := by
  have sorted : (byName entries).Pairwise fun first second =>
      decide (first.1.name ≤ second.1.name) = true := by
    refine List.pairwise_mergeSort ?_ ?_ entries
    · intro first second third before after
      exact decide_eq_true
        (Text.Coded.le_trans (of_decide_eq_true before) (of_decide_eq_true after))
    · intro first second
      simpa using Text.Coded.le_total first.1.name second.1.name
  have different : (byName entries).Pairwise fun first second => first.1 ≠ second.1 :=
    List.pairwise_map.mp ((List.mergeSort_perm entries _).map Prod.fst |>.nodup_iff.mpr distinct)
  exact (different.and sorted).imp fun ⟨apart, ordered⟩ => ⟨apart, of_decide_eq_true ordered⟩

theorem pairwise_entryOffenders {key : Yaml.Atom} {raw : Raw}
    (distinct : ∀ inner, raw = .mapping inner → RawEntries.Distinct inner) :
    (entryOffenders key raw).Pairwise fun first second =>
      first.keys ≠ second.keys ∧ InOrder first.keys second.keys := by
  unfold entryOffenders
  split
  · exact List.pairwise_singleton _ _
  · next section_ inner _ =>
    refine List.Pairwise.filterMap _ ?_ (pairwise_byName (distinct inner rfl))
    rintro ⟨first, _⟩ ⟨second, _⟩ ⟨apart, ordered⟩ _ isFirst _ isSecond
    obtain ⟨_, -, rfl⟩ := Option.map_eq_some_iff.mp isFirst
    obtain ⟨_, -, rfl⟩ := Option.map_eq_some_iff.mp isSecond
    refine ⟨fun same => apart (by simpa using same), Text.Coded.le_refl _, fun _ => ?_⟩
    exact ⟨ordered, fun same => absurd same apart⟩
  · exact List.pairwise_singleton _ _
  · exact List.pairwise_singleton _ _

theorem keys_of_mem_entryOffenders {key : Yaml.Atom} {raw : Raw} {offender : Offender}
    (found : offender ∈ entryOffenders key raw) : ∃ rest, offender.keys = key :: rest := by
  unfold entryOffenders at found
  split at found
  · exact ⟨[], by rw [List.mem_singleton.mp found]⟩
  · obtain ⟨⟨inside, _⟩, -, found⟩ := List.mem_filterMap.mp found
    obtain ⟨_, -, rfl⟩ := Option.map_eq_some_iff.mp found
    exact ⟨[inside], rfl⟩
  · exact ⟨[], by rw [List.mem_singleton.mp found]⟩
  · exact ⟨[], by rw [List.mem_singleton.mp found]⟩

/-- No key is listed twice, and the keys are in order. -/
theorem pairwise_offenders {entries : RawEntries} (distinct : entries.Distinct)
    (innerDistinct : ∀ key inner, (key, .mapping inner) ∈ entries → RawEntries.Distinct inner) :
    (offenders entries).Pairwise fun first second =>
      first.keys ≠ second.keys ∧ InOrder first.keys second.keys := by
  refine List.pairwise_flatMap.mpr ⟨?_, (pairwise_byName distinct).imp ?_⟩
  · rintro ⟨key, raw⟩ isEntry
    refine pairwise_entryOffenders ?_
    rintro inner rfl
    exact innerDistinct key inner (mem_byName.mp isEntry)
  · rintro ⟨first, _⟩ ⟨second, _⟩ ⟨apart, ordered⟩ one isOne other isOther
    obtain ⟨rest, oneKeys⟩ := keys_of_mem_entryOffenders isOne
    obtain ⟨others, otherKeys⟩ := keys_of_mem_entryOffenders isOther
    rw [oneKeys, otherKeys]
    exact ⟨fun same => apart (List.cons.inj same).1, ordered, fun same => absurd same apart⟩

end Settings

end Schematic
