import Schematic.Proofs.Number.Range
import Schematic.Proofs.Outcome
import Schematic.Proofs.Settings.Offences

/-!
# Supplied values

Raw settings without an offending key can be assigned.  Each setting then has the value
that is supplied for it, with whole numbers in double precision, or its standard value if
none is supplied.  A value is assigned without touching the other settings, so what the
one section supplies leaves the other one as it is.
-/

namespace Schematic

namespace Settings

/-! ## Fields -/

/-- The value of a setting. -/
inductive FieldValue where
  | number (number : Float)
  | flag (holds : Bool)
  | text (text : Text.Coded)

/-- What a raw value gives to a setting. -/
def Raw.supplied? : Raw → Option FieldValue
  | .whole count => some (.number (Float.ofInt count))
  | .number measured => some (.number measured)
  | .flag holds => some (.flag holds)
  | .text content => some (.text content)
  | _ => none

/-- The value of a setting for layouts. -/
def LayoutKey.field (settings : LayoutSettings Float) : LayoutKey → FieldValue
  | .parallelSpacing => .number settings.parallelSpacing
  | .shuntStub => .number settings.shuntStub
  | .shuntLead => .number settings.shuntLead
  | .railClearance => .number settings.railClearance
  | .originX => .number settings.originX
  | .originY => .number settings.originY
  | .branchAlignment => .text settings.branchAlignment.name
  | .validate => .flag settings.validate

/-- The value of a setting for drawings. -/
def DrawingKey.field (settings : DrawingSettings Float) : DrawingKey → FieldValue
  | .margin => .number settings.margin
  | .stroke => .text settings.stroke
  | .strokeWidth => .number settings.strokeWidth
  | .fontSize => .number settings.fontSize
  | .fontFamily => .text settings.fontFamily
  | .junctionRadius => .number settings.junctionRadius
  | .terminalRadius => .number settings.terminalRadius
  | .showLabels => .flag settings.showLabels

/-- The value of a setting. -/
def SettingKey.field (settings : Settings Float) : SettingKey → FieldValue
  | .layout key => key.field settings.layout
  | .drawing key => key.field settings.drawing

/-! ## Values that keep their rule -/

/-- A value that a rule allows, and that can be converted. -/
structure Rule.Accepts (rule : Rule) (raw : Raw) : Prop where
  keeps : ∀ offence, ¬rule.Breaks raw offence
  inRange : ∀ count, raw = .whole count → count.natAbs ≤ Number.largestFinite

namespace Rule.Accepts

variable {rule : Rule} {raw : Raw} (accepts : rule.Accepts raw)

include accepts

theorem typeName?_eq : raw.typeName? = some rule.typeName := by
  by_contra otherType
  refine accepts.keeps _ (.otherType ?_ otherType)
  rintro rfl
  exact accepts.keeps _ .null

theorem exists_number (isNumber : rule.typeName = "number") (previous : Float) :
    ∃ number, numberOf previous raw = .ok number ∧ raw.supplied? = some (.number number) := by
  have sameType := accepts.typeName?_eq
  rw [isNumber] at sameType
  cases raw with
  | whole count =>
      have finite := Number.isFinite_ofInt (accepts.inRange count rfl)
      exact ⟨_, by rw [numberOf, wholeFloat, if_pos finite], rfl⟩
  | number measured => exact ⟨measured, rfl, rfl⟩
  | _ => simp [Raw.typeName?] at sameType

theorem supplied?_flag (isFlag : rule.typeName = "boolean") (previous : Bool) :
    raw.supplied? = some (.flag (flagOf previous raw)) := by
  have sameType := accepts.typeName?_eq
  rw [isFlag] at sameType
  cases raw with
  | flag holds => rfl
  | _ => simp [Raw.typeName?] at sameType

theorem supplied?_text (isText : rule.typeName = "string") (previous : Text.Coded) :
    raw.supplied? = some (.text (textOf previous raw)) := by
  have sameType := accepts.typeName?_eq
  rw [isText] at sameType
  cases raw with
  | text content => rfl
  | _ => simp [Raw.typeName?] at sameType

omit accepts in
theorem exists_text {allowed : List String} (accepts : (Rule.oneOf allowed).Accepts raw) :
    ∃ content, raw = .text (.ofText content) := by
  have sameType := accepts.typeName?_eq
  cases raw with
  | text text =>
      by_contra other
      refine accepts.keeps _ (.notAllowed fun content _ same => other ⟨content, ?_⟩)
      rw [same]
  | _ => simp [Raw.typeName?, Rule.typeName] at sameType

end Rule.Accepts

/-! ## Assigning one value -/

/-- A value goes to the field of a key, and the other fields keep theirs. -/
structure Sets {κ σ : Type} (field : σ → κ → FieldValue) (settings : σ) (key : κ) (raw : Raw)
    (next : σ) : Prop where
  supplied : raw.supplied? = some (field next key)
  others : ∀ other, other ≠ key → field next other = field settings other

section

variable {raw : Raw}

/-- A value that is assigned leaves the other settings as they were. -/
theorem LayoutKey.others_of_assign {key : LayoutKey} {settings next : LayoutSettings Float}
    (assigned : key.assign settings raw = .ok next) :
    ∀ other, other ≠ key → field next other = field settings other := by
  intro other differs
  cases key with
  | branchAlignment | validate =>
      cases assigned
      cases other <;> first | rfl | exact absurd rfl differs
  | _ =>
      obtain ⟨number, -, same⟩ := exists_of_bind_eq_ok assigned
      cases same
      cases other <;> first | rfl | exact absurd rfl differs

theorem DrawingKey.others_of_assign {key : DrawingKey} {settings next : DrawingSettings Float}
    (assigned : key.assign settings raw = .ok next) :
    ∀ other, other ≠ key → field next other = field settings other := by
  intro other differs
  cases key with
  | stroke | fontFamily | showLabels =>
      cases assigned
      cases other <;> first | rfl | exact absurd rfl differs
  | _ =>
      obtain ⟨number, -, same⟩ := exists_of_bind_eq_ok assigned
      cases same
      cases other <;> first | rfl | exact absurd rfl differs

/-- A value that keeps the rule of its key can be assigned. -/
theorem LayoutKey.exists_assign {key : LayoutKey} (accepts : key.rule.Accepts raw)
    (settings : LayoutSettings Float) :
    ∃ next, key.assign settings raw = .ok next ∧ Sets LayoutKey.field settings key raw next := by
  have taken : ∃ next, key.assign settings raw = .ok next ∧
      raw.supplied? = some (key.field next) := by
    cases key with
    | branchAlignment =>
        obtain ⟨content, rfl⟩ := accepts.exists_text
        refine ⟨_, rfl, ?_⟩
        rw [LayoutKey.field, BranchAlignment.name_ofName, textOf, Text.Coded.shown_ofText]
        rfl
    | validate => exact ⟨_, rfl, accepts.supplied?_flag rfl _⟩
    | _ =>
        obtain ⟨number, isNumber, supplied⟩ := accepts.exists_number rfl _
        rw [LayoutKey.assign, isNumber]
        exact ⟨_, rfl, supplied⟩
  obtain ⟨next, assigned, supplied⟩ := taken
  exact ⟨next, assigned, supplied, others_of_assign assigned⟩

theorem DrawingKey.exists_assign {key : DrawingKey} (accepts : key.rule.Accepts raw)
    (settings : DrawingSettings Float) :
    ∃ next, key.assign settings raw = .ok next ∧ Sets DrawingKey.field settings key raw next := by
  have taken : ∃ next, key.assign settings raw = .ok next ∧
      raw.supplied? = some (key.field next) := by
    cases key with
    | stroke | fontFamily => exact ⟨_, rfl, accepts.supplied?_text rfl _⟩
    | showLabels => exact ⟨_, rfl, accepts.supplied?_flag rfl _⟩
    | _ =>
        obtain ⟨number, isNumber, supplied⟩ := accepts.exists_number rfl _
        rw [DrawingKey.assign, isNumber]
        exact ⟨_, rfl, supplied⟩
  obtain ⟨next, assigned, supplied⟩ := taken
  exact ⟨next, assigned, supplied, others_of_assign assigned⟩

end

/-! ## Assigning many values -/

section

variable {κ σ : Type} (find? : Yaml.Atom → Option κ) (assign : σ → Raw → κ → Except TooLarge σ)

/-- Assigns the values whose keys are found, one after the other. -/
def assignAll (settings : σ) (entries : RawEntries) : Except TooLarge σ :=
  entries.foldlM (fun settings (atom, raw) =>
    match find? atom with
    | some key => assign settings raw key
    | none => .ok settings) settings

/-- Every supplied value is in its field, and the other fields are as they were. -/
structure SetsAll (field : σ → κ → FieldValue) (settings : σ) (entries : RawEntries)
    (final : σ) : Prop where
  supplied : ∀ atom raw key, (atom, raw) ∈ entries → find? atom = some key →
    raw.supplied? = some (field final key)
  others : ∀ key, (∀ atom raw, (atom, raw) ∈ entries → find? atom ≠ some key) →
    field final key = field settings key

variable {find? assign} {field : σ → κ → FieldValue} {settings next final : σ} {atom : Yaml.Atom}
  {raw : Raw} {key : κ} {entries : RawEntries}

theorem assignAll_skip (unknown : find? atom = none) :
    assignAll find? assign settings ((atom, raw) :: entries) =
      assignAll find? assign settings entries := by
  simp only [assignAll, List.foldlM_cons, unknown]
  rfl

theorem assignAll_take (found : find? atom = some key)
    (assigned : assign settings raw key = .ok next) :
    assignAll find? assign settings ((atom, raw) :: entries) =
      assignAll find? assign next entries := by
  simp only [assignAll, List.foldlM_cons, found, assigned]
  rfl

theorem SetsAll.skip (unknown : find? atom = none)
    (sets : SetsAll find? field settings entries final) :
    SetsAll find? field settings ((atom, raw) :: entries) final := by
  refine ⟨fun other value key isEntry isKey => ?_, fun key missing => ?_⟩
  · rcases List.mem_cons.mp isEntry with isFirst | isLater
    · cases isFirst
      simp [unknown] at isKey
    · exact sets.supplied other value key isLater isKey
  · exact sets.others key fun other value isLater =>
      missing other value (List.mem_cons_of_mem _ isLater)

/-- A value that is assigned first is not overwritten by values under other keys. -/
theorem SetsAll.take (found : find? atom = some key) (set : Sets field settings key raw next)
    (others : ∀ other value, (other, value) ∈ entries → find? other ≠ some key)
    (sets : SetsAll find? field next entries final) :
    SetsAll find? field settings ((atom, raw) :: entries) final := by
  refine ⟨fun other value second isEntry isKey => ?_, fun second missing => ?_⟩
  · rcases List.mem_cons.mp isEntry with isFirst | isLater
    · cases isFirst
      obtain rfl : key = second := by simpa [found] using isKey
      rw [sets.others key others, set.supplied]
    · exact sets.supplied other value second isLater isKey
  · rw [sets.others second fun other value isLater =>
      missing other value (List.mem_cons_of_mem _ isLater)]
    refine set.others second ?_
    rintro rfl
    exact missing atom raw List.mem_cons_self found

/-- Values whose keys differ can be assigned if each of them can. -/
theorem exists_assignAll (distinct : entries.Distinct)
    (unique : ∀ first second key, find? first = some key → find? second = some key →
      first = second)
    (assigns : ∀ atom raw key, (atom, raw) ∈ entries → find? atom = some key → ∀ settings,
      ∃ next, assign settings raw key = .ok next ∧ Sets field settings key raw next)
    (settings : σ) :
    ∃ final, assignAll find? assign settings entries = .ok final ∧
      SetsAll find? field settings entries final := by
  induction entries generalizing settings with
  | nil => exact ⟨settings, rfl, nofun, fun _ _ => rfl⟩
  | cons entry entries ih =>
      obtain ⟨atom, raw⟩ := entry
      obtain ⟨isNew, distinctLater⟩ := List.nodup_cons.mp distinct
      have later := ih distinctLater fun atom raw key isEntry =>
        assigns atom raw key (List.mem_cons_of_mem _ isEntry)
      cases found : find? atom with
      | none =>
          obtain ⟨final, run, sets⟩ := later settings
          exact ⟨final, (assignAll_skip found).trans run, sets.skip found⟩
      | some key =>
          obtain ⟨next, assigned, set⟩ := assigns atom raw key List.mem_cons_self found settings
          obtain ⟨final, run, sets⟩ := later next
          refine ⟨final, (assignAll_take found assigned).trans run, sets.take found set ?_⟩
          intro other value isLater isKey
          rw [unique other atom key isKey found] at isLater
          exact isNew (List.mem_map.mpr ⟨_, isLater, rfl⟩)

end

/-! ## Assigning all values -/

/-- Settings have the values that are supplied for them, and are standard otherwise. -/
structure HasValues (entries : RawEntries) (settings : Settings Float) : Prop where
  supplied : ∀ (key : SettingKey) inner raw, (.text key.home.name, .mapping inner) ∈ entries →
    (.text key.name, raw) ∈ inner → raw.supplied? = some (key.field settings)
  standard : ∀ key : SettingKey,
    (∀ inner raw, (.text key.home.name, .mapping inner) ∈ entries →
      (.text key.name, raw) ∉ inner) → key.field settings = key.field .standard

theorem mem_of_under? {name : String} {entries : RawEntries} {raw : Raw}
    (found : entries.under? name = some raw) : (.text name, raw) ∈ entries := by
  obtain ⟨⟨atom, _⟩, isFirst, rfl⟩ := Option.map_eq_some_iff.mp found
  have named := List.find?_some (p := fun entry : Yaml.Atom × Raw => entry.1.isText name) isFirst
  rw [← isText_iff.mp named]
  exact List.mem_of_find?_eq_some isFirst

theorem under?_eq_some {name : String} {entries : RawEntries} (distinct : entries.Distinct)
    {raw : Raw} (isEntry : (.text name, raw) ∈ entries) : entries.under? name = some raw := by
  induction entries with
  | nil => cases isEntry
  | cons entry entries ih =>
      obtain ⟨isNew, distinctLater⟩ := List.nodup_cons.mp distinct
      rw [RawEntries.under?, List.find?_cons]
      cases isNamed : entry.1.isText name with
      | true =>
          rcases List.mem_cons.mp isEntry with rfl | isLater
          · rfl
          · rw [isText_iff.mp isNamed] at isNew
            exact absurd (List.mem_map_of_mem isLater) isNew
      | false =>
          rcases List.mem_cons.mp isEntry with rfl | isLater
          · rw [isText_iff.mpr rfl] at isNamed
            cases isNamed
          · exact ih distinctLater isLater

section

variable {section_ : Section} {entries : RawEntries}

theorem exists_section {atom : Yaml.Atom} {raw : Raw}
    (isEntry : (atom, raw) ∈ sectionEntries section_ entries) :
    ∃ inner, (.text section_.name, .mapping inner) ∈ entries ∧ (atom, raw) ∈ inner := by
  unfold sectionEntries at isEntry
  split at isEntry
  · next inner found => exact ⟨inner, mem_of_under? found, isEntry⟩
  · cases isEntry

theorem sectionEntries_eq (distinct : entries.Distinct) {inner : RawEntries}
    (isSection : (.text section_.name, .mapping inner) ∈ entries) :
    sectionEntries section_ entries = inner := by
  rw [sectionEntries, under?_eq_some distinct isSection]

theorem sectionEntries_distinct
    (innerDistinct : ∀ key inner, (key, .mapping inner) ∈ entries → RawEntries.Distinct inner) :
    (sectionEntries section_ entries).Distinct := by
  unfold sectionEntries
  split
  · next inner found => exact innerDistinct _ inner (mem_of_under? found)
  · exact List.nodup_nil

/-- What is supplied in a section without an offending key keeps the rule of its key. -/
theorem SettingKey.accepts
    (inRange : ∀ key inner inside count, (key, .mapping inner) ∈ entries →
      (inside, .whole count) ∈ inner → count.natAbs ≤ Number.largestFinite)
    (right : ¬∃ keys offence, Offends entries keys offence) {key : SettingKey} {raw : Raw}
    (isEntry : (.text key.name, raw) ∈ sectionEntries key.home entries) :
    key.rule.Accepts raw := by
  obtain ⟨inner, isSection, isInside⟩ := exists_section isEntry
  refine ⟨fun offence breaks => right ⟨_, _, .inside isSection isInside (.broken rfl breaks)⟩, ?_⟩
  rintro count rfl
  exact inRange _ _ _ _ isSection isInside

end

/-- The key of a setting of the spacing that an atom names. -/
def LayoutKey.ofAtom? (atom : Yaml.Atom) : Option LayoutKey :=
  atom.text?.bind LayoutKey.ofName?

theorem LayoutKey.ofAtom?_eq_some_iff {atom : Yaml.Atom} {key : LayoutKey} :
    LayoutKey.ofAtom? atom = some key ↔ atom = .text key.name := by
  simp [LayoutKey.ofAtom?, Option.bind_eq_some_iff, text?_eq_some_iff, LayoutKey.ofName?_eq_some_iff]

theorem assignLayout_eq (settings : LayoutSettings Float) (entries : RawEntries) :
    assignLayout settings entries = assignAll LayoutKey.ofAtom?
      (fun settings raw key => LayoutKey.assign settings raw key) settings entries := by
  unfold assignLayout assignAll LayoutKey.ofAtom?
  congr
  funext settings ⟨atom, raw⟩
  dsimp only
  cases atom.text?.bind LayoutKey.ofName? <;> rfl

/-- The key of a setting of the style that an atom names. -/
def DrawingKey.ofAtom? (atom : Yaml.Atom) : Option DrawingKey :=
  atom.text?.bind DrawingKey.ofName?

theorem DrawingKey.ofAtom?_eq_some_iff {atom : Yaml.Atom} {key : DrawingKey} :
    DrawingKey.ofAtom? atom = some key ↔ atom = .text key.name := by
  simp [DrawingKey.ofAtom?, Option.bind_eq_some_iff, text?_eq_some_iff, DrawingKey.ofName?_eq_some_iff]

theorem assignDrawing_eq (settings : DrawingSettings Float) (entries : RawEntries) :
    assignDrawing settings entries = assignAll DrawingKey.ofAtom?
      (fun settings raw key => DrawingKey.assign settings raw key) settings entries := by
  unfold assignDrawing assignAll DrawingKey.ofAtom?
  congr
  funext settings ⟨atom, raw⟩
  dsimp only
  cases atom.text?.bind DrawingKey.ofName? <;> rfl

/-- The values of a section that has no offending key can be assigned. -/
theorem exists_assignLayout {entries : RawEntries} (distinct : entries.Distinct)
    (accepts : ∀ key : LayoutKey, ∀ raw, (.text key.name, raw) ∈ entries → key.rule.Accepts raw) :
    ∃ layout, assignLayout .standard entries = .ok layout ∧
      SetsAll LayoutKey.ofAtom? LayoutKey.field .standard entries layout := by
  rw [assignLayout_eq]
  refine exists_assignAll distinct (fun first second key isFirst isSecond => ?_)
    (fun atom raw key isEntry isKey settings => ?_) _
  · rw [LayoutKey.ofAtom?_eq_some_iff.mp isFirst, LayoutKey.ofAtom?_eq_some_iff.mp isSecond]
  · obtain rfl := LayoutKey.ofAtom?_eq_some_iff.mp isKey
    exact LayoutKey.exists_assign (accepts key raw isEntry) settings

theorem exists_assignDrawing {entries : RawEntries} (distinct : entries.Distinct)
    (accepts : ∀ key : DrawingKey, ∀ raw, (.text key.name, raw) ∈ entries → key.rule.Accepts raw) :
    ∃ drawing, assignDrawing .standard entries = .ok drawing ∧
      SetsAll DrawingKey.ofAtom? DrawingKey.field .standard entries drawing := by
  rw [assignDrawing_eq]
  refine exists_assignAll distinct (fun first second key isFirst isSecond => ?_)
    (fun atom raw key isEntry isKey settings => ?_) _
  · rw [DrawingKey.ofAtom?_eq_some_iff.mp isFirst, DrawingKey.ofAtom?_eq_some_iff.mp isSecond]
  · obtain rfl := DrawingKey.ofAtom?_eq_some_iff.mp isKey
    exact DrawingKey.exists_assign (accepts key raw isEntry) settings

/-- Entries without an offending key can be assigned. -/
theorem exists_assign {entries : RawEntries} (distinct : entries.Distinct)
    (innerDistinct : ∀ key inner, (key, .mapping inner) ∈ entries → RawEntries.Distinct inner)
    (inRange : ∀ key inner inside count, (key, .mapping inner) ∈ entries →
      (inside, .whole count) ∈ inner → count.natAbs ≤ Number.largestFinite)
    (right : ¬∃ keys offence, Offends entries keys offence) :
    ∃ settings, assign entries = .ok settings ∧ HasValues entries settings := by
  have accepts (key : SettingKey) (raw : Raw)
      (isEntry : (.text key.name, raw) ∈ sectionEntries key.home entries) :
      key.rule.Accepts raw := SettingKey.accepts inRange right isEntry
  obtain ⟨layout, layoutRun, setsLayout⟩ :=
    exists_assignLayout (sectionEntries_distinct innerDistinct) fun key => accepts (.layout key)
  obtain ⟨drawing, drawingRun, setsDrawing⟩ :=
    exists_assignDrawing (sectionEntries_distinct innerDistinct) fun key => accepts (.drawing key)
  refine ⟨⟨layout, drawing⟩, by rw [assign, layoutRun, drawingRun]; rfl, ?_, ?_⟩
  · rintro (key | key) inner raw isSection isInside
    all_goals obtain rfl := sectionEntries_eq distinct isSection
    · exact setsLayout.supplied _ raw key isInside (LayoutKey.ofAtom?_eq_some_iff.mpr rfl)
    · exact setsDrawing.supplied _ raw key isInside (DrawingKey.ofAtom?_eq_some_iff.mpr rfl)
  · rintro (key | key) missing
    · refine setsLayout.others key fun atom raw isEntry isKey => ?_
      obtain rfl := LayoutKey.ofAtom?_eq_some_iff.mp isKey
      obtain ⟨inner, isSection, isInside⟩ := exists_section isEntry
      exact missing inner raw isSection isInside
    · refine setsDrawing.others key fun atom raw isEntry isKey => ?_
      obtain rfl := DrawingKey.ofAtom?_eq_some_iff.mp isKey
      obtain ⟨inner, isSection, isInside⟩ := exists_section isEntry
      exact missing inner raw isSection isInside

end Settings

end Schematic
