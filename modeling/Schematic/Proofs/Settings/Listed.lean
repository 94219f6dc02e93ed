import Schematic.Proofs.Reading.Caret
import Schematic.Proofs.Settings.Comparable
import Schematic.Proofs.Settings.Supplied
import Schematic.Settings.Read

/-!
# What is told about offending keys

Raw settings are used as a whole or not at all.  Without an offending key they give
settings with all values that are supplied.  With offending keys they give a problem, and
its message and its report have one line for each of these keys, if every two of them can
be compared.
-/

namespace Schematic

/-! ## Lines that are joined -/

namespace Text

/-- A text in which no line ends. -/
def IsInLine (text : String) : Prop :=
  ∀ char ∈ text.toList, isLineEnd char = false

theorem isInLine_of_all {text : String}
    (all : (text.toList.all fun char => !isLineEnd char) = true) : IsInLine text := by
  simpa [IsInLine] using all

theorem isInLine_append {first second : String} :
    IsInLine (first ++ second) ↔ IsInLine first ∧ IsInLine second := by
  simp only [IsInLine, String.toList_append, List.forall_mem_append]

theorem isInLine_intercalate {separator : String} (clean : IsInLine separator)
    {parts : List String} (inner : ∀ part ∈ parts, IsInLine part) :
    IsInLine (separator.intercalate parts) := by
  induction parts with
  | nil => simp [IsInLine]
  | cons first rest ih =>
      obtain ⟨firstClean, restClean⟩ := List.forall_mem_cons.mp inner
      by_cases last : rest = []
      · subst last
        rwa [String.intercalate_singleton]
      · rw [String.intercalate_cons_of_ne_nil last, isInLine_append, isInLine_append]
        exact ⟨⟨firstClean, clean⟩, ih restClean⟩

/-- The lines of joined rows are those of each row. -/
theorem lines_joinLines_append (rows : List String) {behind : List String}
    (nonempty : behind ≠ []) :
    lines (joinLines (rows ++ behind)) =
      rows.flatMap (fun row => lines (row ++ "\n")) ++ lines (joinLines behind) := by
  induction rows with
  | nil => rfl
  | cons row rows ih =>
      have more : rows ++ behind ≠ [] := by simp [nonempty]
      rw [List.cons_append, joinLines, String.intercalate_cons_of_ne_nil more, lines_lineFeed,
        List.flatMap_cons, List.append_assoc, ← ih, joinLines]

theorem flatMap_lines {rows : List String} (clean : ∀ row ∈ rows, IsInLine row) :
    rows.flatMap (fun row => lines (row ++ "\n")) = rows := by
  induction rows with
  | nil => rfl
  | cons row rows ih =>
      obtain ⟨rowClean, restClean⟩ := List.forall_mem_cons.mp clean
      rw [List.flatMap_cons, lines_clean_lineFeed rowClean, ih restClean, List.singleton_append]

/-- Rows without line ends are the lines of the rows joined. -/
theorem lines_joinLines {rows : List String} (clean : ∀ row ∈ rows, IsInLine row)
    (filled : ∀ row ∈ rows, row ≠ "") : lines (joinLines rows) = rows := by
  induction rows using List.reverseRecOn with
  | nil => rfl
  | append_singleton rows last _ =>
      have isLast : last ∈ rows ++ [last] := by simp
      have front : ∀ row ∈ rows, IsInLine row := fun row isRow => clean row (by simp [isRow])
      rw [lines_joinLines_append rows (List.cons_ne_nil last []), flatMap_lines front, joinLines,
        String.intercalate_singleton, lines_clean (clean last isLast) (filled last isLast)]

/-- A heading brings an empty line of its own. -/
theorem lines_heading {heading : String} (clean : IsInLine heading) :
    lines ("\n" ++ heading ++ "\n") = ["", heading] := by
  have empty : IsInLine "" := isInLine_of_all rfl
  have parted := lines_lineFeed "" (heading ++ "\n")
  rw [String.empty_append, ← String.append_assoc] at parted
  rw [parted, lines_clean_lineFeed clean, ← String.empty_append (s := "\n"),
    lines_clean_lineFeed empty]
  rfl

end Text

namespace Settings

open Text (IsInLine isInLine_append isInLine_of_all)

/-! ## Entries -/

/-- A text in which no line ends, a whole number in the range of double precision, or
anything else. -/
def Raw.IsPlain : Raw → Prop
  | .text content => IsInLine content.shown
  | .whole count => count.natAbs ≤ Number.largestFinite
  | _ => True

theorem isPlain_whole {count : Int} (short : count.natAbs ≤ 2 ^ 53) : (Raw.whole count).IsPlain :=
  short.trans (by decide +kernel : 2 ^ 53 ≤ Number.largestFinite)

/-- Entries with different keys in which no line ends, and with plain values. -/
structure RawEntries.IsPlain (entries : RawEntries) : Prop where
  distinct : entries.Distinct
  keys : ∀ entry ∈ entries, IsInLine entry.1.name.shown
  values : ∀ entry ∈ entries, entry.2.IsPlain

theorem RawEntries.IsPlain.isInLine_name {entries : RawEntries} (plain : entries.IsPlain)
    {key : Yaml.Atom} {raw : Raw} (isEntry : (key, raw) ∈ entries) : IsInLine key.name.shown :=
  plain.keys (key, raw) isEntry

/-- Raw settings with plain entries at the levels at which settings can be. -/
structure RawEntries.ArePlain (entries : RawEntries) : Prop where
  whole : entries.IsPlain
  inner : ∀ key inner, (key, .mapping inner) ∈ entries → RawEntries.IsPlain inner

/-! ## The lines for offending keys -/

namespace Offender

/-- What is told about an offending key. -/
def line (offender : Offender) : String :=
  offender.offendingKey.text

end Offender

theorem Rule.isInLine_typeName (rule : Rule) : IsInLine rule.typeName := by
  cases rule with
  | number => exact (isInLine_of_all rfl : IsInLine "number")
  | flag => exact (isInLine_of_all rfl : IsInLine "boolean")
  | filledText | oneOf => exact (isInLine_of_all rfl : IsInLine "string")

theorem Rule.Breaks.isInLine_message {rule : Rule} (known : rule.HasKnownBound) {raw : Raw}
    (texts : ∀ text, raw = .text text → IsInLine text.shown) {offence : Offence}
    (breaks : rule.Breaks raw offence) : IsInLine offence.message := by
  cases breaks with
  | null => exact isInLine_of_all rfl
  | otherType =>
      have expected := isInLine_append.mpr
        ⟨(isInLine_of_all rfl : IsInLine "must be of "), rule.isInLine_typeName⟩
      exact isInLine_append.mpr ⟨expected, isInLine_of_all rfl⟩
  | wholeBelow | numberBelow =>
      -- The decimals of the bounds that there are need no general statement.
      rcases known _ rfl with rfl | rfl | rfl <;> exact isInLine_of_all rfl
  | emptyText => exact isInLine_of_all rfl
  | notAllowed => exact isInLine_append.mpr ⟨isInLine_of_all rfl, texts _ rfl⟩

section

variable {entries : RawEntries} (plain : entries.ArePlain) {keys : List Yaml.Atom}
  {offence : Offence} (offends : Offends entries keys offence)

include plain offends

theorem isInLine_of_mem_keys {key : Yaml.Atom} (isKey : key ∈ keys) : IsInLine key.name.shown := by
  cases offends with
  | unknownKey isEntry | nullSection isEntry | noMapping isEntry =>
      rw [List.mem_singleton.mp isKey]
      exact plain.whole.isInLine_name isEntry
  | inside isEntry isInside =>
      rcases List.mem_pair.mp isKey with rfl | rfl
      · exact plain.whole.isInLine_name isEntry
      · exact (plain.inner _ _ isEntry).isInLine_name isInside

theorem isInLine_message : IsInLine offence.message := by
  cases offends with
  | unknownKey | nullSection | noMapping => exact isInLine_of_all rfl
  | inside isEntry isInside refuses =>
      cases refuses with
      | unknownKey => exact isInLine_of_all rfl
      | broken _ breaks =>
          refine breaks.isInLine_message (SettingKey.hasKnownBound _) ?_
          rintro text rfl
          exact (plain.inner _ _ isEntry).values _ isInside

/-- No line ends in what is told about an offending key. -/
theorem isInLine_line : IsInLine (Offender.mk keys offence).line := by
  have path : IsInLine (".".intercalate (keys.map fun key => key.name.shown)) := by
    refine Text.isInLine_intercalate (isInLine_of_all rfl) (List.forall_mem_map.mpr ?_)
    exact fun key isKey => isInLine_of_mem_keys plain offends isKey
  have quoted := isInLine_append.mpr ⟨(isInLine_of_all rfl : IsInLine "Field '"), path⟩
  have named := isInLine_append.mpr ⟨quoted, (isInLine_of_all rfl : IsInLine "': ")⟩
  exact isInLine_append.mpr ⟨named, isInLine_message plain offends⟩

end

/-! ## The message and the report -/

/-- The problem with offending keys. -/
def problemOf (listed : List Offender) (file : Option String) : Problem :=
  ⟨.offending (listed.map Offender.offendingKey), file⟩

/-- What is wrong if there are offending keys. -/
def schemaSentence : String :=
  "The configuration does not conform to the required schema."

/-- The lines of the message in front of the offending keys. -/
def messageHead (file : Option String) : List String :=
  Text.lines ("Configuration error" ++ (Problem.mk (.offending []) file).place ++ ": " ++
    schemaSentence ++ "\n")

/-- The lines of the details in front of the offending keys. -/
def detailsHead : List String :=
  [schemaSentence, "See details for the issue(s) below:", ""]

theorem isInLine_of_mem_map {rows : List String} (clean : ∀ row ∈ rows, IsInLine row) :
    ∀ row ∈ rows.map ("  " ++ ·), IsInLine row :=
  List.forall_mem_map.mpr fun row isRow =>
    isInLine_append.mpr ⟨isInLine_of_all rfl, clean row isRow⟩

theorem isInLine_of_mem_detailsHead : ∀ row ∈ detailsHead, IsInLine row := by
  simp only [detailsHead, List.forall_mem_cons]
  exact ⟨isInLine_of_all rfl, isInLine_of_all rfl, isInLine_of_all rfl, nofun⟩

/-- The lines of the report in front of the offending keys. -/
def reportHead (file : Option String) : List String :=
  ["", "================ circmark: Diagnostic Report ================",
      "Error Type:     Configuration Error"] ++
    (Diagnostic.labelled "Source File:    " (Diagnostic.filled? file)).flatMap
      (fun row => Text.lines (row ++ "\n")) ++
    ["", "Details:"] ++ detailsHead.map ("  " ++ ·)

/-- What to do about offending keys. -/
def adviceRow : String :=
  "  Correct the listed keys. Only the 'layout' and 'svg' sections with their documented " ++
    "keys are allowed."

/-- The lines of the report behind the offending keys. -/
def reportFoot : List String :=
  ["", "Suggestion:", adviceRow, "============================================================="]

/-- The rows of the report behind the offending keys. -/
def footRows : List String :=
  Diagnostic.suggestionLines (problemOf [] none).diagnostic.suggestion ++
    ["============================================================="]

theorem footRows_eq :
    footRows = ["\n" ++ "Suggestion:"] ++ [adviceRow] ++
      ["============================================================="] := by
  have advice : Text.indentedLines (problemOf [] none).diagnostic.suggestion = [adviceRow] := by
    rw [Text.indentedLines, Text.lines_clean (isInLine_of_all rfl) (by decide)]
    rfl
  rw [footRows, Diagnostic.suggestionLines, advice]
  rfl

theorem lines_footRows : Text.lines (Text.joinLines footRows) = reportFoot := by
  have advice : IsInLine adviceRow := isInLine_of_all rfl
  rw [footRows_eq, Text.lines_joinLines_append _ (List.cons_ne_nil _ _), List.flatMap_append,
    List.flatMap_singleton, List.flatMap_singleton, Text.lines_heading (isInLine_of_all rfl),
    Text.lines_clean_lineFeed advice, Text.joinLines, String.intercalate_singleton,
    Text.lines_clean (isInLine_of_all rfl) (by decide)]
  rfl

/-- The lines for offending keys. -/
def keyRows (listed : List Offender) : List String :=
  listed.map fun offender => "  - " ++ offender.line

/-- The message and the report on a problem have one line for each offending key. -/
structure Tells (file : Option String) (listed : List Offender) (problem : Problem) : Prop where
  message : Text.lines problem.message = messageHead file ++ keyRows listed
  report : Text.lines problem.diagnostic.report =
    reportHead file ++ (keyRows listed).map ("  " ++ ·) ++ reportFoot

section

variable {listed : List Offender}

theorem keyLines_problemOf (file : Option String) :
    (problemOf listed file).keyLines = keyRows listed :=
  List.map_map

theorem ne_empty_of_mem_keyRows : ∀ row ∈ keyRows listed, row ≠ "" :=
  List.forall_mem_map.mpr fun offender _ => by simp

variable (clean : ∀ offender ∈ listed, IsInLine offender.line)

include clean in
theorem isInLine_of_mem_keyRows : ∀ row ∈ keyRows listed, IsInLine row :=
  List.forall_mem_map.mpr fun offender isListed =>
    isInLine_append.mpr ⟨isInLine_of_all rfl, clean offender isListed⟩

variable (nonempty : listed ≠ [])

include clean nonempty

/-- The lines for offending keys are the last lines of a text. -/
theorem lines_keyRows (rows : List String) :
    Text.lines (Text.joinLines (rows ++ keyRows listed)) =
      rows.flatMap (fun row => Text.lines (row ++ "\n")) ++ keyRows listed := by
  have filled : keyRows listed ≠ [] := by simpa [keyRows] using nonempty
  rw [Text.lines_joinLines_append _ filled,
    Text.lines_joinLines (isInLine_of_mem_keyRows clean) ne_empty_of_mem_keyRows]

theorem lines_message (file : Option String) :
    Text.lines (problemOf listed file).message = messageHead file ++ keyRows listed := by
  rw [Problem.message, keyLines_problemOf, ← List.singleton_append, lines_keyRows clean nonempty,
    List.flatMap_singleton]
  rfl

theorem lines_details (file : Option String) :
    Text.lines (problemOf listed file).details = detailsHead ++ keyRows listed := by
  have filled : keyRows listed ≠ [] := by simpa [keyRows] using nonempty
  have joined : (problemOf listed file).details =
      Text.joinLines (detailsHead ++ keyRows listed) := by
    rw [Problem.details, keyLines_problemOf, List.isEmpty_eq_false_iff.mpr filled, Text.joinLines,
      Text.joinLines, String.intercalate_append_of_ne_nil (by simp [detailsHead]) filled]
    rfl
  rw [joined, lines_keyRows clean nonempty, Text.flatMap_lines isInLine_of_mem_detailsHead]

theorem rows_problemOf (file : Option String) :
    (problemOf listed file).diagnostic.rows =
      ["", "================ circmark: Diagnostic Report ================",
          "Error Type:     Configuration Error"] ++
        Diagnostic.labelled "Source File:    " (Diagnostic.filled? file) ++
        ["\n" ++ "Details:"] ++ detailsHead.map ("  " ++ ·) ++ (keyRows listed).map ("  " ++ ·) ++
        footRows := by
  have details : Text.indentedLines (problemOf listed file).diagnostic.details =
      detailsHead.map ("  " ++ ·) ++ (keyRows listed).map ("  " ++ ·) := by
    rw [← List.map_append, ← lines_details clean nonempty file]
    rfl
  rw [Diagnostic.rows, details]
  simp [problemOf, Problem.diagnostic, Diagnostic.labelled, Diagnostic.filled?,
    Diagnostic.excerptLines, footRows]

theorem lines_report (file : Option String) :
    Text.lines (problemOf listed file).diagnostic.report =
      reportHead file ++ (keyRows listed).map ("  " ++ ·) ++ reportFoot := by
  have opening : ∀ row ∈ ["", "================ circmark: Diagnostic Report ================",
      "Error Type:     Configuration Error"], IsInLine row := by
    simp only [List.forall_mem_cons]
    exact ⟨isInLine_of_all rfl, isInLine_of_all rfl, isInLine_of_all rfl, nofun⟩
  rw [Diagnostic.report, rows_problemOf clean nonempty,
    Text.lines_joinLines_append _ (by simp [footRows]), lines_footRows]
  simp only [List.flatMap_append, Text.flatMap_lines opening,
    Text.flatMap_lines (isInLine_of_mem_map isInLine_of_mem_detailsHead),
    Text.flatMap_lines (isInLine_of_mem_map (isInLine_of_mem_keyRows clean)),
    List.flatMap_singleton, Text.lines_heading (isInLine_of_all rfl : IsInLine "Details:"),
    reportHead, List.append_assoc]

theorem tells_problemOf (file : Option String) : Tells file listed (problemOf listed file) :=
  ⟨lines_message clean nonempty file, lines_report clean nonempty file⟩

end

/-! ## All or nothing -/

/-- A list of all offending keys, without one twice, that is in the order of the names of
the keys at each level. -/
structure IsListing (entries : RawEntries) (listed : List Offender) : Prop where
  mem_iff : ∀ offender, offender ∈ listed ↔ Offends entries offender.keys offender.offence
  once : listed.Pairwise fun first second => first.keys ≠ second.keys
  inOrder : listed.Pairwise fun first second => InOrder first.keys second.keys

section

variable {entries : RawEntries}

theorem isListing_offenders (plain : entries.ArePlain) : IsListing entries (offenders entries) := by
  have sorted := pairwise_offenders plain.whole.distinct fun key inner isEntry =>
    (plain.inner key inner isEntry).distinct
  exact ⟨fun _ => mem_offenders, sorted.imp And.left, sorted.imp And.right⟩

theorem offenders_eq_nil_iff :
    offenders entries = [] ↔ ¬∃ keys offence, Offends entries keys offence := by
  rw [List.eq_nil_iff_forall_not_mem]
  exact ⟨fun none ⟨keys, offence, offends⟩ => none ⟨keys, offence⟩ (mem_offenders.mpr offends),
    fun none offender isFound => none ⟨_, _, mem_offenders.mp isFound⟩⟩

/-- Raw settings without an offending key are used as a whole: settings have the values
that are supplied, and are standard otherwise.  With offending keys there are no settings
but a problem that is told with each of these keys; only if two of the keys cannot be
compared, nothing is told. -/
theorem settings_or_all_offences (file : Option String) (plain : entries.ArePlain) :
    ((∃ keys offence, Offends entries keys offence) →
      (∃ problem listed, ofEntries file entries = .error (.problem problem) ∧
        IsListing entries listed ∧ Tells file listed problem) ∨
      (ofEntries file entries = .error .noOrder ∧ ¬OffencesComparable entries)) ∧
    ((¬∃ keys offence, Offends entries keys offence) →
      ∃ settings, ofEntries file entries = .ok settings ∧ HasValues entries settings) := by
  constructor
  · intro offending
    have nonempty : offenders entries ≠ [] := fun none => offenders_eq_nil_iff.mp none offending
    have clean : ∀ offender ∈ offenders entries, IsInLine offender.line := fun offender isFound =>
      isInLine_line plain (mem_offenders.mp isFound)
    cases order : offencesHaveOrder entries with
    | true =>
        refine .inl ⟨_, _, ?_, isListing_offenders plain, tells_problemOf clean nonempty file⟩
        simp [ofEntries, nonempty, order, problemOf, offences_eq]
    | false =>
        refine .inr ⟨by simp [ofEntries, nonempty, order, offences_eq], fun comparable => ?_⟩
        have hasOrder := offencesHaveOrder_of_comparable plain.whole.distinct
          (fun key inner isEntry => (plain.inner key inner isEntry).distinct) comparable
        simp [order] at hasOrder
  · intro right
    obtain ⟨settings, assigned, values⟩ := exists_assign plain.whole.distinct
      (fun key inner isEntry => (plain.inner key inner isEntry).distinct)
      (fun key inner inside count isEntry =>
        (plain.inner key inner isEntry).values (inside, .whole count)) right
    refine ⟨settings, ?_, values⟩
    simp [ofEntries, offences_eq, offenders_eq_nil_iff.mpr right, assigned]

end

/-- A number that is too small, and a key that there is not. -/
def misspelt : RawEntries :=
  [(.text "svg", .mapping [(.text "margin", .whole (-1)), (.text "bogus", .text "red")])]

theorem settings_or_all_offences_misspelt :
    misspelt.ArePlain ∧ ∃ problem listed, ofEntries none misspelt = .error (.problem problem) ∧
      IsListing misspelt listed ∧ Tells none listed problem := by
  have inner {key : Yaml.Atom} {inner : RawEntries} (isEntry : (key, .mapping inner) ∈ misspelt) :
      inner = [(.text "margin", .whole (-1)), (.text "bogus", .text "red")] := by
    simpa [misspelt] using congrArg Prod.snd (List.mem_singleton.mp isEntry)
  have plain : misspelt.ArePlain := by
    refine ⟨⟨List.nodup_singleton _, ?_, ?_⟩, fun key values isEntry => ?_⟩
    · exact List.forall_mem_singleton.mpr (isInLine_of_all rfl)
    · exact List.forall_mem_singleton.mpr trivial
    · rw [inner isEntry]
      refine ⟨by simp [RawEntries.Distinct], ?_, ?_⟩
      · exact List.forall_mem_cons.mpr ⟨isInLine_of_all rfl,
          List.forall_mem_singleton.mpr (isInLine_of_all rfl)⟩
      · exact List.forall_mem_cons.mpr ⟨isPlain_whole (by decide),
          List.forall_mem_singleton.mpr (isInLine_of_all rfl)⟩
  have comparable : OffencesComparable misspelt := by
    refine offencesComparable_of_texts (by simp [misspelt, RawEntries.HasTextKeys]) ?_
    intro key values isEntry
    rw [inner isEntry]
    simp [RawEntries.HasTextKeys]
  have refuses : Section.drawing.Refuses (.text (SettingKey.drawing .margin).name) (.whole (-1))
      (.tooSmall 0) := .broken rfl (.wholeBelow (by decide))
  have offends : Offends misspelt [.text Section.drawing.name, .text "margin"] (.tooSmall 0) :=
    .inside List.mem_cons_self List.mem_cons_self refuses
  obtain told | ⟨-, apart⟩ := (settings_or_all_offences none plain).1 ⟨_, _, offends⟩
  · exact ⟨plain, told⟩
  · exact absurd comparable apart

/-- Keys that cannot be compared. -/
def unordered : RawEntries :=
  [(.whole 3, .whole 1), (.null, .whole 2)]

/-- Offending keys that cannot be compared are not told. -/
theorem unordered_not_told :
    unordered.ArePlain ∧ Offends unordered [.whole 3] .unknownKey ∧
      Offends unordered [.null] .unknownKey ∧
      ofEntries (some "c.yaml") unordered = .error .noOrder := by
  have plain : unordered.ArePlain := by
    refine ⟨⟨by simp [unordered, RawEntries.Distinct], ?_, ?_⟩, fun key inner isEntry => ?_⟩
    · exact List.forall_mem_cons.mpr ⟨isInLine_of_all rfl,
        List.forall_mem_singleton.mpr (isInLine_of_all rfl)⟩
    · exact List.forall_mem_cons.mpr ⟨isPlain_whole (by decide),
        List.forall_mem_singleton.mpr (isPlain_whole (by decide))⟩
    · simp [unordered] at isEntry
  have number : Offends unordered [.whole 3] .unknownKey := .unknownKey List.mem_cons_self nofun
  have nothing : Offends unordered [.null] .unknownKey :=
    .unknownKey (List.mem_cons_of_mem _ List.mem_cons_self) nofun
  have nonempty : offenders unordered ≠ [] := fun none =>
    offenders_eq_nil_iff.mp none ⟨_, _, number⟩
  have order : offencesHaveOrder unordered = false := rfl
  exact ⟨plain, number, nothing, by simp [ofEntries, offences_eq, nonempty, order]⟩

end Settings

end Schematic
