import Schematic.Proofs.Settings.Offences

/-!
# The tree of complaints and its list

The complaints about raw settings are collected in a tree of keys before any of them is
told, and the tree is put in a list afterwards.  This file proves that the list is the one
that a single pass over the settings makes.
-/

namespace Schematic

namespace Settings

/-! ## Sorting by names -/

/-- Two ways to part a list are the same if a test tells the parts from each other. -/
theorem append_cancel_of_test {α : Type} (test : α → Bool) {front behind front' behind' : List α}
    (same : front ++ behind = front' ++ behind') (passes : ∀ item ∈ front, test item = true)
    (fails : ∀ item ∈ behind, test item = false) (passes' : ∀ item ∈ front', test item = true)
    (fails' : ∀ item ∈ behind', test item = false) : front = front' ∧ behind = behind' := by
  have kept := congrArg (List.filter test) same
  rw [List.filter_append, List.filter_append, List.filter_eq_self.mpr passes,
    List.filter_eq_self.mpr passes', List.filter_eq_nil_iff.mpr (by simpa using fails),
    List.filter_eq_nil_iff.mpr (by simpa using fails'), List.append_nil, List.append_nil] at kept
  subst kept
  exact ⟨rfl, List.append_cancel_left same⟩

/-- Whether an entry may stand in front of another. -/
def nameLE {α β : Type} (first : Yaml.Atom × α) (second : Yaml.Atom × β) : Bool :=
  decide (first.1.name ≤ second.1.name)

section

variable {α β : Type}

theorem nameLE_trans (first second third : Yaml.Atom × α) (before : nameLE first second = true)
    (after : nameLE second third = true) : nameLE first third = true :=
  decide_eq_true (Text.Coded.le_trans (of_decide_eq_true before) (of_decide_eq_true after))

theorem nameLE_total (first second : Yaml.Atom × α) :
    (nameLE first second || nameLE second first) = true := by
  simpa [nameLE] using Text.Coded.le_total first.1.name second.1.name

theorem byName_nil : byName ([] : List (Yaml.Atom × α)) = [] :=
  List.mergeSort_nil

/-- An entry goes in front of those with larger names, and of those with its own. -/
theorem byName_cons (entry : Yaml.Atom × α) (entries : List (Yaml.Atom × α)) :
    ∃ front behind, byName (entry :: entries) = front ++ entry :: behind ∧
      byName entries = front ++ behind ∧ (∀ other ∈ front, nameLE entry other = false) ∧
      ∀ other ∈ behind, nameLE entry other = true := by
  obtain ⟨front, behind, inserted, rest, before⟩ :=
    List.mergeSort_cons nameLE_trans nameLE_total entry entries
  have sorted := List.pairwise_mergeSort nameLE_trans nameLE_total (entry :: entries)
  rw [inserted] at sorted
  refine ⟨front, behind, inserted, rest, fun other isFront => by simpa using before other isFront,
    fun other isBehind => ?_⟩
  exact (List.pairwise_cons.mp (List.pairwise_append.mp sorted).2.1).1 other isBehind

/-- Entries that are changed or dropped by themselves are so before or behind sorting. -/
theorem byName_filterMap {change : Yaml.Atom × α → Option (Yaml.Atom × β)}
    (keeps : ∀ entry, ∀ image ∈ change entry, image.1 = entry.1)
    (entries : List (Yaml.Atom × α)) :
    byName (entries.filterMap change) = (byName entries).filterMap change := by
  induction entries with
  | nil => rw [List.filterMap_nil, byName_nil, byName_nil, List.filterMap_nil]
  | cons entry entries ih =>
      obtain ⟨front, behind, inserted, rest, before, after⟩ := byName_cons entry entries
      rw [rest, List.filterMap_append] at ih
      rw [inserted, List.filterMap_append, List.filterMap_cons, List.filterMap_cons]
      cases changed : change entry with
      | none => exact ih
      | some image =>
          obtain ⟨front', behind', inserted', rest', before', after'⟩ :=
            byName_cons image (entries.filterMap change)
          have sameName {other : Yaml.Atom × α} {otherImage : Yaml.Atom × β}
              (isImage : change other = some otherImage) :
              nameLE image otherImage = nameLE entry other := by
            rw [nameLE, nameLE, keeps entry image changed, keeps other otherImage isImage]
          obtain ⟨rfl, rfl⟩ : front' = front.filterMap change ∧
              behind' = behind.filterMap change := by
            refine append_cancel_of_test (fun other => !nameLE image other)
              (rest'.symm.trans ih) ?_ ?_ ?_ ?_
            · exact fun other isFront => by rw [before' other isFront, Bool.not_false]
            · exact fun other isBehind => by rw [after' other isBehind, Bool.not_true]
            · intro otherImage isFront
              obtain ⟨other, isFront, isImage⟩ := List.mem_filterMap.mp isFront
              rw [sameName isImage, before other isFront, Bool.not_false]
            · intro otherImage isBehind
              obtain ⟨other, isBehind, isImage⟩ := List.mem_filterMap.mp isBehind
              rw [sameName isImage, after other isBehind, Bool.not_true]
          exact inserted'

theorem byName_map (change : Yaml.Atom → α → β) (entries : List (Yaml.Atom × α)) :
    byName (entries.map fun entry => (entry.1, change entry.1 entry.2)) =
      (byName entries).map fun entry => (entry.1, change entry.1 entry.2) := by
  have keeps (entry : Yaml.Atom × α) (image : Yaml.Atom × β)
      (isImage : image ∈ some (entry.1, change entry.1 entry.2)) : image.1 = entry.1 := by
    rw [← Option.some.inj isImage]
  have whole := byName_filterMap keeps entries
  rwa [List.filterMap_eq_map'] at whole

end

/-! ## Listing a tree -/

theorem listedUnder_eq (start : String) (errors : ErrorTree) :
    listedUnder start errors =
      errors.map fun entry => (entry.1, listedAll (start ++ entry.1.name.shown) entry.2) := by
  induction errors with
  | nil => rw [listedUnder, List.map_nil]
  | cons entry rest ih => rw [listedUnder, ih, List.map_cons]

/-- The offending keys of the complaints about some entries are those of the entries in
the order of their names. -/
theorem flatMap_listedUnder {α : Type} (complaints : Yaml.Atom × α → List Complaint)
    (start : String) (entries : List (Yaml.Atom × α)) (errors : ErrorTree)
    (collected : errors = entries.filterMap fun entry =>
      if (complaints entry).isEmpty then none else some (entry.1, complaints entry)) :
    (byName (listedUnder start errors)).flatMap Prod.snd =
      (byName entries).flatMap fun entry =>
        listedAll (start ++ entry.1.name.shown) (complaints entry) := by
  have keeps (entry : Yaml.Atom × α) (image : Yaml.Atom × List Complaint)
      (isImage : image ∈ if (complaints entry).isEmpty then none
        else some (entry.1, complaints entry)) : image.1 = entry.1 := by
    split at isImage <;> cases isImage
    rfl
  have listed := byName_map (fun key => listedAll (start ++ key.name.shown)) errors
  rw [listedUnder_eq, listed, collected, byName_filterMap keeps]
  induction byName entries with
  | nil => rfl
  | cons entry rest ih =>
      rw [List.filterMap_cons, List.flatMap_cons, ← ih]
      by_cases none : (complaints entry).isEmpty = true
      · rw [List.isEmpty_iff.mp none]
        simp [listedAll]
      · rw [if_neg none]
        rfl

/-- The complaints about a section are listed in the order of the names of its keys. -/
theorem flatMap_sectionErrors (section_ : Section) (start : String) (inner : RawEntries) :
    (byName (listedUnder start (sectionErrors section_ inner))).flatMap Prod.snd =
      (byName inner).filterMap fun entry =>
        (section_.keyOffence? entry.1 entry.2).map
          (OffendingKey.mk (start ++ entry.1.name.shown)) := by
  rw [flatMap_listedUnder
    (fun entry => (section_.keyOffence? entry.1 entry.2).toList.map Complaint.offence) start inner _ ?_]
  · induction byName inner with
    | nil => rfl
    | cons entry rest ih =>
        rw [List.flatMap_cons, ih, List.filterMap_cons]
        cases section_.keyOffence? entry.1 entry.2 <;> simp [listedAll, Complaint.listed]
  · unfold sectionErrors
    congr 1
    funext entry
    dsimp only
    cases section_.keyOffence? entry.1 entry.2 <;> rfl

theorem listedAll_keyComplaints (key : Yaml.Atom) (raw : Raw) :
    listedAll key.name.shown (keyComplaints key raw) =
      (entryOffenders key raw).map Offender.offendingKey := by
  unfold keyComplaints entryOffenders
  cases Section.ofKey? key with
  | none => simp [listedAll, Complaint.listed, Offender.offendingKey]
  | some section_ =>
      cases raw with
      | mapping inner =>
          have errors : listedAll key.name.shown
              (if (sectionErrors section_ inner).isEmpty then []
                else [.inside (sectionErrors section_ inner)]) =
              (byName (listedUnder (key.name.shown ++ ".") (sectionErrors section_ inner))).flatMap
                Prod.snd := by
            cases none : (sectionErrors section_ inner).isEmpty
            · simp [listedAll, Complaint.listed]
            · rw [List.isEmpty_iff.mp none, listedUnder, byName_nil]
              rfl
          dsimp only
          rw [errors, flatMap_sectionErrors, List.map_filterMap]
          congr 1
          funext entry
          rw [Option.map_map]
          congr 1
      | _ => simp [listedAll, Complaint.listed, Offender.offendingKey]

/-- There are complaints about those keys under which keys offend. -/
theorem keyComplaints_eq_nil_iff {key : Yaml.Atom} {raw : Raw} :
    keyComplaints key raw = [] ↔ entryOffenders key raw = [] := by
  unfold keyComplaints entryOffenders
  cases Section.ofKey? key with
  | none => simp
  | some section_ =>
      cases raw with
      | mapping inner =>
          have noErrors : sectionErrors section_ inner = [] ↔
              ∀ entry ∈ inner, section_.keyOffence? entry.1 entry.2 = none := by
            simp [sectionErrors, List.filterMap_eq_nil_iff]
          have nothing (errors : ErrorTree) :
              (if errors.isEmpty then [] else [Complaint.inside errors]) = [] ↔ errors = [] := by
            cases errors <;> simp
          dsimp only
          rw [nothing, noErrors, List.filterMap_eq_nil_iff]
          simp [mem_byName]
      | _ => simp

/-- The list of a tree of complaints has the offending keys that one pass finds. -/
theorem offences_eq (entries : RawEntries) :
    offences entries = (offenders entries).map Offender.offendingKey := by
  have listed := flatMap_listedUnder (fun entry => keyComplaints entry.1 entry.2) "" entries
    (errorTree entries) rfl
  rw [offences, ErrorTree.listed, listed, offenders, List.map_flatMap]
  simp only [String.empty_append, listedAll_keyComplaints]

end Settings

end Schematic
