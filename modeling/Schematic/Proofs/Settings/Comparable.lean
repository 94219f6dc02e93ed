import Schematic.Proofs.Settings.ErrorTree
import Schematic.Settings.Order

/-!
# Offending keys that can be compared

The report on offending keys needs an order of them, and some keys cannot be compared
with each other.  This file proves that an order is found whenever every two offending
keys can be compared at the level where they differ, however the keys are sorted.  Texts
and whole numbers can always be compared.
-/

namespace Schematic

namespace Settings

/-! ## Sorting -/

section Sorting

variable {α : Type} (before? : α → α → Option Bool)

/-- Two items can be compared, whichever comes first. -/
def Comparable (first second : α) : Prop :=
  (before? first second).isSome ∧ (before? second first).isSome

variable {before?}

theorem Comparable.symm {first second : α} (comparable : Comparable before? first second) :
    Comparable before? second first :=
  ⟨comparable.2, comparable.1⟩

theorem pairwise_comparable_of_perm {items others : List α} (perm : items.Perm others)
    (comparable : items.Pairwise (Comparable before?)) : others.Pairwise (Comparable before?) :=
  perm.pairwise comparable Comparable.symm

/-- Items are taken in one after the other, if each step takes one in that can be
compared with those that are there. -/
theorem exists_foldlM {step : List α → α → Option (List α)}
    (steps : ∀ present item, (present ++ [item]).Pairwise (Comparable before?) →
      ∃ next, step present item = some next ∧ next.Perm (present ++ [item]))
    {start items : List α} (comparable : (start ++ items).Pairwise (Comparable before?)) :
    ∃ final, items.foldlM step start = some final ∧ final.Perm (start ++ items) := by
  induction items generalizing start with
  | nil => exact ⟨start, rfl, by simp⟩
  | cons item items ih =>
      rw [List.append_cons] at comparable ⊢
      obtain ⟨next, stepped, perm⟩ := steps start item (List.pairwise_append.mp comparable).1
      obtain ⟨final, run, permLater⟩ :=
        ih (pairwise_comparable_of_perm (perm.symm.append_right items) comparable)
      refine ⟨final, ?_, permLater.trans (perm.append_right items)⟩
      rw [List.foldlM_cons, stepped]
      exact run

theorem exists_runFrom? (falling : Bool) {last : α} {items : List α}
    (comparable : (last :: items).Pairwise (Comparable before?)) :
    ∃ run others, runFrom? before? falling last items = some (run, others) ∧
      run ++ others = items := by
  induction items generalizing last with
  | nil => exact ⟨[], [], rfl, rfl⟩
  | cons item rest ih =>
      obtain ⟨behindLast, later⟩ := List.pairwise_cons.mp comparable
      obtain ⟨order, compared⟩ :=
        Option.isSome_iff_exists.mp (behindLast item List.mem_cons_self).2
      rw [runFrom?, compared]
      by_cases goesOn : order = falling
      · obtain ⟨run, others, found, same⟩ := ih later
        exact ⟨item :: run, others, by simp [goesOn, found], by rw [List.cons_append, same]⟩
      · exact ⟨[], item :: rest, by simp [goesOn], rfl⟩

theorem exists_run? {items : List α} (comparable : items.Pairwise (Comparable before?)) :
    ∃ run others, run? before? items = some (run, others) ∧ (run ++ others).Perm items := by
  unfold run?
  split
  · next first second rest =>
    obtain ⟨behindFirst, later⟩ := List.pairwise_cons.mp comparable
    obtain ⟨falling, compared⟩ :=
      Option.isSome_iff_exists.mp (behindFirst second List.mem_cons_self).2
    obtain ⟨run, others, found, rfl⟩ := exists_runFrom? falling later
    refine ⟨if falling then (first :: second :: run).reverse else first :: second :: run, others,
      by simp [compared, found], ?_⟩
    cases falling
    · exact .refl _
    · exact (List.reverse_perm _).append_right others
  · exact ⟨items, [], rfl, by simp⟩

theorem exists_insert? (item : α) (sorted : List α)
    (comparable : ∀ other ∈ sorted, Comparable before? item other) :
    ∃ result, insert? before? item sorted = some result ∧ result.Perm (sorted ++ [item]) := by
  induction size : sorted.length using Nat.strongRecOn generalizing sorted with
  | ind size ih =>
      subst size
      have whole := List.take_append_drop (sorted.length / 2) sorted
      rw [insert?]
      split
      · next behind =>
        obtain rfl : sorted = [] := by
          have lengths := congrArg List.length behind
          rw [List.length_drop, List.length_nil] at lengths
          exact List.eq_nil_of_length_eq_zero (by omega)
        exact ⟨[item], rfl, .refl _⟩
      · next middle later behind =>
        rw [behind] at whole
        generalize halved : sorted.take (sorted.length / 2) = front at whole ⊢
        subst whole
        obtain ⟨ahead, compared⟩ := Option.isSome_iff_exists.mp (comparable middle (by simp)).1
        rw [compared]
        cases ahead with
        | true =>
            obtain ⟨result, inserted, perm⟩ := ih front.length (by simp) front
              (fun other isOther => comparable other (by simp [isOther])) rfl
            refine ⟨result ++ middle :: later, by simp [inserted], ?_⟩
            have behindAll : ([item] ++ middle :: later).Perm (middle :: later ++ [item]) :=
              List.perm_append_comm
            refine (perm.append_right _).trans ?_
            simpa using behindAll.append_left front
        | false =>
            obtain ⟨result, inserted, perm⟩ := ih later.length (by simp; omega) later
              (fun other isOther => comparable other (by simp [isOther])) rfl
            refine ⟨front ++ middle :: result, by simp [inserted], ?_⟩
            simpa using (perm.cons middle).append_left front

theorem exists_sort? {items : List α} (comparable : items.Pairwise (Comparable before?)) :
    ∃ sorted, sort? before? items = some sorted ∧ sorted.Perm items := by
  obtain ⟨run, others, found, perm⟩ := exists_run? comparable
  have steps (present : List α) (item : α)
      (comparable : (present ++ [item]).Pairwise (Comparable before?)) :=
    exists_insert? item present fun other isOther =>
      ((List.pairwise_append.mp comparable).2.2 other isOther item (List.mem_singleton_self _)).symm
  obtain ⟨final, folded, permFinal⟩ :=
    exists_foldlM steps (pairwise_comparable_of_perm perm.symm comparable)
  refine ⟨final, ?_, permFinal.trans perm⟩
  rw [sort?, found]
  exact folded

/-- A list that grows is sorted each time, if its items can be compared. -/
theorem exists_gather? (start : List α) {added : List α}
    (comparable : (start ++ added).Pairwise (Comparable before?)) :
    ∃ final, gather? before? start added = some final ∧ final.Perm (start ++ added) :=
  exists_foldlM (fun _ _ => exists_sort?) comparable

theorem isSome_gather? {added : List α} (comparable : added.Pairwise (Comparable before?)) :
    (gather? before? [] added).isSome := by
  obtain ⟨_, gathered, -⟩ := exists_gather? [] comparable
  rw [gathered, Option.isSome_some]

end Sorting

/-! ## Keys -/

/-- Two offending keys can be compared at the first level where they differ. -/
def LevelsComparable : List Yaml.Atom → List Yaml.Atom → Prop
  | first :: rest, second :: others =>
      (first = second → LevelsComparable rest others) ∧
        (first ≠ second → Comparable goesBefore? first second)
  | _, _ => True

/-- Every two offending keys can be compared. -/
def OffencesComparable (entries : RawEntries) : Prop :=
  ∀ keys offence others otherOffence, Offends entries keys offence →
    Offends entries others otherOffence → LevelsComparable keys others

/-- A key goes before all keys of other kinds: it is a text, or it counts as a whole
number. -/
def Leads (key : Yaml.Atom) : Prop :=
  (∃ text, key = .text text) ∨ ∃ count, key.quantity? = some (.inl count)

theorem isSome_goesBefore? {first second : Yaml.Atom} (firstLeads : Leads first)
    (secondLeads : Leads second) : (goesBefore? first second).isSome := by
  rcases firstLeads with ⟨text, rfl⟩ | ⟨count, isCount⟩
  · cases second <;> rfl
  · cases first <;> cases second <;> simp_all [goesBefore?, Yaml.Atom.quantity?]

theorem levelsComparable_of_leads {keys others : List Yaml.Atom}
    (leads : ∀ key ∈ keys, Leads key) (otherLeads : ∀ key ∈ others, Leads key) :
    LevelsComparable keys others := by
  induction keys generalizing others with
  | nil => cases others <;> trivial
  | cons first rest ih =>
      cases others with
      | nil => trivial
      | cons second others =>
          obtain ⟨firstLeads, restLead⟩ := List.forall_mem_cons.mp leads
          obtain ⟨secondLeads, othersLead⟩ := List.forall_mem_cons.mp otherLeads
          exact ⟨fun _ => ih restLead othersLead, fun _ =>
            ⟨isSome_goesBefore? firstLeads secondLeads, isSome_goesBefore? secondLeads firstLeads⟩⟩

/-- Keys that are texts or count as whole numbers can be compared. -/
theorem offencesComparable_of_leads {entries : RawEntries}
    (leads : ∀ keys offence, Offends entries keys offence → ∀ key ∈ keys, Leads key) :
    OffencesComparable entries :=
  fun _ _ _ _ offends otherOffends =>
    levelsComparable_of_leads (leads _ _ offends) (leads _ _ otherOffends)

/-- All keys of some entries are texts. -/
def RawEntries.HasTextKeys (entries : RawEntries) : Prop :=
  ∀ entry ∈ entries, ∃ text, entry.1 = .text text

theorem offencesComparable_of_texts {entries : RawEntries} (texts : entries.HasTextKeys)
    (innerTexts : ∀ key inner, (key, .mapping inner) ∈ entries → RawEntries.HasTextKeys inner) :
    OffencesComparable entries := by
  refine offencesComparable_of_leads fun keys offence offends key isKey => .inl ?_
  cases offends with
  | unknownKey isEntry | nullSection isEntry | noMapping isEntry =>
      rw [List.mem_singleton.mp isKey]
      exact texts _ isEntry
  | inside isEntry isInside =>
      rcases List.mem_pair.mp isKey with rfl | rfl
      · exact texts _ isEntry
      · exact innerTexts _ _ isEntry _ isInside

/-! ## Keys that are compared -/

section

variable {entries : RawEntries} (distinct : entries.Distinct)

include distinct

theorem pairwise_filter {select : Yaml.Atom × Raw → Bool}
    (comparable : ∀ first ∈ entries, ∀ second ∈ entries, first.1 ≠ second.1 →
      select first = true → select second = true → Comparable goesBefore? first.1 second.1) :
    (entries.filter select).Pairwise fun first second =>
      Comparable goesBefore? first.1 second.1 := by
  have apart : entries.Pairwise fun first second => first.1 ≠ second.1 :=
    List.pairwise_map.mp distinct
  refine (apart.sublist List.filter_sublist).imp_of_mem fun isFirst isSecond differ => ?_
  obtain ⟨isFirst, selected⟩ := List.mem_filter.mp isFirst
  obtain ⟨isSecond, otherSelected⟩ := List.mem_filter.mp isSecond
  exact comparable _ isFirst _ isSecond differ selected otherSelected

theorem pairwise_filterMap {select : Yaml.Atom × Raw → Option (Yaml.Atom × Offence)}
    (comparable : ∀ first ∈ entries, ∀ second ∈ entries, first.1 ≠ second.1 →
      ∀ one ∈ select first, ∀ other ∈ select second, Comparable goesBefore? one.1 other.1) :
    (entries.filterMap select).Pairwise fun one other => Comparable goesBefore? one.1 other.1 := by
  have apart : entries.Pairwise fun first second => first.1 ≠ second.1 :=
    List.pairwise_map.mp distinct
  exact List.pairwise_filterMap.mpr (apart.imp_of_mem fun isFirst isSecond differ =>
    comparable _ isFirst _ isSecond differ)

end

theorem comparable_goesBeforeInSection? {keys : List Yaml.Atom}
    (comparable : keys.Pairwise (Comparable goesBefore?)) :
    ([none] ++ keys.map some).Pairwise (Comparable goesBeforeInSection?) := by
  refine List.pairwise_cons.mpr ⟨?_, List.pairwise_map.mpr (comparable.imp id)⟩
  intro key isKey
  obtain ⟨inside, -, rfl⟩ := List.mem_map.mp isKey
  exact ⟨rfl, rfl⟩

section

variable {section_ : Section} {inner : RawEntries} (distinct : inner.Distinct)
  (comparable : ∀ first raw offence second otherRaw otherOffence, (first, raw) ∈ inner →
    (second, otherRaw) ∈ inner → section_.Refuses first raw offence →
    section_.Refuses second otherRaw otherOffence → first ≠ second →
    Comparable goesBefore? first second)

include distinct comparable

theorem pairwise_sectionKeys :
    (sectionKeys section_ inner).1.Pairwise (Comparable goesBefore?) ∧
      (sectionKeys section_ inner).2.Pairwise (Comparable goesBefore?) := by
  refine ⟨List.pairwise_map.mpr ((pairwise_filterMap distinct ?_).sublist List.filter_sublist),
    List.pairwise_map.mpr (pairwise_filterMap distinct ?_)⟩
  all_goals
    rintro ⟨first, raw⟩ isFirst ⟨second, otherRaw⟩ isSecond differ _ isOne _ isOther
    obtain ⟨_, refused, rfl⟩ := Option.map_eq_some_iff.mp isOne
    obtain ⟨_, otherRefused, rfl⟩ := Option.map_eq_some_iff.mp isOther
    exact comparable _ _ _ _ _ _ isFirst isSecond (Section.keyOffence?_eq_some_iff.mp refused)
      (Section.keyOffence?_eq_some_iff.mp otherRefused) differ

/-- The offending keys of a section can be put in an order if they can be compared. -/
theorem sectionHasOrder_of_comparable : sectionHasOrder section_ inner = true := by
  have pairs := pairwise_sectionKeys distinct comparable
  unfold sectionHasOrder
  generalize sectionKeys section_ inner = keys at pairs ⊢
  obtain ⟨unknown, offending⟩ := keys
  obtain ⟨sorted, gathered, perm⟩ := exists_gather? [] pairs.2
  obtain ⟨_, gatheredUnknown, -⟩ := exists_gather? [] pairs.1
  have named : (sorted.filter fun key => (section_.rule? key).isNone).Pairwise
      (Comparable goesBefore?) :=
    (pairwise_comparable_of_perm perm.symm pairs.2).sublist List.filter_sublist
  obtain ⟨_, gatheredNamed, -⟩ := exists_gather? [none] (comparable_goesBeforeInSection? named)
  simp only [gathered, gatheredUnknown, gatheredNamed, Option.bind_eq_bind, Option.bind_some,
    Option.isSome_some]

end

theorem exists_offends {entries : RawEntries} {key : Yaml.Atom} {raw : Raw}
    (isEntry : (key, raw) ∈ entries) (offending : keyComplaints key raw ≠ []) :
    ∃ rest offence, Offends entries (key :: rest) offence := by
  rw [Ne, keyComplaints_eq_nil_iff] at offending
  obtain ⟨offender, isFound⟩ := List.exists_mem_of_ne_nil _ offending
  obtain ⟨rest, keys⟩ := keys_of_mem_entryOffenders isFound
  exact ⟨rest, _, keys ▸ offends_of_mem_entryOffenders isEntry isFound⟩

theorem entryHasOrder_of_comparable {entries : RawEntries}
    (innerDistinct : ∀ key inner, (key, .mapping inner) ∈ entries → RawEntries.Distinct inner)
    (comparable : OffencesComparable entries) {key : Yaml.Atom} {raw : Raw}
    (isEntry : (key, raw) ∈ entries) : entryHasOrder key raw = true := by
  unfold entryHasOrder
  split
  · next section_ inner isSection =>
    obtain rfl := Section.ofKey?_eq_some_iff.mp isSection
    refine sectionHasOrder_of_comparable (innerDistinct _ _ isEntry) ?_
    intro first raw offence second otherRaw otherOffence isFirst isSecond refuses otherRefuses
    exact (comparable _ _ _ _ (.inside isEntry isFirst refuses)
      (.inside isEntry isSecond otherRefuses)).1 rfl |>.2
  · rfl

/-- Offending keys of which every two can be compared can be put in an order. -/
theorem offencesHaveOrder_of_comparable {entries : RawEntries} (distinct : entries.Distinct)
    (innerDistinct : ∀ key inner, (key, .mapping inner) ∈ entries → RawEntries.Distinct inner)
    (comparable : OffencesComparable entries) : offencesHaveOrder entries = true := by
  have compare : ∀ first ∈ entries, ∀ second ∈ entries, first.1 ≠ second.1 →
      (!(keyComplaints first.1 first.2).isEmpty) = true →
      (!(keyComplaints second.1 second.2).isEmpty) = true →
      Comparable goesBefore? first.1 second.1 := by
    rintro ⟨first, raw⟩ isFirst ⟨second, otherRaw⟩ isSecond differ offending otherOffending
    obtain ⟨rest, offence, offends⟩ := exists_offends isFirst (by simpa using offending)
    obtain ⟨others, otherOffence, otherOffends⟩ :=
      exists_offends isSecond (by simpa using otherOffending)
    exact (comparable _ _ _ _ offends otherOffends).2 differ
  unfold offencesHaveOrder
  refine Bool.and_eq_true_iff.mpr ⟨Bool.and_eq_true_iff.mpr ⟨List.all_eq_true.mpr ?_, ?_⟩, ?_⟩
  · rintro ⟨key, raw⟩ isEntry
    exact entryHasOrder_of_comparable innerDistinct comparable isEntry
  · exact isSome_gather? (List.pairwise_map.mpr (pairwise_filter distinct compare))
  · exact isSome_gather? (List.pairwise_map.mpr
      ((pairwise_filter distinct compare).sublist List.filter_sublist))

end Settings

end Schematic
