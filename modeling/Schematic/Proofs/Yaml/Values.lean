import Schematic.Proofs.Yaml.Actions

/-!
# Values of what is read

The values of a document are found level by level, and a value refers to the values of
its parts by their nodes.  This file proves that none of them is missing in the end:
every part of a collection has a value, the names of entries are the values of their
keys, and no two entries of one mapping have the same name.

It goes along the run that finds the values.  Values are only added on the way, and an
atom stays what it is, so that what has been said of a value stays true.
-/

namespace Schematic

namespace Yaml

/-! ## Values that refer to values -/

namespace Value

/-- The atom that a value is. -/
def atom? : Value → Option Atom
  | .atom content => some content
  | _ => none

theorem eq_atom_of_atom? {value : Value} {content : Atom} (isAtom : value.atom? = some content) :
    value = .atom content := by
  cases value with
  | atom other => exact congrArg Value.atom (Option.some.inj isAtom)
  | _ => cases isAtom

end Value

/-- The values of nodes. -/
abbrev Known := NodeId → Option Value

/-- Values are added, and atoms stay what they are. -/
def Known.Grows (before after : Known) : Prop :=
  ∀ id value, before id = some value → ∃ later, after id = some later ∧ later.atom? = value.atom?

theorem Known.Grows.refl (known : Known) : known.Grows known :=
  fun _ value isKnown => ⟨value, isKnown, rfl⟩

theorem Known.Grows.trans {before between after : Known} (first : before.Grows between)
    (second : between.Grows after) : before.Grows after := by
  intro id value isKnown
  obtain ⟨middle, isMiddle, sameFirst⟩ := first id value isKnown
  obtain ⟨later, isLater, sameSecond⟩ := second id middle isMiddle
  exact ⟨later, isLater, sameSecond.trans sameFirst⟩

theorem Known.Grows.isSome {before after : Known} (grows : before.Grows after) {id : NodeId}
    (isKnown : (before id).isSome) : (after id).isSome := by
  obtain ⟨value, isValue⟩ := Option.isSome_iff_exists.mp isKnown
  obtain ⟨later, isLater, -⟩ := grows id value isValue
  exact Option.isSome_iff_exists.mpr ⟨later, isLater⟩

theorem Known.Grows.atom {before after : Known} (grows : before.Grows after) {id : NodeId}
    {atom : Atom} (isAtom : before id = some (.atom atom)) : after id = some (.atom atom) := by
  obtain ⟨later, isLater, same⟩ := grows id _ isAtom
  rw [isLater, Value.eq_atom_of_atom? same]

/-- An entry has the name that its key is, and a value. -/
structure Entry.Fits (known : Known) (entry : Entry) : Prop where
  named : known entry.key = some (.atom entry.name)
  valued : (known entry.value).isSome

/-- All entries fit, and no two of them have the same name. -/
structure FitEntries (known : Known) (entries : List Entry) : Prop where
  fits : ∀ entry ∈ entries, entry.Fits known
  distinct : entries.Pairwise fun first second => first.sameName second = false

/-- The parts of a value have values. -/
def Value.Fits (known : Known) : Value → Prop
  | .atom _ => True
  | .sequence items => ∀ item ∈ items, (known item).isSome
  | .pairs members => ∀ pair ∈ members, (known pair.1).isSome ∧ (known pair.2).isSome
  | .mapping entries => FitEntries known entries
  | .set entries => FitEntries known entries

section

variable {before after : Known}

theorem Entry.Fits.grow {entry : Entry} (fits : entry.Fits before) (grows : before.Grows after) :
    entry.Fits after :=
  ⟨grows.atom fits.named, grows.isSome fits.valued⟩

theorem FitEntries.grow {entries : List Entry} (fit : FitEntries before entries)
    (grows : before.Grows after) : FitEntries after entries :=
  ⟨fun entry isEntry => (fit.fits entry isEntry).grow grows, fit.distinct⟩

theorem Value.Fits.grow {value : Value} (fits : value.Fits before) (grows : before.Grows after) :
    value.Fits after := by
  cases value with
  | atom => trivial
  | sequence items => exact fun item isItem => grows.isSome (fits item isItem)
  | pairs pairs =>
      exact fun pair isPair =>
        ⟨grows.isSome (fits pair isPair).1, grows.isSome (fits pair isPair).2⟩
  | mapping entries => exact FitEntries.grow fits grows
  | set entries => exact FitEntries.grow fits grows

end

/-! ## Names of entries -/

theorem fitEntries_nil (known : Known) : FitEntries known [] :=
  ⟨nofun, .nil⟩

theorem Entry.mem_addTo {entry added : Entry} {entries : List Entry}
    (isEntry : entry ∈ added.addTo entries) :
    entry ∈ entries ∨ entry = added ∨
      ∃ first ∈ entries, entry = { first with value := added.value } := by
  induction entries with
  | nil => exact .inr (.inl (List.mem_singleton.mp isEntry))
  | cons first rest ih =>
      rw [addTo] at isEntry
      split at isEntry
      · rcases List.mem_cons.mp isEntry with rfl | isEntry
        · exact .inr (.inr ⟨first, List.mem_cons_self, rfl⟩)
        · exact .inl (List.mem_cons_of_mem first isEntry)
      · rcases List.mem_cons.mp isEntry with rfl | isEntry
        · exact .inl List.mem_cons_self
        · rcases ih isEntry with isOld | isAdded | ⟨old, isOld, same⟩
          · exact .inl (List.mem_cons_of_mem first isOld)
          · exact .inr (.inl isAdded)
          · exact .inr (.inr ⟨old, List.mem_cons_of_mem first isOld, same⟩)

/-- Names are compared before an entry is added, so that they stay distinct. -/
theorem Entry.pairwise_addTo {entries : List Entry} (added : Entry)
    (distinct : entries.Pairwise fun first second => first.sameName second = false) :
    (added.addTo entries).Pairwise fun first second => first.sameName second = false := by
  induction entries with
  | nil => exact List.pairwise_singleton _ _
  | cons first rest ih =>
      obtain ⟨apart, distinct⟩ := List.pairwise_cons.mp distinct
      rw [addTo]
      split
      · exact List.pairwise_cons.mpr ⟨apart, distinct⟩
      · next other =>
        refine List.pairwise_cons.mpr ⟨fun second isSecond => ?_, ih distinct⟩
        rcases mem_addTo isSecond with isOld | rfl | ⟨old, isOld, rfl⟩
        · exact apart second isOld
        · exact Bool.eq_false_iff.mpr other
        · exact apart old isOld

theorem FitEntries.addTo {known : Known} {entries : List Entry} {added : Entry}
    (fit : FitEntries known entries) (fits : added.Fits known) :
    FitEntries known (added.addTo entries) where
  fits entry isEntry := by
    rcases Entry.mem_addTo isEntry with isOld | rfl | ⟨old, isOld, rfl⟩
    · exact fit.fits entry isOld
    · exact fits
    · exact ⟨(fit.fits old isOld).named, fits.valued⟩
  distinct := Entry.pairwise_addTo added fit.distinct

/-! ## Valuations -/

namespace Valuation

/-- The values of nodes so far. -/
def known (valuation : Valuation) : Known :=
  fun id => valuation.values[id]?.join

/-- There is room for the values of all nodes, and those that are known fit. -/
structure Sound (valuation : Valuation) : Prop where
  room : valuation.values.size = valuation.nodes.size
  fits : ∀ id value, valuation.known id = some value → value.Fits valuation.known

/-- A sound valuation in which all is known that was before. -/
structure Follows (before after : Valuation) : Prop where
  sound : after.Sound
  grows : before.known.Grows after.known

variable {before between after valuation : Valuation}

theorem Sound.follows_self (sound : valuation.Sound) : valuation.Follows valuation :=
  ⟨sound, .refl _⟩

theorem Follows.trans (first : before.Follows between) (second : between.Follows after) :
    before.Follows after :=
  ⟨second.sound, first.grows.trans second.grows⟩

theorem known_set (values : Array (Option Value)) {id : NodeId} (within : id < values.size)
    (value : Value) (other : NodeId) :
    (values.setIfInBounds id (some value))[other]?.join =
      if id = other then some value else values[other]?.join := by
  rw [Array.getElem?_setIfInBounds, if_pos within]
  split <;> rfl

/-- A node gets a value that fits, or one that is as much an atom as before. -/
theorem Sound.give (sound : valuation.Sound) {id : NodeId} {value : Value}
    (within : id < valuation.nodes.size) (fits : value.Fits valuation.known)
    (same : ∀ old, valuation.known id = some old → old.atom? = value.atom?) :
    valuation.Follows
      { valuation with values := valuation.values.setIfInBounds id (some value) } := by
  have inRoom : id < valuation.values.size := sound.room ▸ within
  have grows : valuation.known.Grows
      (known { valuation with values := valuation.values.setIfInBounds id (some value) }) := by
    intro other old isOld
    rw [known, known_set _ inRoom]
    split
    · next isSame =>
      subst isSame
      exact ⟨value, rfl, (same old isOld).symm⟩
    · exact ⟨old, isOld, rfl⟩
  refine ⟨⟨?_, fun other found isFound => ?_⟩, grows⟩
  · rw [Array.size_setIfInBounds, sound.room]
  · rw [known, known_set _ inRoom] at isFound
    split at isFound
    · cases isFound
      exact fits.grow grows
    · exact (sound.fits other found isFound).grow grows

/-- Only the nodes have changed, and not their number. -/
structure Reworks (before after : Valuation) : Prop where
  values : after.values = before.values
  count : after.nodes.size = before.nodes.size

theorem Reworks.known (reworks : before.Reworks after) : after.known = before.known := by
  unfold Valuation.known
  rw [reworks.values]

theorem Reworks.follows (reworks : before.Reworks after) (sound : before.Sound) :
    before.Follows after := by
  refine ⟨⟨?_, ?_⟩, ?_⟩
  · rw [reworks.values, reworks.count, sound.room]
  · rw [reworks.known]
    exact sound.fits
  · rw [reworks.known]
    exact .refl _

theorem Reworks.trans (first : before.Reworks between) (second : between.Reworks after) :
    before.Reworks after :=
  ⟨second.values.trans first.values, second.count.trans first.count⟩

/-- What has a value is a node. -/
theorem Sound.lt_of_known (sound : valuation.Sound) {id : NodeId} {value : Value}
    (isKnown : valuation.known id = some value) : id < valuation.nodes.size := by
  rw [← sound.room]
  refine Nat.lt_of_not_le fun beyond => ?_
  rw [Valuation.known, Array.getElem?_eq_none beyond] at isKnown
  cases isKnown

end Valuation

namespace Valuing

open Reworking

variable {start : Valuation}

theorem ends_known? (id : NodeId) :
    Ends (known? id) start fun value final => start.known id = value ∧ start = final := by
  refine ends_get.bind ?_
  rintro _ _ ⟨rfl, rfl⟩
  exact ends_pure ⟨rfl, rfl⟩

/-- Work on the nodes leaves the values alone. -/
theorem ends_rework {α : Type} {work : Reworking α} {good : α → Array Node → Prop}
    (keeps : work.KeepsCount) (ends : Ends work start.nodes good) :
    Ends (rework work) start fun value final =>
      start.Reworks final ∧ good value final.nodes := by
  refine ends_get.bind ?_
  rintro _ _ ⟨rfl, rfl⟩
  have worked : Ends (liftM (work.run start.nodes) : Valuing (α × Array Node)) start
      fun ended final => start = final ∧ work.run start.nodes = .ok ended :=
    ends_lift fun _ succeeds => ⟨rfl, succeeds⟩
  refine worked.bind ?_
  rintro ⟨result, nodes⟩ _ ⟨rfl, succeeds⟩
  refine Ends.bind (ends_set ?_) fun _ _ isGood => ends_pure isGood
  exact ⟨⟨rfl, keeps _ _ _ succeeds⟩, ends _ _ succeeds⟩

theorem ends_reworks {α : Type} {work : Reworking α} (keeps : work.KeepsCount) :
    Ends (rework work) start fun _ final => start.Reworks final := by
  have anything : Ends work start.nodes fun _ _ => True := fun _ _ _ => trivial
  exact (ends_rework keeps anything).mono fun _ _ => And.left

/-- Only nodes are taken for something. -/
theorem ends_tag (id : NodeId) :
    Ends (rework (Reworking.tag id)) start fun tag final =>
      start.Reworks final ∧ (tag ≠ .unknown → id < start.nodes.size) := by
  have isNode : Ends (Reworking.tag id) start.nodes fun tag _ =>
      tag ≠ .unknown → id < start.nodes.size := by
    refine ends_get.bind ?_
    rintro _ _ ⟨rfl, rfl⟩
    refine ends_pure fun known => Nat.lt_of_not_le fun beyond => known ?_
    rw [Array.getElem?_eq_none beyond]
    rfl
  exact ends_rework (keepsCount_tag id) isNode

theorem ends_give (sound : start.Sound) {id : NodeId} {value : Value}
    (within : id < start.nodes.size) (fits : value.Fits start.known)
    (same : ∀ old, start.known id = some old → old.atom? = value.atom?) :
    Ends (give id value) start fun _ final =>
      start.Follows final ∧ final.known id = some value := by
  refine ends_modify ⟨sound.give within fits same, ?_⟩
  rw [Valuation.known, Valuation.known_set _ (sound.room ▸ within), if_pos rfl]

theorem ends_atom (read : Text.Coded → Except Fault Atom) (id : NodeId) :
    Ends (atom read id) start fun value final =>
      start.Reworks final ∧ value.Fits start.known := by
  refine ends_get.bind ?_
  rintro _ _ ⟨rfl, rfl⟩
  refine (ends_reworks (keepsCount_text _ id)).bind fun text between reworks => ?_
  have lifted : Ends (liftM (read text) : Valuing Atom) between fun _ final => between = final :=
    ends_lift fun _ _ => rfl
  refine lifted.bind ?_
  rintro content _ rfl
  exact ends_pure ⟨reworks, trivial⟩

theorem ends_date (id : NodeId) :
    Ends (date id) start fun value final => start.Reworks final ∧ value.Fits start.known := by
  refine ends_get.bind ?_
  rintro _ _ ⟨rfl, rfl⟩
  refine (ends_reworks (keepsCount_text _ id)).bind fun text between first => ?_
  refine (ends_reworks (keepsCount_content id)).bind fun content final second => ?_
  split
  · have lifted : Ends (liftM (ScalarValue.ofForm .date text) : Valuing Atom) final
        fun _ last => final = last := ends_lift fun _ _ => rfl
    refine lifted.bind ?_
    rintro moment _ rfl
    exact ends_pure ⟨first.trans second, trivial⟩
  · exact ends_throw _

theorem ends_begin (sound : start.Sound) {id : NodeId} {value : Value}
    (within : id < start.nodes.size) (fits : value.Fits start.known)
    (unknown : start.known id = none) :
    Ends (begin id value) start fun _ final =>
      start.Follows final ∧ (final.known id).isSome := by
  have noOld : ∀ old, start.known id = some old → old.atom? = value.atom? := by
    rw [unknown]
    nofun
  refine (ends_give sound within fits noOld).bind ?_
  rintro _ between ⟨follows, isKnown⟩
  refine ends_modify ⟨⟨⟨follows.sound.room, follows.sound.fits⟩, follows.grows⟩, ?_⟩
  exact Option.isSome_iff_exists.mpr ⟨value, isKnown⟩

/-- A node gets a value that is found without other values. -/
theorem ends_giveFound (sound : start.Sound) {id : NodeId} {find : Valuing Value}
    (within : id < start.nodes.size) (unknown : start.known id = none)
    (found : Ends find start fun value final => start.Reworks final ∧ value.Fits start.known) :
    Ends (find >>= give id) start fun _ final =>
      start.Follows final ∧ (final.known id).isSome := by
  refine found.bind ?_
  rintro value between ⟨reworks, fits⟩
  have follows := reworks.follows sound
  have noOld : ∀ old, between.known id = some old → old.atom? = value.atom? := by
    rw [reworks.known, unknown]
    nofun
  have fitsBetween : value.Fits between.known := reworks.known ▸ fits
  refine (ends_give follows.sound (reworks.count ▸ within) fitsBetween noOld).mono ?_
  rintro _ final ⟨given, isKnown⟩
  exact ⟨follows.trans given, Option.isSome_iff_exists.mpr ⟨value, isKnown⟩⟩

/-- A node that is met has a value. -/
theorem ends_meet (sound : start.Sound) (id : NodeId) :
    Ends (meet id) start fun _ final => start.Follows final ∧ (final.known id).isSome := by
  refine (ends_known? id).bind ?_
  rintro _ _ ⟨rfl, rfl⟩
  split
  · next isKnown => exact ends_pure ⟨sound.follows_self, isKnown⟩
  · next notKnown =>
    refine (ends_tag id).bind ?_
    rintro tag between ⟨reworks, isNode⟩
    have follows := reworks.follows sound
    have unknown : between.known id = none := by
      rw [reworks.known]
      simpa using notKnown
    have within (isTag : tag ≠ .unknown) : id < between.nodes.size :=
      reworks.count ▸ isNode isTag
    have fromBetween : ∀ (_ : Unit) (final : Valuation),
        between.Follows final ∧ (final.known id).isSome →
          start.Follows final ∧ (final.known id).isSome :=
      fun _ _ ⟨later, isKnown⟩ => ⟨follows.trans later, isKnown⟩
    refine Ends.mono ?_ fromBetween
    have sound := follows.sound
    split
    · exact ends_throw _
    · exact ends_throw _
    · exact ends_throw _
    · exact ends_giveFound sound (within nofun) unknown (ends_date id)
    · exact ends_giveFound sound (within nofun) unknown (ends_atom _ id)
    · exact ends_giveFound sound (within nofun) unknown (ends_atom _ id)
    · exact ends_begin sound (within nofun) nofun unknown
    · exact ends_begin sound (within nofun) nofun unknown
    · exact ends_begin sound (within nofun) (fitEntries_nil _) unknown
    · exact ends_begin sound (within nofun) (fitEntries_nil _) unknown
    · exact ends_throw _

theorem ends_forM_meet (sound : start.Sound) (items : List NodeId) :
    Ends (items.forM meet) start fun _ final =>
      start.Follows final ∧ ∀ item ∈ items, (final.known item).isSome := by
  induction items generalizing start with
  | nil => exact ends_pure ⟨sound.follows_self, nofun⟩
  | cons item rest ih =>
      refine (ends_meet sound item).bind ?_
      rintro _ between ⟨first, isKnown⟩
      refine (ih first.sound).mono ?_
      rintro _ final ⟨others, allKnown⟩
      exact ⟨first.trans others,
        List.forall_mem_cons.mpr ⟨others.grows.isSome isKnown, allKnown⟩⟩

theorem ends_pair (sound : start.Sound) (id : NodeId) :
    Ends (pair id) start fun found final =>
      start.Follows final ∧ (final.known found.1).isSome ∧ (final.known found.2).isSome := by
  refine (ends_reworks (keepsCount_pairs id)).bind fun pairs between reworks => ?_
  have follows := reworks.follows sound
  split
  · next key value =>
    refine (ends_meet follows.sound key).bind ?_
    rintro _ middle ⟨first, keyKnown⟩
    refine (ends_meet first.sound value).bind ?_
    rintro _ final ⟨second, valueKnown⟩
    exact ends_pure ⟨(follows.trans first).trans second, second.grows.isSome keyKnown, valueKnown⟩
  · exact ends_throw _

theorem ends_mapM_pair (sound : start.Sound) (items : List NodeId) :
    Ends (items.mapM pair) start fun found final =>
      start.Follows final ∧
        ∀ pair ∈ found, (final.known pair.1).isSome ∧ (final.known pair.2).isSome := by
  induction items generalizing start with
  | nil => exact ends_pure ⟨sound.follows_self, nofun⟩
  | cons item rest ih =>
      rw [List.mapM_cons]
      refine (ends_pair sound item).bind ?_
      rintro found between ⟨first, keyKnown, valueKnown⟩
      refine (ih first.sound).bind ?_
      rintro others final ⟨follows, allKnown⟩
      exact ends_pure ⟨first.trans follows, List.forall_mem_cons.mpr
        ⟨⟨follows.grows.isSome keyKnown, follows.grows.isSome valueKnown⟩, allKnown⟩⟩

theorem ends_nameOf (key : NodeId) :
    Ends (nameOf key) start fun name final =>
      start = final ∧ start.known key = some (.atom name) := by
  refine (ends_known? key).bind ?_
  rintro _ _ ⟨rfl, rfl⟩
  split
  · next isAtom => exact ends_pure ⟨rfl, isAtom⟩
  · exact ends_throw _

/-- A step adds an entry that fits to some that do. -/
def AddsEntries (step : List Entry → NodePair → Valuing (List Entry)) : Prop :=
  ∀ (start : Valuation) (entries : List Entry) (pair : NodePair), start.Sound →
    FitEntries start.known entries →
    Ends (step entries pair) start fun found final =>
      start.Follows final ∧ FitEntries final.known found

theorem AddsEntries.foldlM {step : List Entry → NodePair → Valuing (List Entry)}
    (adds : AddsEntries step) (sound : start.Sound) {entries : List Entry}
    (fit : FitEntries start.known entries) (pairs : List NodePair) :
    Ends (pairs.foldlM step entries) start fun found final =>
      start.Follows final ∧ FitEntries final.known found := by
  induction pairs generalizing start entries with
  | nil => exact ends_pure ⟨sound.follows_self, fit⟩
  | cons pair rest ih =>
      rw [List.foldlM_cons]
      refine (adds start entries pair sound fit).bind ?_
      rintro found between ⟨first, fitBetween⟩
      refine (ih first.sound fitBetween).mono ?_
      rintro others final ⟨follows, fitFinal⟩
      exact ⟨first.trans follows, fitFinal⟩

theorem ends_entries (sound : start.Sound) (steps : Nat) (id : NodeId) :
    Ends (entries steps id) start fun found final =>
      start.Follows final ∧ FitEntries final.known found := by
  have keeps : KeepsCount (do
      let _ ← Reworking.pairs id
      replaceMerges steps id
      Reworking.pairs id) :=
    (keepsCount_pairs id).bind fun _ => (keepsCount_replaceMerges steps id).bind fun _ =>
      keepsCount_pairs id
  refine (ends_reworks keeps).bind fun pairs between reworks => ?_
  have follows := reworks.follows sound
  refine (AddsEntries.foldlM ?_ follows.sound (fitEntries_nil _) pairs).mono ?_
  · rintro start entries ⟨key, value⟩ sound fit
    refine (ends_meet sound key).bind ?_
    rintro _ middle ⟨first, -⟩
    refine (ends_nameOf key).bind ?_
    rintro name _ ⟨rfl, named⟩
    refine (ends_meet first.sound value).bind ?_
    rintro _ final ⟨second, valued⟩
    have later := first.trans second
    exact ends_pure ⟨later, (fit.grow later.grows).addTo ⟨second.grows.atom named, valued⟩⟩
  · rintro found final ⟨later, fit⟩
    exact ⟨follows.trans later, fit⟩

theorem ends_items (id : NodeId) :
    Ends (items id) start fun _ final => start.Reworks final := by
  refine (ends_reworks (keepsCount_content id)).bind fun content between reworks => ?_
  split
  · exact ends_pure reworks
  · exact ends_throw _

/-- A collection gets its parts when they have values. -/
theorem ends_giveParts {between : Valuation} {id : NodeId} {old value : Value}
    (isKnown : start.known id = some old) (follows : start.Follows between)
    (fits : value.Fits between.known) (same : old.atom? = value.atom?) :
    Ends (give id value) between fun _ final => start.Follows final := by
  obtain ⟨later, isLater, sameLater⟩ := follows.grows id old isKnown
  have sameAtom : ∀ found, between.known id = some found → found.atom? = value.atom? := by
    intro found isFound
    obtain rfl : later = found := Option.some.inj (isLater.symm.trans isFound)
    exact sameLater.trans same
  refine (ends_give follows.sound (follows.sound.lt_of_known isLater) fits sameAtom).mono ?_
  exact fun _ _ given => follows.trans given.1

theorem ends_fill (sound : start.Sound) (steps : Nat) (id : NodeId) :
    Ends (fill steps id) start fun _ final => start.Follows final := by
  refine (ends_known? id).bind ?_
  rintro _ _ ⟨rfl, rfl⟩
  split
  · next isKnown =>
    refine (ends_items id).bind fun items between reworks => ?_
    have follows := reworks.follows sound
    refine (ends_forM_meet follows.sound items).bind ?_
    rintro _ final ⟨later, allKnown⟩
    exact ends_giveParts isKnown (follows.trans later) allKnown rfl
  · next isKnown =>
    refine (ends_items id).bind fun items between reworks => ?_
    have follows := reworks.follows sound
    refine (ends_mapM_pair follows.sound items).bind ?_
    rintro pairs final ⟨later, allKnown⟩
    exact ends_giveParts isKnown (follows.trans later) allKnown rfl
  · next isKnown =>
    refine (ends_entries sound steps id).bind ?_
    rintro entries final ⟨later, fit⟩
    exact ends_giveParts isKnown later fit rfl
  · next isKnown =>
    refine (ends_entries sound steps id).bind ?_
    rintro entries final ⟨later, fit⟩
    exact ends_giveParts isKnown later fit rfl
  · exact ends_pure sound.follows_self

theorem ends_forM_fill (sound : start.Sound) (steps : Nat) (level : List NodeId) :
    Ends (level.forM (fill steps)) start fun _ final => start.Follows final := by
  induction level generalizing start with
  | nil => exact ends_pure sound.follows_self
  | cons id rest ih =>
      refine (ends_fill sound steps id).bind fun _ between first => ?_
      exact (ih first.sound).mono fun _ _ => first.trans

theorem ends_fillAll (sound : start.Sound) (steps rounds : Nat) :
    Ends (fillAll steps rounds) start fun _ final => start.Follows final := by
  induction rounds generalizing start with
  | zero => exact ends_pure sound.follows_self
  | succ rounds ih =>
      refine ends_get.bind ?_
      rintro _ _ ⟨rfl, rfl⟩
      dsimp only
      split
      · exact ends_pure sound.follows_self
      · have emptied : start.Follows { start with waiting := #[] } :=
          ⟨⟨sound.room, sound.fits⟩, .refl _⟩
        have modified : Ends (modify ({ · with waiting := #[] }) : Valuing Unit) start
            fun _ final => start.Follows final := ends_modify emptied
        refine modified.bind fun _ between first => ?_
        obtain ⟨level⟩ := start.waiting
        have filled := ends_forM_fill first.sound steps level
        rw [← List.forM_toArray] at filled
        refine filled.bind fun _ middle second => ?_
        exact (ih second.sound).mono fun _ _ third => (first.trans second).trans third

end Valuing

/-! ## Documents that are read -/

/-- A document whose outermost node has a value, and so have the parts of every value. -/
structure ValuedDocument.Sound (document : ValuedDocument) : Prop where
  root : (document.value? document.root).isSome
  fits : ∀ id value, document.value? id = some value → value.Fits document.value?

theorem Document.sound_valued? {document : Document} {valued : ValuedDocument}
    (found : document.valued? = .ok (some valued)) : valued.Sound := by
  unfold Document.valued? at found
  split at found
  · cases found
  · next root isRoot =>
    obtain ⟨⟨_, valuation⟩, worked, found⟩ := exists_of_bind_eq_ok found
    cases found
    have start : Valuation.Sound
        { nodes := document.nodes, values := Array.replicate document.nodes.size none } := by
      refine ⟨Array.size_replicate, fun id value isKnown => ?_⟩
      rw [Valuation.known, Array.getElem?_replicate] at isKnown
      split at isKnown <;> cases isKnown
    have ends := (Valuing.ends_meet start root).bind fun _ between first =>
      (Valuing.ends_fillAll first.1.sound (document.pairCount + 1) (document.nodes.size + 1)).mono
        fun _ final second => And.intro (first.1.trans second) (second.grows.isSome first.2)
    obtain ⟨follows, rootKnown⟩ := ends _ _ worked
    exact ⟨rootKnown, follows.sound.fits⟩

/-- In every document that is read no value is missing, entries are named by their keys,
and the names of the entries of one mapping are distinct. -/
theorem sound_read {text : String} {document : ValuedDocument}
    (isRead : read text = .ok (some document)) : document.Sound := by
  obtain ⟨nodes, -, found⟩ := exists_of_bind_eq_ok isRead
  exact Document.sound_valued? found

end Yaml

end Schematic
