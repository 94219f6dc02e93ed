import Mathlib.Data.List.Infix
import Schematic.Proofs.Outcome
import Schematic.Storage.Files

/-!
# Writing a file

A file that is opened and filled is the only one that changes.  It has all of the text in
the end, unless there is no room for it or it has no encoding; then it has a beginning of
the text, or nothing.  If it cannot be opened, nothing changes.
-/

namespace Schematic

namespace Storage

namespace Files

/-- Of all files only the one that a path leads to has changed, and it has certain bytes. -/
structure Saves (before after : Files) (path : Path) (place : Place) (bytes : ByteArray) :
    Prop where
  leads : before.resolve path = .ok place
  leadsAfter : after.resolve path = .ok place
  holds : ∃ access, after.at? place = some (.file bytes access)
  others : ∀ other, other ≠ place → after.at? other = before.at? other

/-- What becomes of all files when a text is written to a path. -/
inductive Leaves (before : Files) (path : Path) (text : Text.Coded) : Written → Files → Prop where
  | saved {content : String} {place : Place} {after : Files} :
      text.whole? = some content → Saves before after path place content.toUTF8 →
      Leaves before path text .all after
  | unopened {fault : Fault} : Leaves before path text (.failed fault) before
  /-- There is room only for a beginning of the text. -/
  | cut {content : String} {place : Place} {room : Nat} {after : Files} :
      text.whole? = some content → before.room = some room → room < content.toUTF8.size →
      Saves before after path place (content.toUTF8.extract 0 room) →
      Leaves before path text (.failed .full) after
  /-- The file is open when the text turns out to have no encoding. -/
  | emptied {place : Place} {after : Files} :
      text.whole? = none → Saves before after path place .empty →
      Leaves before path text .unencodable after

theorem Saves.trans {before between after : Files} {path : Path} {place : Place}
    {bytes more : ByteArray} (first : Saves before between path place bytes)
    (second : Saves between after path place more) : Saves before after path place more where
  leads := first.leads
  leadsAfter := second.leadsAfter
  holds := second.holds
  others other apart := (second.others other apart).trans (first.others other apart)

/-! ## Entries -/

theorem lookup_set (place : Place) (entry : Entry) (entries : List (Place × Entry))
    (other : Place) :
    (set place entry entries).lookup other =
      if other = place then some entry else entries.lookup other := by
  induction entries with
  | nil =>
      rw [set, List.lookup_cons]
      by_cases same : other = place
      · simp [same]
      · simp [same, beq_eq_false_iff_ne.mpr same]
  | cons first rest ih =>
      obtain ⟨firstPlace, firstEntry⟩ := first
      by_cases isFirst : firstPlace = place
      · subst isFirst
        rw [set, if_pos rfl]
        by_cases same : other = firstPlace
        · simp [same]
        · simp [List.lookup_cons, same, beq_eq_false_iff_ne.mpr same]
      · rw [set, if_neg isFirst, List.lookup_cons, List.lookup_cons, ih]
        by_cases same : other = firstPlace
        · subst same
          simp [isFirst]
        · simp [beq_eq_false_iff_ne.mpr same]

theorem any_set {test : Place → Bool} (place : Place) (entry : Entry)
    (entries : List (Place × Entry)) :
    (set place entry entries).any (fun entry => test entry.1) =
      (test place || entries.any fun entry => test entry.1) := by
  induction entries with
  | nil => simp [set]
  | cons first rest ih =>
      by_cases isFirst : first.1 = place
      · rw [set, if_pos isFirst, List.any_cons, List.any_cons, isFirst, ← Bool.or_assoc,
          Bool.or_self]
      · rw [set, if_neg isFirst, List.any_cons, List.any_cons, ih, Bool.or_left_comm]

section

variable {files : Files} {place other : Place}

theorem isOnWay_iff : files.isOnWay place = true ↔
    place <+: files.current ∨ ∃ entry ∈ files.entries, place <+: entry.1 := by
  simp [isOnWay]

theorem at?_eq_none_iff :
    files.at? place = none ↔ files.entries.lookup place = none ∧ files.isOnWay place = false := by
  unfold at?
  cases files.entries.lookup place <;> simp

/-- There is something at all places on the way to something. -/
theorem isSome_at?_of_isPrefix (isPrefix : other <+: place) (found : (files.at? place).isSome) :
    (files.at? other).isSome := by
  rw [← Option.ne_none_iff_isSome] at found ⊢
  intro none
  obtain ⟨-, offWay⟩ := at?_eq_none_iff.mp none
  rw [Bool.eq_false_iff, Ne, isOnWay_iff, not_or] at offWay
  apply found
  refine at?_eq_none_iff.mpr ⟨?_, ?_⟩
  · refine List.lookup_eq_none_iff.mpr fun entry isEntry => ?_
    rw [bne_iff_ne]
    rintro rfl
    exact offWay.2 ⟨entry, isEntry, isPrefix⟩
  · rw [Bool.eq_false_iff, Ne, isOnWay_iff, not_or]
    exact ⟨fun onWay => offWay.1 (isPrefix.trans onWay),
      fun ⟨entry, isEntry, onWay⟩ => offWay.2 ⟨entry, isEntry, isPrefix.trans onWay⟩⟩

/-- A file that is put somewhere changes nothing else, if there is a place for it. -/
theorem at?_put_of_ne (bytes : ByteArray)
    (around : ∀ other, other <+: place → other ≠ place → (files.at? other).isSome)
    (apart : other ≠ place) : (files.put place bytes).at? other = files.at? other := by
  have sameLookup : (files.put place bytes).entries.lookup other = files.entries.lookup other := by
    rw [put]
    dsimp only
    rw [lookup_set, if_neg apart]
  unfold at?
  rw [sameLookup]
  cases absent : files.entries.lookup other with
  | some entry => rfl
  | none =>
      have sameWay : (files.put place bytes).isOnWay other =
          (other.isPrefixOf place || files.isOnWay other) := by
        rw [isOnWay, isOnWay, put]
        dsimp only
        rw [any_set, Bool.or_left_comm]
      dsimp only
      rw [sameWay]
      cases isPrefix : other.isPrefixOf place with
      | false => rw [Bool.false_or]
      | true =>
          have onWay := around other (List.isPrefixOf_iff_prefix.mp isPrefix) apart
          rw [at?, absent] at onWay
          dsimp only at onWay
          split at onWay
          · next isOnWay => rw [isOnWay, Bool.or_true]
          · cases onWay

theorem at?_put (bytes : ByteArray) :
    ∃ access, (files.put place bytes).at? place = some (.file bytes access) := by
  have found : ∃ access, (files.put place bytes).entries.lookup place =
      some (.file bytes access) := by
    rw [put]
    dsimp only
    rw [lookup_set, if_pos rfl]
    split
    · exact ⟨_, rfl⟩
    · exact ⟨_, rfl⟩
  obtain ⟨access, found⟩ := found
  exact ⟨access, by rw [at?, found]⟩

/-- A path leads to the same place if no directory on the way has changed. -/
theorem walk_eq_of_others {after : Files} {target start : Place}
    (isNone : ∀ access, files.at? place ≠ some (.directory access))
    (others : ∀ other, other ≠ place → after.at? other = files.at? other) {names : List String}
    (leads : files.walk start names = .ok target) : after.walk start names = .ok target := by
  induction names generalizing start with
  | nil => exact leads
  | cons name rest ih =>
      rw [walk] at leads ⊢
      cases found : files.at? start with
      | none =>
          rw [found] at leads
          cases leads
      | some entry =>
          rw [found] at leads
          cases entry with
          | file bytes access => cases leads
          | directory access =>
              have apart : start ≠ place := by
                rintro rfl
                exact isNone access found
              rw [others start apart, found]
              dsimp only at leads ⊢
              split_ifs at leads ⊢
              · exact ih leads
              · exact ih leads

/-- A file that is put at the end of a path is saved. -/
theorem saves_put {path : Path} (leads : files.resolve path = .ok place)
    (isNone : ∀ access, files.at? place ≠ some (.directory access))
    (around : ∀ other, other <+: place → other ≠ place → (files.at? other).isSome)
    (bytes : ByteArray) : Saves files (files.put place bytes) path place bytes where
  leads := leads
  leadsAfter := by
    unfold resolve at leads ⊢
    split at leads
    · cases leads
    · next short =>
      rw [if_neg short]
      exact walk_eq_of_others isNone (fun _ apart => at?_put_of_ne bytes around apart) leads
  holds := at?_put bytes
  others _ apart := at?_put_of_ne bytes around apart

end

/-! ## Opening and filling -/

section

variable {files opened : Files} {path : Path} {place : Place}

theorem isSome_of_takesFiles (takes : files.takesFiles place = true) :
    (files.at? place).isSome := by
  unfold takesFiles at takes
  split at takes
  · next isDirectory => rw [isDirectory, Option.isSome_some]
  · cases takes

/-- A file that is opened has a place, where a file or nothing has been. -/
theorem exists_of_create (created : files.create path = .ok (place, opened)) :
    files.resolve path = .ok place ∧ opened = files.put place .empty ∧
      (∀ access, files.at? place ≠ some (.directory access)) ∧
      ((files.at? place).isSome ∨ (files.at? place.dropLast).isSome) := by
  unfold create at created
  obtain ⟨target, leads, created⟩ := exists_of_bind_eq_ok created
  split at created
  · cases created
  · next found =>
    split at created
    · cases created
      exact ⟨leads, rfl, by simp [found], .inl (by simp [found])⟩
    · cases created
  · next vacant =>
    split at created
    · next takes =>
      cases created
      exact ⟨leads, rfl, by simp [vacant], .inr (isSome_of_takesFiles takes)⟩
    · cases created

/-- A file that is opened is saved without any bytes. -/
theorem saves_of_create (created : files.create path = .ok (place, opened)) :
    Saves files opened path place .empty := by
  obtain ⟨leads, rfl, isNone, around⟩ := exists_of_create created
  refine saves_put leads isNone (fun other isPrefix apart => ?_) _
  rcases around with found | around
  · exact isSome_at?_of_isPrefix isPrefix found
  · have shorter := isPrefix.length_le.lt_of_ne fun same => apart (isPrefix.eq_of_length same)
    refine isSome_at?_of_isPrefix (List.prefix_of_prefix_length_le isPrefix
      (List.dropLast_prefix place) ?_) around
    rw [List.length_dropLast]
    omega

end

theorem Saves.fill {files opened : Files} {path : Path} {place : Place}
    (saves : Saves files opened path place .empty) (bytes : ByteArray) :
    Saves files (opened.put place bytes) path place bytes := by
  obtain ⟨access, holds⟩ := saves.holds
  refine saves.trans (saves_put saves.leadsAfter (by simp [holds]) (fun other isPrefix _ => ?_) _)
  exact isSome_at?_of_isPrefix isPrefix (by simp [holds])

/-- Writing saves a text as a whole, or leaves one of the faults behind. -/
theorem leaves_write (files : Files) (path : Path) (text : Text.Coded) :
    files.Leaves path text (files.write path text).1 (files.write path text).2 := by
  unfold write
  cases created : files.create path with
  | error fault => exact .unopened
  | ok made =>
      obtain ⟨place, opened⟩ := made
      have saves := saves_of_create created
      dsimp only
      cases whole : text.whole? with
      | none => exact .emptied whole saves
      | some content =>
          change Leaves _ _ _ (opened.fill place content.toUTF8).1
            (opened.fill place content.toUTF8).2
          unfold fill
          have sameRoom : opened.room = files.room := by
            rw [(exists_of_create created).2.1]
            rfl
          split
          · next room full =>
            obtain ⟨isRoom, isLess⟩ := Option.filter_eq_some_iff.mp full
            exact .cut whole (sameRoom ▸ isRoom) (of_decide_eq_true isLess) (saves.fill _)
          · exact .saved whole (saves.fill _)

end Files

end Storage

end Schematic
