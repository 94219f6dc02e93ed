import Schematic.Proofs.Connectivity.Marks

/-!
# The picture of a twoport

The slots of a twoport make a row between the nodes of its signal line.  A
shunt hangs in its slot between the signal line and the return rail, and the
rail is below everything that does not belong to it.  This file proves that the
picture of a twoport keeps different labels apart.
-/

namespace Schematic

open Schematic.Alignment (Side)

/-! ## Turned wires -/

namespace Wire

theorem mem_ends_transposed {wire : Wire Rat} {point : Point Rat} :
    point ∈ wire.transposed.ends ↔ ∃ stop ∈ wire.ends, stop.transposed = point := by
  simp [transposed, ends, eq_comm]

theorem Before.transposed {axis : Axis} {first second : Wire Rat}
    (before : first.Before axis second) :
    first.transposed.Before axis.turned second.transposed := by
  intro one isOne other isOther
  obtain ⟨oneStop, isOneStop, rfl⟩ := mem_ends_transposed.mp isOne
  obtain ⟨otherStop, isOtherStop, rfl⟩ := mem_ends_transposed.mp isOther
  rw [Axis.turned_of_transposed, Axis.turned_of_transposed]
  exact before oneStop isOneStop otherStop isOtherStop

theorem Apart.transposed {first second : Wire Rat} (apart : first.Apart second) :
    first.transposed.Apart second.transposed := by
  obtain ⟨axis, forwards | backwards⟩ := apart
  · exact ⟨axis.turned, .inl forwards.transposed⟩
  · exact ⟨axis.turned, .inr backwards.transposed⟩

end Wire

namespace Picture

open Network

variable {Label : Type} {left right line rail : Label} {width length depth top : Rat}
  {picture : Picture Label}

/-- All wires of a region, with one label. -/
def Area (region : Point Rat → Prop) (label : Label) : Picture Label :=
  fun wire other => other = label ∧ ∀ point ∈ wire.ends, region point

/-- A picture that is turned and moved to a corner. -/
def Turned (corner : Point Rat) (picture : Picture Label) : Picture Label :=
  fun wire label => ∃ inner, picture inner label ∧ wire = inner.transposed.shifted corner

/-- Separated wires that keep away from both edges of a strip. -/
theorem tidy_of_inside (separated : Separated picture)
    (inside : ∀ ⦃wire label⦄, picture wire label → ∀ point ∈ wire.ends,
      1 < point.x ∧ point.x + 1 < width) : Tidy width left right picture where
  span _ _ isMark point isEnd := by
    obtain ⟨low, high⟩ := inside isMark point isEnd
    constructor <;> linarith
  leftEdge _ _ isMark point isEnd close := absurd close (not_le.mpr (inside isMark point isEnd).1)
  rightEdge _ _ isMark point isEnd close := absurd close (not_le.mpr (inside isMark point isEnd).2)
  separated := separated

theorem separated_area (region : Point Rat → Prop) (label : Label) :
    Separated (Area region label) :=
  fun _ _ _ _ isFirst isSecond => .inl (isFirst.1.trans isSecond.1.symm)

/-- A hanging part of a length and a depth in the middle of a strip: the signal
is above it and the rail below it. -/
def Hanging (width top length depth : Rat) (line rail : Label) (picture : Picture Label) :
    Picture Label :=
  Union (Area (fun point => 0 ≤ point.x ∧ point.x ≤ width ∧ point.y ≤ top) line) <|
    Union (Area (fun point => point.x = width / 2 ∧ top + length ≤ point.y) rail)
      (Turned ⟨width / 2 - depth / 2, top⟩ picture)

theorem turned_bounds (tidy : Tidy length line rail picture)
    (within : Within 10 (depth - 10) picture) (fits : depth ≤ width) {wire : Wire Rat}
    {label : Label} (isMark : Turned ⟨width / 2 - depth / 2, top⟩ picture wire label) :
    ∀ point ∈ wire.ends, 1 < point.x ∧ point.x + 1 < width ∧
      (point.y ≤ top + 1 → label = line) ∧ (top + length ≤ point.y + 1 → label = rail) := by
  obtain ⟨inner, isInner, rfl⟩ := isMark
  intro point isEnd
  obtain ⟨turned, isTurned, rfl⟩ := Wire.mem_ends_shifted.mp isEnd
  obtain ⟨stop, isStop, rfl⟩ := Wire.mem_ends_transposed.mp isTurned
  obtain ⟨high, low⟩ := within isInner stop isStop
  simp only [Point.add_x, Point.add_y, Point.transposed]
  refine ⟨by linarith, by linarith, fun close => ?_, fun close => ?_⟩
  · exact tidy.leftEdge isInner stop isStop (by linarith)
  · exact tidy.rightEdge isInner stop isStop (by linarith)

/-- The slot of a hanging part has the label of the signal at both its edges. -/
theorem Tidy.hanging (tidy : Tidy length line rail picture)
    (within : Within 10 (depth - 10) picture) (fits : depth ≤ width) (deep : 20 ≤ depth)
    (long : 3 ≤ length) :
    Tidy width line line (Hanging width top length depth line rail picture) := by
  have upper : Tidy width line line
      (Area (fun point => 0 ≤ point.x ∧ point.x ≤ width ∧ point.y ≤ top) line) := {
    span := fun _ _ isMark point isEnd =>
      ⟨(isMark.2 point isEnd).1, (isMark.2 point isEnd).2.1⟩
    leftEdge := fun _ _ isMark _ _ _ => isMark.1
    rightEdge := fun _ _ isMark _ _ _ => isMark.1
    separated := separated_area _ line }
  have lower : Tidy width line line
      (Area (fun point => point.x = width / 2 ∧ top + length ≤ point.y) rail) := by
    refine tidy_of_inside (separated_area _ rail) fun _ _ isMark point isEnd => ?_
    rw [(isMark.2 point isEnd).1]
    constructor <;> linarith
  have inner : Tidy width line line (Turned ⟨width / 2 - depth / 2, top⟩ picture) := by
    refine tidy_of_inside ?_ fun _ _ isMark point isEnd => ?_
    · rintro _ oneLabel _ otherLabel ⟨one, isOne, rfl⟩ ⟨other, isOther, rfl⟩
      exact (tidy.separated isOne isOther).imp_right fun apart => apart.transposed.shifted _
    · obtain ⟨low, high, -, -⟩ := turned_bounds tidy within fits isMark point isEnd
      exact ⟨low, high⟩
  have lowerClear : Clear (Area (fun point => point.x = width / 2 ∧ top + length ≤ point.y) rail)
      (Turned ⟨width / 2 - depth / 2, top⟩ picture) := by
    refine clear_of_high .vertical
      (fun _ _ isMark => ⟨isMark.1, fun point isEnd => (isMark.2 point isEnd).2⟩) ?_
    intro wire label isMark point isEnd close
    exact (turned_bounds tidy within fits isMark point isEnd).2.2.2 close
  refine upper.union (lower.union inner lowerClear) (clear_of_low .vertical
    (fun _ _ isMark => ⟨isMark.1, fun point isEnd => (isMark.2 point isEnd).2.2⟩) ?_)
  rintro wire label (isLower | isInner) point isEnd close
  · have below := (isLower.2 point isEnd).2
    simp only [Axis.of] at close
    linarith
  · exact (turned_bounds tidy within fits isInner point isEnd).2.2.1 close

end Picture

/-! ## The lines of a twoport -/

section

variable {settings : LayoutSettings Rat} {rungs : List (LinkKind × Extent Rat)}
  {target : Extent Rat}

theorem le_largestOr {values : List Rat} {value : Rat} (isMember : value ∈ values) :
    value ≤ Scalar.largestOr Scalar.zero values := by
  cases values with
  | nil => cases isMember
  | cons first rest => exact (Scalar.largest_spec first rest).2 value isMember

theorem signal_le_shuntTop (nonnegative : settings.IsNonnegative) :
    (twoportLines settings rungs).signal ≤ (twoportLines settings rungs).shuntTop :=
  le_add_of_nonneg_right nonnegative.shuntLead

/-- The rail is below the signal line and all that reaches below it. -/
theorem lowest_le_rail (nonnegative : settings.IsNonnegative) :
    (twoportLines settings rungs).signal +
      Scalar.largestOr Scalar.zero ((targetsOf .series rungs).map Extent.descent) ≤
        (twoportLines settings rungs).rail := by
  have clearance := nonnegative.railClearance
  simp only [twoportLines]
  split
  · linarith
  · rw [Scalar.larger_eq]
    exact (le_max_left _ _).trans (le_add_of_nonneg_right clearance)

theorem series_above_rail (nonnegative : settings.IsNonnegative)
    (isRung : (.series, target) ∈ rungs) :
    (twoportLines settings rungs).signal + target.descent ≤
      (twoportLines settings rungs).rail := by
  have bound := le_largestOr (List.mem_map_of_mem (f := Extent.descent) (mem_targetsOf.mpr isRung))
  linarith [@lowest_le_rail settings rungs nonnegative]

theorem shunt_above_rail (nonnegative : settings.IsNonnegative)
    (isRung : (.shunt, target) ∈ rungs) :
    (twoportLines settings rungs).shuntTop + target.width ≤
      (twoportLines settings rungs).rail := by
  have clearance := nonnegative.railClearance
  have isShunt := mem_targetsOf.mpr isRung
  simp only [twoportLines]
  generalize targetsOf .shunt rungs = shunts at isShunt
  cases shunts with
  | nil => cases isShunt
  | cons first rest =>
      have bound := (Scalar.largest_spec first.width (rest.map Extent.width)).2 target.width <| by
        rw [← List.map_cons (f := Extent.width)]
        exact List.mem_map_of_mem isShunt
      simp only [Scalar.larger_eq]
      have longest := le_max_right
        ((twoportLines settings rungs).signal +
          Scalar.largestOr Scalar.zero ((targetsOf .series rungs).map Extent.descent))
        ((twoportLines settings rungs).shuntTop +
          Scalar.largest first.width (rest.map Extent.width))
      simp only [twoportLines] at longest
      linarith

end

/-! ## Nodes of the signal line -/

section

variable {links : List (Link Circuit)} {index : Nat} {target : Circuit}

@[simp]
theorem signalBefore_zero : Circuit.signalBefore links 0 = 0 := by
  simp [Circuit.signalBefore]

theorem signalBefore_series (found : links[index]? = some ⟨.series, target⟩) :
    Circuit.signalBefore links (index + 1) = Circuit.signalBefore links index + 1 := by
  simp [Circuit.signalBefore, List.take_add_one, found]

theorem signalBefore_shunt (found : links[index]? = some ⟨.shunt, target⟩) :
    Circuit.signalBefore links (index + 1) = Circuit.signalBefore links index := by
  simp [Circuit.signalBefore, List.take_add_one, found]

end

/-! ## The row of slots -/

section

variable {settings : LayoutSettings Rat} {links : List (Link Circuit)}
  {parts : List (Measure Rat)} {Label : Type} {labels : Terminal → Label}

/-- The kinds of the links with the extents of their targets. -/
def rungs (links : List (Link Circuit)) (parts : List (Measure Rat)) :
    List (LinkKind × Extent Rat) :=
  (links.map Link.kind).zip (parts.map Measure.extent)

theorem rungs_getElem? {index : Nat} {rung : LinkKind × Extent Rat} :
    (rungs links parts)[index]? = some rung ↔ ∃ link part, links[index]? = some link ∧
      parts[index]? = some part ∧ rung = (link.kind, part.extent) := by
  rw [rungs, List.getElem?_zip_eq_some, List.getElem?_map, List.getElem?_map,
    Option.map_eq_some_iff, Option.map_eq_some_iff]
  constructor
  · rintro ⟨⟨link, foundLink, sameKind⟩, part, foundPart, sameExtent⟩
    exact ⟨link, part, foundLink, foundPart, Prod.ext sameKind.symm sameExtent.symm⟩
  · rintro ⟨link, part, foundLink, foundPart, rfl⟩
    exact ⟨⟨link, foundLink, rfl⟩, part, foundPart, rfl⟩

/-- The lines of the twoport with these links and targets. -/
abbrev ladderLines (settings : LayoutSettings Rat) (links : List (Link Circuit))
    (parts : List (Measure Rat)) : TwoportLines Rat :=
  twoportLines settings (rungs links parts)

/-- The labels of the ports among those of all terminals. -/
def portLabels (labels : Terminal → Label) : PortLabels Label :=
  fun path side => labels (.port path side)

open Picture

/-- What is drawn in a slot, from its left edge on. -/
def slotPicture (settings : LayoutSettings Rat) (lines : TwoportLines Rat)
    (rung : LinkKind × Extent Rat) (line rail : Label) (picture : Picture Label) :
    Picture Label :=
  match rung.1 with
  | .series => Moved ⟨0, lines.signal - rung.2.height / 2⟩ picture
  | .shunt =>
      Hanging (slotWidth settings rung) lines.shuntTop rung.2.width rung.2.height line rail picture

/-- The pictures of the slots, by their positions. -/
def rungPictures (settings : LayoutSettings Rat) (links : List (Link Circuit))
    (parts : List (Measure Rat)) (labels : Terminal → Label) (index : Nat) : Picture Label :=
  fun wire label => ∃ link part, links[index]? = some link ∧ parts[index]? = some part ∧
    slotPicture settings (ladderLines settings links parts) (link.kind, part.extent)
      (labels (.signal (Circuit.signalBefore links index))) (labels .rail)
      (Marks settings part ((portLabels labels).within index)) wire label

/-- The row of slots. -/
def rowPicture (settings : LayoutSettings Rat) (links : List (Link Circuit))
    (parts : List (Measure Rat)) (labels : Terminal → Label) : Picture Label :=
  Row ((rungs links parts).map (slotWidth settings)) (rungPictures settings links parts labels)

/-- The slots and the rail below them. -/
def ladderPicture (settings : LayoutSettings Rat) (links : List (Link Circuit))
    (parts : List (Measure Rat)) (labels : Terminal → Label) : Picture Label :=
  Union
    (Area (fun point => (ladderLines settings links parts).rail ≤ point.y) (labels .rail))
    (rowPicture settings links parts labels)

variable (nonnegative : settings.IsNonnegative)
  (roomy : ∀ part ∈ parts, part.extent.IsRoomy)
  (clean : ∀ part ∈ parts, Clean settings part)
  (sameParts : parts.map Measure.circuit = links.map Link.target)
  (agree : ∀ first second, (Circuit.twoport links).Tie first second →
    labels first = labels second)

/-- A slot has room for its target. -/
theorem le_slotWidth {kind : LinkKind} {extent : Extent Rat} (roomy : extent.IsRoomy) :
    20 ≤ slotWidth settings (kind, extent) ∧
      (kind = .series → slotWidth settings (kind, extent) = extent.width) ∧
      (kind = .shunt → extent.height ≤ slotWidth settings (kind, extent)) := by
  have wide := roomy.wide
  have high := roomy.high
  cases kind with
  | series => exact ⟨by simp only [slotWidth]; linarith, fun _ => rfl, nofun⟩
  | shunt =>
      have fits : extent.height ≤ slotWidth settings (.shunt, extent) := by
        simp only [slotWidth, Scalar.larger_eq]
        exact le_max_right _ _
      exact ⟨high.trans fits, nofun, fun _ => fits⟩

include clean sameParts agree in
theorem clean_target {index : Nat} {link : Link Circuit} {part : Measure Rat}
    (foundLink : links[index]? = some link) (foundPart : parts[index]? = some part) :
    Tidy part.extent.width (labels (.signal (Circuit.signalBefore links index)))
        (labels (.port [index] .right)) (Marks settings part ((portLabels labels).within index)) ∧
      Within 10 (part.extent.height - 10)
        (Marks settings part ((portLabels labels).within index)) := by
  have agreePorts : (portLabels labels).Agree (.twoport links) := fun _ _ _ _ tie => agree _ _ tie
  have foundCircuit : (Circuit.twoport links).parts[index]? = some part.circuit := by
    rw [Circuit.parts, ← sameParts, List.getElem?_map, foundPart, Option.map_some]
  have started : (portLabels labels).within index [] .left =
      labels (.signal (Circuit.signalBefore links index)) :=
    agree _ _ (.linkStart (List.getElem?_eq_some_iff.mp foundLink).1)
  have targetClean := clean part (List.mem_of_getElem? foundPart) Label
    ((portLabels labels).within index) (agreePorts.within foundCircuit)
  rwa [started] at targetClean

include roomy clean sameParts agree in
theorem tidy_slot {index : Nat} {link : Link Circuit} {part : Measure Rat}
    (foundLink : links[index]? = some link) (foundPart : parts[index]? = some part) :
    Tidy (slotWidth settings (link.kind, part.extent))
      (labels (.signal (Circuit.signalBefore links index)))
      (labels (.signal (Circuit.signalBefore links (index + 1))))
      (slotPicture settings (ladderLines settings links parts) (link.kind, part.extent)
        (labels (.signal (Circuit.signalBefore links index))) (labels .rail)
        (Marks settings part ((portLabels labels).within index))) := by
  obtain ⟨targetTidy, targetWithin⟩ := clean_target clean sameParts agree foundLink foundPart
  have partRoomy := roomy part (List.mem_of_getElem? foundPart)
  obtain ⟨kind, target⟩ := link
  cases kind with
  | series =>
      rw [signalBefore_series foundLink, ← agree _ _ (.seriesEnd foundLink)]
      exact targetTidy.moved le_rfl (zero_add _).le
  | shunt =>
      rw [agree _ _ (.shuntEnd foundLink)] at targetTidy
      rw [signalBefore_shunt foundLink]
      exact targetTidy.hanging targetWithin ((le_slotWidth partRoomy).2.2 rfl) partRoomy.high
        (by linarith [partRoomy.wide])

include nonnegative roomy clean sameParts agree in
/-- Only the rail comes near the rail. -/
theorem grounded_slot {index : Nat} {link : Link Circuit} {part : Measure Rat}
    (foundLink : links[index]? = some link) (foundPart : parts[index]? = some part)
    {wire : Wire Rat} {label : Label}
    (isMark : slotPicture settings (ladderLines settings links parts)
      (link.kind, part.extent) (labels (.signal (Circuit.signalBefore links index))) (labels .rail)
      (Marks settings part ((portLabels labels).within index)) wire label) :
    ∀ point ∈ wire.ends, (ladderLines settings links parts).rail ≤ point.y + 1 →
      label = labels .rail := by
  intro point isEnd close
  obtain ⟨targetTidy, targetWithin⟩ := clean_target clean sameParts agree foundLink foundPart
  have partRoomy := roomy part (List.mem_of_getElem? foundPart)
  have isRung := List.mem_of_getElem? (rungs_getElem?.mpr ⟨link, part, foundLink, foundPart, rfl⟩)
  obtain ⟨kind, target⟩ := link
  cases kind with
  | series =>
      obtain ⟨inner, isInner, rfl⟩ := isMark
      obtain ⟨stop, isStop, rfl⟩ := Wire.mem_ends_shifted.mp isEnd
      have low := (targetWithin isInner stop isStop).2
      have above := series_above_rail nonnegative isRung
      rw [partRoomy.isCentred.hasCentredPorts.descent] at above
      simp only [Point.add_y] at close
      linarith
  | shunt =>
      have above := shunt_above_rail nonnegative isRung
      rw [agree _ _ (.shuntEnd foundLink)] at targetTidy
      rcases isMark with isUpper | isLower | isTurned
      · have high := (isUpper.2 point isEnd).2.2
        have long := partRoomy.wide
        linarith
      · exact isLower.1
      · have bounds := turned_bounds targetTidy targetWithin ((le_slotWidth partRoomy).2.2 rfl)
          isTurned point isEnd
        exact bounds.2.2.2 (above.trans close)

theorem exists_rung {index : Nat} {width : Rat}
    (found : ((rungs links parts).map (slotWidth settings))[index]? = some width) :
    ∃ link part, links[index]? = some link ∧ parts[index]? = some part ∧
      slotWidth settings (link.kind, part.extent) = width := by
  rw [List.getElem?_map, Option.map_eq_some_iff] at found
  obtain ⟨rung, foundRung, rfl⟩ := found
  obtain ⟨link, part, foundLink, foundPart, rfl⟩ := rungs_getElem?.mp foundRung
  exact ⟨link, part, foundLink, foundPart, rfl⟩

include roomy clean sameParts agree in
theorem isRow_rungs : IsRow ((rungs links parts).map (slotWidth settings))
    (fun index => labels (.signal (Circuit.signalBefore links index)))
    (fun index => labels (.signal (Circuit.signalBefore links (index + 1))))
    (rungPictures settings links parts labels) where
  wide := by
    intro width isWidth
    obtain ⟨index, found⟩ := List.mem_iff_getElem?.mp isWidth
    obtain ⟨link, part, -, foundPart, rfl⟩ := exists_rung found
    linarith [(@le_slotWidth settings link.kind _ (roomy part (List.mem_of_getElem? foundPart))).1]
  tidy := by
    intro index width found
    obtain ⟨link, part, foundLink, foundPart, rfl⟩ := exists_rung found
    refine (tidy_slot roomy clean sameParts agree foundLink foundPart).mono ?_
    rintro wire label ⟨otherLink, other, otherFoundLink, otherFound, isMark⟩
    obtain rfl : otherLink = link := Option.some_inj.mp (otherFoundLink.symm.trans foundLink)
    obtain rfl : other = part := Option.some_inj.mp (otherFound.symm.trans foundPart)
    exact isMark
  meet _ _ := rfl

include nonnegative roomy clean sameParts agree in
/-- Wires of a twoport with different labels are apart. -/
theorem separated_ladder : Network.Separated (ladderPicture settings links parts labels) := by
  refine separated_union (separated_area _ _) (isRow_rungs roomy clean sameParts agree).separated ?_
  refine clear_of_high .vertical (fun _ _ isMark => isMark) ?_
  rintro _ label ⟨index, -, inner, ⟨link, part, foundLink, foundPart, isMark⟩, rfl⟩
  intro point isEnd close
  obtain ⟨stop, isStop, rfl⟩ := Wire.mem_ends_shifted.mp isEnd
  simp only [Axis.of, Point.add_y, zero_add] at close
  exact grounded_slot nonnegative roomy clean sameParts agree foundLink foundPart isMark stop isStop
    close

end

end Schematic
