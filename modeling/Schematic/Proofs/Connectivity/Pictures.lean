import Schematic.Proofs.Connectivity.Apart

/-!
# Tidy pictures

A picture is a set of labelled wires.  It is tidy if it keeps to a strip of the
plane, if only one label comes near the left edge of the strip and only one
comes near its right edge, and if wires with different labels are apart.  Tidy
pictures can be put into a row, stacked, and extended to the edges of a wider
strip.
-/

namespace Schematic

/-! ## Shifted wires -/

namespace Wire

theorem mem_ends_shifted {wire : Wire Rat} {offset point : Point Rat} :
    point ∈ (wire.shifted offset).ends ↔ ∃ stop ∈ wire.ends, offset + stop = point := by
  simp [shifted, ends, eq_comm]

theorem shifted_shifted (wire : Wire Rat) (first second : Point Rat) :
    (wire.shifted first).shifted second = wire.shifted (second + first) := by
  simp only [shifted, Wire.mk.injEq]
  constructor <;> apply Point.eq_of_coordinates <;> simp [add_assoc]

theorem shifted_zero (wire : Wire Rat) : wire.shifted ⟨0, 0⟩ = wire := by
  cases wire
  simp only [shifted, Wire.mk.injEq]
  constructor <;> apply Point.eq_of_coordinates <;> simp

theorem Before.shifted {axis : Axis} {first second : Wire Rat} (before : first.Before axis second)
    (offset : Point Rat) : (first.shifted offset).Before axis (second.shifted offset) := by
  intro one isOne other isOther
  obtain ⟨oneStop, isOneStop, rfl⟩ := mem_ends_shifted.mp isOne
  obtain ⟨otherStop, isOtherStop, rfl⟩ := mem_ends_shifted.mp isOther
  have gap := before oneStop isOneStop otherStop isOtherStop
  rw [Axis.of_add, Axis.of_add]
  linarith

theorem Apart.shifted {first second : Wire Rat} (apart : first.Apart second)
    (offset : Point Rat) : (first.shifted offset).Apart (second.shifted offset) := by
  obtain ⟨axis, forwards | backwards⟩ := apart
  · exact ⟨axis, .inl (forwards.shifted offset)⟩
  · exact ⟨axis, .inr (backwards.shifted offset)⟩

end Wire

/-! ## Pictures -/

/-- Wires with labels. -/
abbrev Picture (Label : Type) := Wire Rat → Label → Prop

namespace Picture

open Network

variable {Label : Type} {left right : Label} {width : Rat} {picture first second : Picture Label}

/-- A picture in a strip from zero to the given width. -/
structure Tidy (width : Rat) (left right : Label) (picture : Picture Label) : Prop where
  /-- No end of a wire is outside the strip. -/
  span : ∀ ⦃wire label⦄, picture wire label → ∀ point ∈ wire.ends, 0 ≤ point.x ∧ point.x ≤ width
  /-- Near the left edge there is one label. -/
  leftEdge : ∀ ⦃wire label⦄, picture wire label → ∀ point ∈ wire.ends, point.x ≤ 1 → label = left
  /-- Near the right edge there is one label. -/
  rightEdge : ∀ ⦃wire label⦄, picture wire label → ∀ point ∈ wire.ends, width ≤ point.x + 1 →
    label = right
  /-- Wires with different labels are apart. -/
  separated : Separated picture

/-- A picture between two heights. -/
def Within (top bottom : Rat) (picture : Picture Label) : Prop :=
  ∀ ⦃wire label⦄, picture wire label → ∀ point ∈ wire.ends, top ≤ point.y ∧ point.y ≤ bottom

/-- The wires of two pictures. -/
def Union (first second : Picture Label) : Picture Label :=
  fun wire label => first wire label ∨ second wire label

/-- Wires of the first picture and of the second one that have different labels
are apart. -/
def Clear (first second : Picture Label) : Prop :=
  ∀ ⦃one oneLabel other otherLabel⦄, first one oneLabel → second other otherLabel →
    oneLabel = otherLabel ∨ one.Apart other

theorem separated_union (firstSeparated : Separated first) (secondSeparated : Separated second)
    (clear : Clear first second) : Separated (Union first second) := by
  rintro one oneLabel other otherLabel (oneFirst | oneSecond) (otherFirst | otherSecond)
  · exact firstSeparated oneFirst otherFirst
  · exact clear oneFirst otherSecond
  · rcases clear otherFirst oneSecond with same | apart
    · exact .inl same.symm
    · exact .inr apart.symm
  · exact secondSeparated oneSecond otherSecond

theorem Tidy.union (firstTidy : Tidy width left right first)
    (secondTidy : Tidy width left right second) (clear : Clear first second) :
    Tidy width left right (Union first second) where
  span := by
    rintro wire label (inFirst | inSecond)
    · exact firstTidy.span inFirst
    · exact secondTidy.span inSecond
  leftEdge := by
    rintro wire label (inFirst | inSecond)
    · exact firstTidy.leftEdge inFirst
    · exact secondTidy.leftEdge inSecond
  rightEdge := by
    rintro wire label (inFirst | inSecond)
    · exact firstTidy.rightEdge inFirst
    · exact secondTidy.rightEdge inSecond
  separated := separated_union firstTidy.separated secondTidy.separated clear

theorem Within.mono {top bottom : Rat} (within : Within top bottom second)
    (included : ∀ ⦃wire label⦄, first wire label → second wire label) :
    Within top bottom first :=
  fun _ _ isMark => within (included isMark)

theorem Tidy.mono (tidy : Tidy width left right second)
    (included : ∀ ⦃wire label⦄, first wire label → second wire label) :
    Tidy width left right first where
  span _ _ isMark := tidy.span (included isMark)
  leftEdge _ _ isMark := tidy.leftEdge (included isMark)
  rightEdge _ _ isMark := tidy.rightEdge (included isMark)
  separated _ _ _ _ isFirst isSecond := tidy.separated (included isFirst) (included isSecond)

/-! ## Wires at the edges -/

/-- Wires with one label, up to some coordinate, are clear of a picture that has
this label wherever it comes near. -/
theorem clear_of_low (axis : Axis) {reach : Rat} {shared : Label}
    (low : ∀ ⦃wire label⦄, first wire label → label = shared ∧
      ∀ point ∈ wire.ends, axis.of point ≤ reach)
    (near : ∀ ⦃wire label⦄, second wire label → ∀ point ∈ wire.ends,
      axis.of point ≤ reach + 1 → label = shared) : Clear first second := by
  intro one oneLabel other otherLabel isOne isOther
  obtain ⟨rfl, within⟩ := low isOne
  by_cases meets : ∃ point ∈ other.ends, axis.of point ≤ reach + 1
  · obtain ⟨point, isEnd, close⟩ := meets
    exact .inl (near isOther point isEnd close).symm
  · refine .inr ⟨axis, .inl fun point isEnd otherPoint isOtherEnd => ?_⟩
    have far : reach + 1 < axis.of otherPoint := by
      by_contra close
      exact meets ⟨otherPoint, isOtherEnd, not_lt.mp close⟩
    linarith [within point isEnd]

/-- Wires with one label, from some coordinate on, are clear of a picture that
has this label wherever it comes near. -/
theorem clear_of_high (axis : Axis) {reach : Rat} {shared : Label}
    (high : ∀ ⦃wire label⦄, first wire label → label = shared ∧
      ∀ point ∈ wire.ends, reach ≤ axis.of point)
    (near : ∀ ⦃wire label⦄, second wire label → ∀ point ∈ wire.ends,
      reach ≤ axis.of point + 1 → label = shared) : Clear first second := by
  intro one oneLabel other otherLabel isOne isOther
  obtain ⟨rfl, within⟩ := high isOne
  by_cases meets : ∃ point ∈ other.ends, reach ≤ axis.of point + 1
  · obtain ⟨point, isEnd, close⟩ := meets
    exact .inl (near isOther point isEnd close).symm
  · refine .inr ⟨axis, .inr fun otherPoint isOtherEnd point isEnd => ?_⟩
    have far : axis.of otherPoint + 1 < reach := by
      by_contra close
      exact meets ⟨otherPoint, isOtherEnd, not_lt.mp close⟩
    linarith [within point isEnd]

/-- Wires with the left label that stay away from the right edge. -/
theorem tidy_of_left
    (atLeft : ∀ ⦃wire label⦄, picture wire label → label = left ∧
      ∀ point ∈ wire.ends, 0 ≤ point.x ∧ point.x + 1 < width) :
    Tidy width left right picture where
  span _ _ isMark point isEnd := by
    obtain ⟨low, high⟩ := (atLeft isMark).2 point isEnd
    exact ⟨low, by linarith⟩
  leftEdge _ _ isMark _ _ _ := (atLeft isMark).1
  rightEdge _ _ isMark point isEnd close := by
    obtain ⟨low, high⟩ := (atLeft isMark).2 point isEnd
    exact absurd close (not_le.mpr high)
  separated _ _ _ _ isFirst isSecond := .inl ((atLeft isFirst).1.trans (atLeft isSecond).1.symm)

/-- Wires with the right label that stay away from the left edge. -/
theorem tidy_of_right
    (atRight : ∀ ⦃wire label⦄, picture wire label → label = right ∧
      ∀ point ∈ wire.ends, 1 < point.x ∧ point.x ≤ width) :
    Tidy width left right picture where
  span _ _ isMark point isEnd := by
    obtain ⟨low, high⟩ := (atRight isMark).2 point isEnd
    exact ⟨by linarith, high⟩
  leftEdge _ _ isMark point isEnd close := by
    obtain ⟨low, high⟩ := (atRight isMark).2 point isEnd
    exact absurd close (not_le.mpr low)
  rightEdge _ _ isMark _ _ _ := (atRight isMark).1
  separated _ _ _ _ isFirst isSecond := .inl ((atRight isFirst).1.trans (atRight isSecond).1.symm)

/-! ## Several pictures in their places -/

/-- Pictures that are moved to corners of their own. -/
def Placed (count : Nat) (corners : Nat → Point Rat) (pictures : Nat → Picture Label) :
    Picture Label :=
  fun wire label => ∃ index < count, ∃ inner, pictures index inner label ∧
    wire = inner.shifted (corners index)

section

variable {count : Nat} {corners : Nat → Point Rat} {pictures : Nat → Picture Label}

theorem separated_placed (each : ∀ index < count, Separated (pictures index))
    (between : ∀ low high, low < high → high < count →
      ∀ one oneLabel other otherLabel, pictures low one oneLabel → pictures high other otherLabel →
        oneLabel = otherLabel ∨ (one.shifted (corners low)).Apart (other.shifted (corners high))) :
    Separated (Placed count corners pictures) := by
  rintro _ oneLabel _ otherLabel ⟨low, lowLt, one, isOne, rfl⟩ ⟨high, highLt, other, isOther, rfl⟩
  rcases lt_trichotomy low high with before | rfl | after
  · exact between low high before highLt one oneLabel other otherLabel isOne isOther
  · exact (each low lowLt isOne isOther).imp_right fun apart => apart.shifted _
  · rcases between high low after lowLt other otherLabel one oneLabel isOther isOne with
      same | apart
    · exact .inl same.symm
    · exact .inr apart.symm

/-- Pictures of one strip that lie below one another make one picture of it. -/
theorem Tidy.stack (each : ∀ index < count, Tidy width left right (pictures index))
    (sameStrip : ∀ index, (corners index).x = 0)
    (below : ∀ low high, low < high → high < count →
      ∀ one oneLabel other otherLabel, pictures low one oneLabel → pictures high other otherLabel →
        (one.shifted (corners low)).Before .vertical (other.shifted (corners high))) :
    Tidy width left right (Placed count corners pictures) where
  span := by
    rintro _ label ⟨index, indexLt, inner, isMark, rfl⟩ point isEnd
    obtain ⟨stop, isStop, rfl⟩ := Wire.mem_ends_shifted.mp isEnd
    simpa [sameStrip] using (each index indexLt).span isMark stop isStop
  leftEdge := by
    rintro _ label ⟨index, indexLt, inner, isMark, rfl⟩ point isEnd close
    obtain ⟨stop, isStop, rfl⟩ := Wire.mem_ends_shifted.mp isEnd
    exact (each index indexLt).leftEdge isMark stop isStop (by simpa [sameStrip] using close)
  rightEdge := by
    rintro _ label ⟨index, indexLt, inner, isMark, rfl⟩ point isEnd close
    obtain ⟨stop, isStop, rfl⟩ := Wire.mem_ends_shifted.mp isEnd
    exact (each index indexLt).rightEdge isMark stop isStop (by simpa [sameStrip] using close)
  separated := by
    refine separated_placed (fun index indexLt => (each index indexLt).separated) ?_
    intro low high before highLt one oneLabel other otherLabel isOne isOther
    exact .inr ⟨.vertical, .inl (below low high before highLt one oneLabel other otherLabel
      isOne isOther)⟩

end

/-! ## Rows -/

/-- Tidy pictures for a row of strips, with the same labels where they meet. -/
structure IsRow (widths : List Rat) (lefts rights : Nat → Label) (pictures : Nat → Picture Label) :
    Prop where
  wide : ∀ width ∈ widths, 3 ≤ width
  tidy : ∀ index width, widths[index]? = some width →
    Tidy width (lefts index) (rights index) (pictures index)
  meet : ∀ index, index + 1 < widths.length → rights index = lefts (index + 1)

/-- The pictures of a row, side by side. -/
def Row (widths : List Rat) (pictures : Nat → Picture Label) : Picture Label :=
  Placed widths.length (fun index => ⟨startOf widths index, 0⟩) pictures

namespace IsRow

variable {widths : List Rat} {pictures : Nat → Picture Label} {lefts rights : Nat → Label}
  {index : Nat} {wire : Wire Rat} {label : Label}

theorem nonnegative (isRow : IsRow widths lefts rights pictures) : ∀ width ∈ widths, 0 ≤ width :=
  fun width member => by linarith [isRow.wide width member]

theorem exists_strip (isRow : IsRow widths lefts rights pictures)
    (inRange : index < widths.length) :
    ∃ width, widths[index]? = some width ∧ 3 ≤ width ∧
      Tidy width (lefts index) (rights index) (pictures index) :=
  have found := List.getElem?_eq_getElem inRange
  ⟨widths[index], found, isRow.wide _ (List.getElem_mem inRange), isRow.tidy index _ found⟩

/-- What is near the left edge of a row is at the left edge of the first strip. -/
theorem label_left (isRow : IsRow widths lefts rights pictures) (inRange : index < widths.length)
    (isMark : pictures index wire label) {point : Point Rat} (isEnd : point ∈ wire.ends)
    (close : startOf widths index + point.x ≤ 1) : label = lefts 0 := by
  obtain ⟨width, found, -, tidy⟩ := isRow.exists_strip inRange
  cases index with
  | zero =>
      rw [startOf_zero, zero_add] at close
      exact tidy.leftEdge isMark point isEnd close
  | succ index =>
      obtain ⟨firstWidth, firstFound, firstWide, -⟩ :=
        isRow.exists_strip (Nat.zero_lt_of_lt inRange)
      have beyond := startOf_add_le isRow.nonnegative firstFound (Nat.succ_pos index)
      rw [startOf_zero] at beyond
      linarith [(tidy.span isMark point isEnd).1]

/-- What is near the right edge of a row is at the right edge of the last strip. -/
theorem label_right (isRow : IsRow widths lefts rights pictures)
    (finishes : ∀ index, index + 1 = widths.length → rights index = right)
    (inRange : index < widths.length) (isMark : pictures index wire label) {point : Point Rat}
    (isEnd : point ∈ wire.ends) (close : widths.sum ≤ startOf widths index + point.x + 1) :
    label = right := by
  obtain ⟨width, found, -, tidy⟩ := isRow.exists_strip inRange
  have inside := (tidy.span isMark point isEnd).2
  rcases Nat.lt_or_ge (index + 1) widths.length with nextLt | isLast
  · obtain ⟨nextWidth, nextFound, nextWide, -⟩ := isRow.exists_strip nextLt
    have before := startOf_add_le isRow.nonnegative found (Nat.lt_succ_self index)
    have beyond := startOf_add_le_sum isRow.nonnegative nextFound
    linarith
  · have last : index + 1 = widths.length := by omega
    have whole : startOf widths index + width = widths.sum := by
      rw [← startOf_succ found, last, startOf_length]
    rw [← finishes index last]
    exact tidy.rightEdge isMark point isEnd (by linarith)

/-- Between strips of a row there is another one, or they meet and the labels near
their common edge are the same. -/
theorem label_between (isRow : IsRow widths lefts rights pictures) {low high : Nat}
    (before : low < high) (highLt : high < widths.length) {one other : Wire Rat}
    {oneLabel otherLabel : Label} (isOne : pictures low one oneLabel)
    (isOther : pictures high other otherLabel) {first second : Point Rat}
    (isFirst : first ∈ one.ends) (isSecond : second ∈ other.ends)
    (close : startOf widths high + second.x ≤ startOf widths low + first.x + 1) :
    oneLabel = otherLabel := by
  obtain ⟨lowWidth, lowFound, -, lowTidy⟩ := isRow.exists_strip (before.trans highLt)
  obtain ⟨highWidth, highFound, -, highTidy⟩ := isRow.exists_strip highLt
  have lowHigh := (lowTidy.span isOne first isFirst).2
  have highLow := (highTidy.span isOther second isSecond).1
  rcases Nat.lt_or_ge (low + 1) high with between | adjacent
  · obtain ⟨nextWidth, nextFound, nextWide, -⟩ := isRow.exists_strip (between.trans highLt)
    have lowEnd := startOf_add_le isRow.nonnegative lowFound (Nat.lt_succ_self low)
    have nextEnd := startOf_add_le isRow.nonnegative nextFound between
    linarith
  · obtain rfl : high = low + 1 := by omega
    rw [startOf_succ lowFound] at close
    rw [lowTidy.rightEdge isOne first isFirst (by linarith), isRow.meet low highLt,
      highTidy.leftEdge isOther second isSecond (by linarith)]

theorem separated (isRow : IsRow widths lefts rights pictures) :
    Separated (Row widths pictures) := by
  refine separated_placed (fun index inRange => ?_) ?_
  · obtain ⟨width, -, -, tidy⟩ := isRow.exists_strip inRange
    exact tidy.separated
  · intro low high before highLt one oneLabel other otherLabel isOne isOther
    by_contra! neither
    obtain ⟨different, together⟩ := neither
    refine together ⟨.horizontal, .inl fun point isEnd otherPoint isOtherEnd => ?_⟩
    obtain ⟨stop, isStop, rfl⟩ := Wire.mem_ends_shifted.mp isEnd
    obtain ⟨otherStop, isOtherStop, rfl⟩ := Wire.mem_ends_shifted.mp isOtherEnd
    by_contra close
    exact different (isRow.label_between before highLt isOne isOther isStop isOtherStop
      (not_lt.mp close))

/-- A row of tidy pictures is tidy. -/
theorem tidy_row (isRow : IsRow widths lefts rights pictures)
    (finishes : ∀ index, index + 1 = widths.length → rights index = right) :
    Tidy widths.sum (lefts 0) right (Row widths pictures) where
  span := by
    rintro _ label ⟨index, inRange, inner, isMark, rfl⟩ point isEnd
    obtain ⟨stop, isStop, rfl⟩ := Wire.mem_ends_shifted.mp isEnd
    obtain ⟨width, found, -, tidy⟩ := isRow.exists_strip inRange
    obtain ⟨low, high⟩ := tidy.span isMark stop isStop
    have start := startOf_nonneg isRow.nonnegative index
    have finish := startOf_add_le_sum isRow.nonnegative found
    constructor <;> simp only [Point.add_x] <;> linarith
  leftEdge := by
    rintro _ label ⟨index, inRange, inner, isMark, rfl⟩ point isEnd close
    obtain ⟨stop, isStop, rfl⟩ := Wire.mem_ends_shifted.mp isEnd
    exact isRow.label_left inRange isMark isStop close
  rightEdge := by
    rintro _ label ⟨index, inRange, inner, isMark, rfl⟩ point isEnd close
    obtain ⟨stop, isStop, rfl⟩ := Wire.mem_ends_shifted.mp isEnd
    exact isRow.label_right finishes inRange isMark isStop close
  separated := isRow.separated

end IsRow

/-! ## Wider strips -/

/-- A single wire with a label. -/
def Only (wire : Wire Rat) (label : Label) : Picture Label :=
  fun other otherLabel => other = wire ∧ otherLabel = label

/-- A picture that is moved as a whole. -/
def Moved (offset : Point Rat) (picture : Picture Label) : Picture Label :=
  fun wire label => ∃ inner, picture inner label ∧ wire = inner.shifted offset

/-- A picture that is moved to the right, with stubs to the edges of a wider
strip. -/
def Widened (width indent inner line : Rat) (left right : Label) (picture : Picture Label) :
    Picture Label :=
  Union (Only ⟨⟨0, line⟩, ⟨indent, line⟩⟩ left) <|
    Union (Only ⟨⟨indent + inner, line⟩, ⟨width, line⟩⟩ right) (Moved ⟨indent, 0⟩ picture)

theorem Tidy.moved {inner : Rat} (tidy : Tidy inner left right picture) {offset : Point Rat}
    (nonnegative : 0 ≤ offset.x) (fits : offset.x + inner ≤ width) :
    Tidy width left right (Moved offset picture) where
  span := by
    rintro _ label ⟨wire, isMark, rfl⟩ point isEnd
    obtain ⟨stop, isStop, rfl⟩ := Wire.mem_ends_shifted.mp isEnd
    obtain ⟨low, high⟩ := tidy.span isMark stop isStop
    constructor <;> simp only [Point.add_x] <;> linarith
  leftEdge := by
    rintro _ label ⟨wire, isMark, rfl⟩ point isEnd close
    obtain ⟨stop, isStop, rfl⟩ := Wire.mem_ends_shifted.mp isEnd
    simp only [Point.add_x] at close
    exact tidy.leftEdge isMark stop isStop (by linarith)
  rightEdge := by
    rintro _ label ⟨wire, isMark, rfl⟩ point isEnd close
    obtain ⟨stop, isStop, rfl⟩ := Wire.mem_ends_shifted.mp isEnd
    simp only [Point.add_x] at close
    exact tidy.rightEdge isMark stop isStop (by linarith)
  separated := by
    rintro _ oneLabel _ otherLabel ⟨one, isOne, rfl⟩ ⟨other, isOther, rfl⟩
    exact (tidy.separated isOne isOther).imp_right fun apart => apart.shifted _

theorem Tidy.widened {inner indent : Rat} (tidy : Tidy inner left right picture)
    (nonnegative : 0 ≤ indent) (fits : indent + inner ≤ width) (wide : 3 ≤ inner) (line : Rat) :
    Tidy width left right (Widened width indent inner line left right picture) := by
  have moved := @Tidy.moved _ left right width picture inner tidy ⟨indent, 0⟩ nonnegative fits
  have rightStub : Tidy width left right
      (Only ⟨⟨indent + inner, line⟩, ⟨width, line⟩⟩ right) := by
    apply tidy_of_right
    rintro _ _ ⟨rfl, rfl⟩
    refine ⟨rfl, ?_⟩
    simp only [Wire.ends, List.mem_cons, List.not_mem_nil, or_false]
    rintro point (rfl | rfl)
    · exact ⟨by linarith, fits⟩
    · exact ⟨by linarith, le_rfl⟩
  have leftStub : Tidy width left right (Only ⟨⟨0, line⟩, ⟨indent, line⟩⟩ left) := by
    apply tidy_of_left
    rintro _ _ ⟨rfl, rfl⟩
    refine ⟨rfl, ?_⟩
    simp only [Wire.ends, List.mem_cons, List.not_mem_nil, or_false]
    rintro point (rfl | rfl)
    · exact ⟨le_rfl, by linarith⟩
    · exact ⟨nonnegative, by linarith⟩
  have rightClear : Clear (Only ⟨⟨indent + inner, line⟩, ⟨width, line⟩⟩ right)
      (Moved ⟨indent, 0⟩ picture) := by
    refine @clear_of_high _ _ _ .horizontal (indent + inner) right ?_ ?_
    · rintro _ _ ⟨rfl, rfl⟩
      simpa [Wire.ends, Axis.of] using fits
    · rintro _ label ⟨wire, isMark, rfl⟩ point isEnd close
      obtain ⟨stop, isStop, rfl⟩ := Wire.mem_ends_shifted.mp isEnd
      simp only [Axis.of, Point.add_x] at close
      exact tidy.rightEdge isMark stop isStop (by linarith)
  refine leftStub.union (rightStub.union moved rightClear)
    (@clear_of_low _ _ _ .horizontal indent left ?_ ?_)
  · rintro _ _ ⟨rfl, rfl⟩
    simpa [Wire.ends, Axis.of] using nonnegative
  · rintro wire label (⟨rfl, rfl⟩ | ⟨inner, isMark, rfl⟩) point isEnd close
    · simp only [Wire.ends, List.mem_cons, List.not_mem_nil, or_false] at isEnd
      rcases isEnd with rfl | rfl <;> simp only [Axis.of] at close <;> linarith
    · obtain ⟨stop, isStop, rfl⟩ := Wire.mem_ends_shifted.mp isEnd
      simp only [Axis.of, Point.add_x] at close
      exact tidy.leftEdge isMark stop isStop (by linarith)

theorem Within.widened {inner indent top bottom line : Rat} (within : Within top bottom picture)
    (below : top ≤ line) (above : line ≤ bottom) :
    Within top bottom (Widened width indent inner line left right picture) := by
  rintro wire label (⟨rfl, rfl⟩ | ⟨rfl, rfl⟩ | ⟨other, isMark, rfl⟩) point isEnd
  · simp only [Wire.ends, List.mem_cons, List.not_mem_nil, or_false] at isEnd
    rcases isEnd with rfl | rfl <;> exact ⟨below, above⟩
  · simp only [Wire.ends, List.mem_cons, List.not_mem_nil, or_false] at isEnd
    rcases isEnd with rfl | rfl <;> exact ⟨below, above⟩
  · obtain ⟨stop, isStop, rfl⟩ := Wire.mem_ends_shifted.mp isEnd
    simpa using within isMark stop isStop

/-- Upright wires with one label. -/
def Upright (x : Rat) (heights : Rat → Prop) (label : Label) : Picture Label :=
  fun wire other => other = label ∧
    ∃ top bottom, heights top ∧ heights bottom ∧ wire = ⟨⟨x, top⟩, ⟨x, bottom⟩⟩

theorem Upright.x_eq {x : Rat} {heights : Rat → Prop} {label other : Label} {wire : Wire Rat}
    (isMark : Upright x heights label wire other) : ∀ point ∈ wire.ends, point.x = x := by
  obtain ⟨-, top, bottom, -, -, rfl⟩ := isMark
  simp [Wire.ends]

/-- Buses at the edges of a strip keep a picture tidy. -/
theorem Tidy.withBuses (tidy : Tidy width left right picture) (wide : 3 ≤ width)
    (leftHeights rightHeights : Rat → Prop) :
    Tidy width left right (Union (Upright 0 leftHeights left)
      (Union (Upright width rightHeights right) picture)) := by
  have leftBus : Tidy width left right (Upright 0 leftHeights left) :=
    tidy_of_left fun _ _ isMark => ⟨isMark.1, fun point isEnd => by
      rw [isMark.x_eq point isEnd]
      constructor <;> linarith⟩
  have rightBus : Tidy width left right (Upright width rightHeights right) :=
    tidy_of_right fun _ _ isMark => ⟨isMark.1, fun point isEnd => by
      rw [isMark.x_eq point isEnd]
      constructor <;> linarith⟩
  have rightClear : Clear (Upright width rightHeights right) picture :=
    clear_of_high .horizontal
      (fun _ _ isMark => ⟨isMark.1, fun point isEnd => (isMark.x_eq point isEnd).ge⟩)
      fun _ _ isMark => tidy.rightEdge isMark
  refine leftBus.union (rightBus.union tidy rightClear)
    (@clear_of_low _ _ _ .horizontal 0 left ?_ ?_)
  · exact fun _ _ isMark => ⟨isMark.1, fun point isEnd => (isMark.x_eq point isEnd).le⟩
  · rintro wire label (isBus | isMark) point isEnd close
    · rw [Axis.of, isBus.x_eq point isEnd] at close
      linarith
    · rw [Axis.of, zero_add] at close
      exact tidy.leftEdge isMark point isEnd close

/-- The two ends of a strip, as dots. -/
theorem tidy_dots (wide : 3 ≤ width) (line : Rat) (left right : Label) :
    Tidy width left right
      (Union (Only (.dot ⟨0, line⟩) left) (Only (.dot ⟨width, line⟩) right)) := by
  have noPicture : Tidy width left right fun _ _ => False :=
    tidy_of_left fun _ _ isMark => isMark.elim
  refine (noPicture.withBuses wide (· = line) (· = line)).mono ?_
  rintro wire label (⟨rfl, rfl⟩ | ⟨rfl, rfl⟩)
  · exact .inl ⟨rfl, line, line, rfl, rfl, rfl⟩
  · exact .inr (.inl ⟨rfl, line, line, rfl, rfl, rfl⟩)

end Picture

end Schematic
