import Schematic.Proofs.Drawing.Faults
import Schematic.Proofs.Layout.DoublePrecision

/-!
# Circuits that are drawn

With the standard symbols and settings, all numbers in the layout of a circuit of fewer
than `2 ^ 19` elements are halves of at most `2 ^ 49`, and those of its drawing are not
much larger.  So none of them is infinite, and the circuit is drawn.
-/

namespace Schematic

open Number (HoldsWithin)

/-! ## Numbers of a layout -/

/-- Both coordinates are halves within a limit. -/
def Point.IsWithin (limit : Rat) (point : Point Float) : Prop :=
  Number.IsWithin limit point.x ∧ Number.IsWithin limit point.y

theorem Point.Rel.isWithin {limit : Rat} {point : Point Float} {exact : Point Rat}
    (related : point.Rel (HoldsWithin limit) exact) : point.IsWithin limit :=
  ⟨related.x.isWithin, related.y.isWithin⟩

/-- The numbers of a placed circuit are halves within a limit. -/
structure Placement.IsWithin (limit : Rat) (placement : Placement Float) : Prop where
  origin : placement.origin.IsWithin limit
  width : Number.IsWithin limit placement.width
  height : Number.IsWithin limit placement.height
  leftPort : placement.leftPort.IsWithin limit
  rightPort : placement.rightPort.IsWithin limit
  wires : ∀ wire ∈ placement.wires, wire.start.IsWithin limit ∧ wire.finish.IsWithin limit

theorem Placement.Rel.isWithin {limit : Rat} {placement : Placement Float}
    {exact : Placement Rat} (related : placement.Rel (HoldsWithin limit) exact) :
    placement.IsWithin limit where
  origin := related.origin.isWithin
  width := related.width.isWithin
  height := related.height.isWithin
  leftPort := related.leftPort.isWithin
  rightPort := related.rightPort.isWithin
  wires wire isWire := by
    have flipped : List.Forall₂ (flip (Wire.Rel (HoldsWithin limit))) _ _ := related.wires.flip
    obtain ⟨exactWire, wires⟩ := exists_related flipped isWire
    exact ⟨wires.start.isWithin, wires.finish.isWithin⟩

namespace Point

variable {limit larger : Rat} {first second : Point Float}

theorem IsWithin.mono (within : first.IsWithin limit) (atMost : limit ≤ larger) :
    first.IsWithin larger :=
  ⟨within.1.mono atMost, within.2.mono atMost⟩

theorem IsWithin.add (firstWithin : first.IsWithin limit) (secondWithin : second.IsWithin larger)
    (below : limit + larger < 2 ^ 52) : (first + second).IsWithin (limit + larger) :=
  ⟨firstWithin.1.add secondWithin.1 below, firstWithin.2.add secondWithin.2 below⟩

theorem IsWithin.rounded (within : first.IsWithin limit) :
    (first.rounded Network.places).IsWithin limit :=
  ⟨within.1.roundTo, within.2.roundTo⟩

theorem eq_or_mem_of_insertOrdered {α : Type} [Scalar α] {point other : Point α}
    {points : List (Point α)}
    (isMember : other ∈ insertOrdered point points) : other = point ∨ other ∈ points := by
  induction points with
  | nil => exact .inl (List.mem_singleton.mp isMember)
  | cons first rest ih =>
      rw [insertOrdered] at isMember
      split_ifs at isMember
      · exact .inr isMember
      · exact List.mem_cons.mp isMember
      · rcases List.mem_cons.mp isMember with rfl | later
        · exact .inr List.mem_cons_self
        · exact (ih later).imp_right (List.mem_cons_of_mem first)

theorem mem_of_mem_ordered {α : Type} [Scalar α] {point : Point α} {points : List (Point α)}
    (isMember : point ∈ ordered points) : point ∈ points := by
  suffices each : ∀ sorted : List (Point α),
      point ∈ points.foldl (fun sorted other => insertOrdered other sorted) sorted →
        point ∈ sorted ∨ point ∈ points by
    exact (each [] isMember).resolve_left List.not_mem_nil
  clear isMember
  induction points with
  | nil => exact fun sorted isMember => .inl isMember
  | cons first rest ih =>
      intro sorted isMember
      rcases ih _ isMember with early | later
      · rcases eq_or_mem_of_insertOrdered early with rfl | early
        · exact .inr List.mem_cons_self
        · exact .inl early
      · exact .inr (List.mem_cons_of_mem first later)

end Point

/-! ## The frame and the junctions -/

section

variable {limit : Rat}

theorem foldl_isWithin {choose : Float → Float → Float}
    (chooses : ∀ first second, choose first second = first ∨ choose first second = second)
    {first : Float} {rest : List Float} (firstWithin : Number.IsWithin limit first)
    (restWithin : ∀ value ∈ rest, Number.IsWithin limit value) :
    Number.IsWithin limit (rest.foldl choose first) := by
  refine List.foldlRecOn rest _ firstWithin fun value valueWithin other isOther => ?_
  rcases chooses value other with same | same
  · rwa [same]
  · rw [same]
    exact restWithin other isOther

theorem larger_or (first second : Float) :
    Scalar.larger first second = first ∨ Scalar.larger first second = second := by
  unfold Scalar.larger
  split
  · exact .inr rfl
  · exact .inl rfl

theorem smaller_or (first second : Float) :
    Scalar.smaller first second = first ∨ Scalar.smaller first second = second := by
  unfold Scalar.smaller
  split
  · exact .inr rfl
  · exact .inl rfl

/-- The edges of a box around points are among their coordinates. -/
theorem around_isWithin {first : Point Float} {rest : List (Point Float)}
    (firstWithin : first.IsWithin limit) (restWithin : ∀ point ∈ rest, point.IsWithin limit) :
    Point.IsWithin limit ⟨(Box.around first rest).left, (Box.around first rest).top⟩ ∧
      Point.IsWithin limit ⟨(Box.around first rest).right, (Box.around first rest).bottom⟩ := by
  have across : ∀ value ∈ rest.map Point.x, Number.IsWithin limit value :=
    List.forall_mem_map.mpr fun point isPoint => (restWithin point isPoint).1
  have down : ∀ value ∈ rest.map Point.y, Number.IsWithin limit value :=
    List.forall_mem_map.mpr fun point isPoint => (restWithin point isPoint).2
  exact ⟨⟨foldl_isWithin smaller_or firstWithin.1 across,
      foldl_isWithin smaller_or firstWithin.2 down⟩,
    ⟨foldl_isWithin larger_or firstWithin.1 across, foldl_isWithin larger_or firstWithin.2 down⟩⟩

variable {layout : Layout Float} (within : ∀ node ∈ layout.nodes, node.placement.IsWithin limit)
  (nonneg : 0 ≤ limit) (below : limit + limit < 2 ^ 52)

include within

theorem allWires_isWithin :
    ∀ wire ∈ layout.allWires, wire.start.IsWithin limit ∧ wire.finish.IsWithin limit := by
  intro wire isWire
  rw [Layout.allWires, Layout.walk_eq_nodes] at isWire
  obtain ⟨node, isNode, isWire⟩ := List.mem_flatMap.mp isWire
  exact (within node isNode).wires wire isWire

include nonneg below

theorem bounds_isWithin :
    Point.IsWithin (limit + limit) ⟨(Box.ofLayout layout).left, (Box.ofLayout layout).top⟩ ∧
      Point.IsWithin (limit + limit)
        ⟨(Box.ofLayout layout).right, (Box.ofLayout layout).bottom⟩ := by
  have atMost : limit ≤ limit + limit := le_add_of_nonneg_left nonneg
  have isRoot : layout ∈ layout.nodes := Layout.mem_nodes.mpr (.inl rfl)
  refine around_isWithin ((within layout isRoot).origin.mono atMost) ?_
  intro point isPoint
  rw [Layout.walk_eq_nodes] at isPoint
  obtain ⟨node, isNode, isPoint⟩ := List.mem_flatMap.mp isPoint
  have inside := within node isNode
  rcases List.mem_pair.mp isPoint with rfl | rfl
  · exact inside.origin.mono atMost
  · exact ⟨inside.origin.1.add inside.width below, inside.origin.2.add inside.height below⟩

/-- Junctions are at rounded ports or at rounded ends of wires. -/
theorem junctions_isWithin : ∀ point ∈ (Network.ofLayout layout).junctions,
    point.IsWithin (limit + limit) := by
  intro point isJunction
  have isVertex := Point.mem_of_mem_ordered (List.mem_filter.mp isJunction).1
  rcases List.mem_append.mp isVertex with isPort | isEnd
  · rw [Layout.walk_eq_nodes] at isPort
    obtain ⟨node, isNode, isPort⟩ := List.mem_flatMap.mp isPort
    have inside := within node isNode
    unfold Network.elementPorts at isPort
    split at isPort
    · rcases List.mem_pair.mp isPort with rfl | rfl
      · exact (inside.origin.add inside.leftPort below).rounded
      · exact (inside.origin.add inside.rightPort below).rounded
    · cases isPort
  · obtain ⟨wire, isWire, isEnd⟩ := List.mem_flatMap.mp isEnd
    obtain ⟨drawn, isDrawn, rfl⟩ := List.mem_map.mp isWire
    obtain ⟨start, finish⟩ := allWires_isWithin within drawn isDrawn
    have atMost : limit ≤ limit + limit := le_add_of_nonneg_left nonneg
    rcases List.mem_pair.mp isEnd with rfl | rfl
    · exact start.rounded.mono atMost
    · exact finish.rounded.mono atMost

end

/-! ## Elements -/

theorem unrotatedSize_barePlacement {α : Type} [Scalar α] (extent : Extent α) (frame : Frame α) :
    ElementFigure.unrotatedSize (barePlacement extent frame) = (extent.width, extent.height) := by
  unfold ElementFigure.unrotatedSize barePlacement Frame.offset
  cases frame.rotated <;> rfl

/-- The sides of a placed element and their halves are within a hundred. -/
structure Placement.IsSmall (placement : Placement Float) : Prop where
  width : Number.IsWithin 100 placement.width
  height : Number.IsWithin 100 placement.height
  halfWidth : Number.IsWithin 100 (Scalar.half placement.width)
  halfHeight : Number.IsWithin 100 (Scalar.half placement.height)

theorem isWithin_small {count : Nat} (few : count ≤ 100) :
    Number.IsWithin 100 (Scalar.ofNat count) ∧
      Number.IsWithin 100 (Scalar.half (Scalar.ofNat count)) := by
  have small : (count : Rat) ≤ 100 := by exact_mod_cast few
  exact ⟨Number.isWithin_ofNat small (by omega), Number.isWithin_half_ofNat small (by omega)⟩

/-- The size of the standard symbol of a kind. -/
theorem exists_standard_size (kind : ElementKind) : ∃ width height : Nat,
    width ≤ 100 ∧ height ≤ 100 ∧ (Symbol.standard kind : Symbol Float).width = Scalar.ofNat width ∧
      (Symbol.standard kind : Symbol Float).height = Scalar.ofNat height := by
  cases kind <;> exact ⟨_, _, by decide, by decide, rfl, rfl⟩

/-- The picture of a standard symbol is drawn in a box of its own size, which is small. -/
theorem Layout.HasSymbol.isSmall {node : Layout Float} (hasSymbol : node.HasSymbol .standard)
    {element : Element} (isElement : node.placement.element? = some element) :
    ElementFigure.unrotatedSize node.placement =
        ((Symbol.standard element.kind).width, (Symbol.standard element.kind).height) ∧
      node.placement.IsSmall := by
  obtain ⟨_, frame, ⟨⟩, placed⟩ := hasSymbol element isElement
  refine ⟨placed ▸ unrotatedSize_barePlacement _ frame, ?_⟩
  obtain ⟨width, height, narrow, low, isWidth, isHeight⟩ := exists_standard_size element.kind
  obtain ⟨wide, halfWide⟩ := isWithin_small narrow
  obtain ⟨high, halfHigh⟩ := isWithin_small low
  rw [placed, Symbol.extent, isWidth, isHeight]
  unfold barePlacement Frame.offset
  cases frame.rotated
  · exact ⟨wide, high, halfWide, halfHigh⟩
  · exact ⟨high, wide, halfHigh, halfWide⟩

namespace Svg

/-- No number can fail to be written. -/
def NoFault : DrawingFault → Prop :=
  fun _ => False

/-- The pictures of the standard symbols are written. -/
theorem meets_standard_shapes (kind : ElementKind) :
    Meets NoFault (fun shapes => ∀ shape ∈ shapes, shape.IsWhole)
      ((Artwork.shapes (Scalar.ofNat 5 : Float) kind (Symbol.standard kind).width
        (Symbol.standard kind).height).mapM shapeMarkup) := by
  refine (meets_mapM fun shape _ => meets_shapeMarkup shape).of_ok ?_
  cases kind <;> decide +kernel

theorem takes_of_isWithin {limit : Rat} {value : Float} (within : Number.IsWithin limit value) :
    Takes NoFault value := by
  obtain ⟨_, holds⟩ := within
  obtain ⟨negative, significand, exponent, parts, -⟩ := holds.holdsHalf.exact.exists_parts
  show Meets _ _ (number value)
  rw [number, parts]
  trivial

theorem takesPoint_of_isWithin {limit : Rat} {point : Point Float}
    (within : point.IsWithin limit) : TakesPoint NoFault point :=
  ⟨takes_of_isWithin within.1, takes_of_isWithin within.2⟩

theorem takesStyle_standard : TakesStyle (.standard : DrawingSettings Float) NoFault where
  strokeWidth := takes_of_isWithin (Number.isWithin_ofNat le_rfl (by decide))
  fontSize := takes_of_isWithin (Number.isWithin_ofNat le_rfl (by decide))
  junctionRadius := takes_of_isWithin (Number.isWithin_ofNat le_rfl (by decide))

/-! ## Whole figures -/

section

variable {limit : Rat} (nonneg : 0 ≤ limit) (below : 4 * limit + 800 < 2 ^ 52)

include below

theorem takesPoint_label {placement : Placement Float} (within : placement.IsWithin limit)
    (small : placement.IsSmall) (text : String) :
    TakesPoint NoFault (Label.ofPlacement placement text).anchor := by
  unfold Label.ofPlacement
  dsimp only
  split
  · have gap := (isWithin_small (show 4 ≤ 100 by decide)).1
    have right := (within.origin.1.add small.width (by linarith)).add gap (by linarith)
    have middle := within.origin.2.add small.halfHeight (by linarith)
    exact ⟨takes_of_isWithin right, takes_of_isWithin middle⟩
  · have middle := within.origin.1.add small.halfWidth (by linarith)
    have above := within.origin.2.sub (isWithin_small (show 2 ≤ 100 by decide)).1 (by linarith)
    exact ⟨takes_of_isWithin middle, takes_of_isWithin above⟩

/-- An element is drawn wherever it is placed within the limit. -/
theorem takesElement_standard {node : Layout Float} {element : Element}
    (within : node.placement.IsWithin limit) (hasSymbol : node.HasSymbol .standard)
    (isElement : node.placement.element? = some element) :
    TakesElement NoFault (.ofPlacement .standard node.placement element) := by
  obtain ⟨size, small⟩ := hasSymbol.isSmall isElement
  refine ⟨⟨?_, ?_⟩, ?_, fun label isLabel => ?_⟩
  · exact takes_of_isWithin (within.origin.1.add small.halfWidth (by linarith))
  · exact takes_of_isWithin (within.origin.2.add small.halfHeight (by linarith))
  · rw [ElementFigure.ofPlacement, size]
    exact meets_standard_shapes element.kind
  · rw [ElementFigure.ofPlacement] at isLabel
    dsimp only at isLabel
    split at isLabel
    · cases isLabel
      exact takesPoint_label below within small element.label
    · cases isLabel

omit below in
theorem isWithin_margins : Number.IsWithin 100 (Scalar.ofNat 2 * Scalar.ofNat 30 : Float) := by
  have two : Number.HoldsHalf (Scalar.ofNat 2) (2 : Nat) := Number.holdsHalf_ofNat (by norm_num)
  have margin : Number.HoldsHalf (Scalar.ofNat 30) (30 : Nat) :=
    Number.holdsHalf_ofNat (by norm_num)
  exact ⟨_, two.mul margin (Number.natCast_mem_wholes 2) (Number.natCast_mem_wholes 30)
    (by norm_num), by norm_num⟩

include nonneg in
/-- A layout of standard symbols is drawn if its numbers are within the limit. -/
theorem takesFigure_standard {layout : Layout Float}
    (within : ∀ node ∈ layout.nodes, node.placement.IsWithin limit)
    (hasSymbol : ∀ node ∈ layout.nodes, node.HasSymbol .standard) :
    TakesFigure .standard NoFault (.ofLayout .standard layout) where
  frame := by
    obtain ⟨corner, opposite⟩ := bounds_isWithin within nonneg (by linarith)
    have margin := (isWithin_small (show 30 ≤ 100 by decide)).1
    have width := (opposite.1.sub corner.1 (by linarith)).add isWithin_margins (by linarith)
    have height := (opposite.2.sub corner.2 (by linarith)).add isWithin_margins (by linarith)
    exact ⟨takes_of_isWithin width, takes_of_isWithin height,
      takes_of_isWithin (corner.1.sub margin (by linarith)),
      takes_of_isWithin (corner.2.sub margin (by linarith))⟩
  wires wire isWire := by
    obtain ⟨start, finish⟩ := allWires_isWithin within wire isWire
    exact ⟨takesPoint_of_isWithin start, takesPoint_of_isWithin finish⟩
  elements figure isFigure := by
    rw [Figure.ofLayout, Layout.walk_eq_nodes] at isFigure
    obtain ⟨node, isNode, found⟩ := List.mem_filterMap.mp isFigure
    obtain ⟨element, isElement, rfl⟩ := Option.map_eq_some_iff.mp found
    exact takesElement_standard below (within node isNode) (hasSymbol node isNode) isElement
  junctions point isJunction :=
    takesPoint_of_isWithin (junctions_isWithin within nonneg (by linarith) point isJunction)

end

end Svg

theorem LayoutSettings.standard_related :
    (LayoutSettings.standard : LayoutSettings Float).Rel (Number.HoldsWhole 100) .standard := by
  have holds {count : Nat} (few : count ≤ 100) :
      Number.HoldsWhole 100 (Scalar.ofNat count) (Scalar.ofNat count) := by
    have whole := Number.holdsHalf_ofNat (show count < 2 ^ 52 by omega)
    refine ⟨whole.exact, Number.natCast_mem_wholes count, ?_⟩
    rw [Scalar.ofNat_eq, Nat.abs_cast]
    exact_mod_cast few
  exact {
    parallelSpacing := holds (by decide)
    shuntStub := holds (by decide)
    shuntLead := holds (by decide)
    railClearance := holds (by decide)
    originX := holds (Nat.zero_le _)
    originY := holds (Nat.zero_le _)
    branchAlignment := rfl }

/-- With the standard symbols and settings, a circuit of fewer than `2 ^ 19` elements has a
layout and a drawing. -/
theorem Circuit.WellFormed.exists_drawing {circuit : Circuit} (wellFormed : circuit.WellFormed)
    (few : circuit.elements.length < 2 ^ 19) : ∃ layout drawing,
    circuit.layout (.standard : SymbolLibrary Float) .standard = .ok layout ∧
      Svg.draw .standard .standard layout = .ok (Text.Coded.ofText drawing) := by
  have square : (circuit.elements.length : Rat) ^ 2 ≤ 2 ^ 38 := by
    have atMost : circuit.elements.length ^ 2 ≤ 2 ^ 38 := Nat.pow_le_pow_left few.le 2
    exact_mod_cast atMost
  obtain ⟨layout, exact, placed, -, related⟩ :=
    layout_within wellFormed le_rfl (by linarith) LayoutSettings.standard_related
  obtain ⟨measure, measured, isPlace⟩ := exists_of_bind_eq_ok placed
  cases isPlace
  have hasSymbol := (wellFormed.sized measured).1.hasSymbol ⟨LayoutSettings.standard.origin, false⟩
  have within : ∀ node ∈ (measure.place .standard ⟨LayoutSettings.standard.origin, false⟩).nodes,
      node.placement.IsWithin (2 ^ 49) := by
    intro node isNode
    obtain ⟨_, holds⟩ := related.exists_node isNode
    refine (holds.mono fun _ _ coordinate => ?_).isWithin
    exact ⟨coordinate.holdsHalf, coordinate.within.trans (by linarith)⟩
  have known : ∀ kind, (SymbolLibrary.standard kind : Option (Symbol Float)).isSome :=
    fun _ => rfl
  obtain ⟨_, drawn, whole⟩ := (Svg.meets_draw .standard known Svg.takesStyle_standard
    (Svg.takesFigure_standard (by norm_num) (by norm_num) within hasSymbol)).exists_ok
  obtain ⟨drawing, rfl⟩ := whole ⟨Text.Coded.isWhole_ofText _, Text.Coded.isWhole_ofText _⟩
  exact ⟨_, drawing, placed, drawn⟩

end Schematic
