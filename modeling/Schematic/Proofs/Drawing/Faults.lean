import Schematic.Drawing.Svg
import Schematic.Proofs.Drawing.Encoded
import Schematic.Proofs.Outcome

/-!
# What can go wrong in writing a drawing

A figure is written part by part, and each part is made of numbers, titles and the
style.  So what is written has only the faults of its numbers and titles, and it has an
encoding if the style has one.  With a symbol for every kind of element nothing but a
number can fail to be written: one that is infinite, or one that is undefined.
-/

namespace Schematic

/-- A fault of a number, not of an element. -/
def DrawingFault.IsNumeric : DrawingFault → Prop
  | .infiniteNumber => True
  | .undefinedNumber => True
  | .unknownSymbol _ => False

/-- The colour and the font have no halves of characters. -/
structure DrawingSettings.HasEncoding {α : Type} (settings : DrawingSettings α) : Prop where
  stroke : settings.stroke.IsWhole
  fontFamily : settings.fontFamily.IsWhole

namespace Svg

open Text (Coded)
open Writable (write)

/-- What is written is good, or it fails in an allowed way. -/
def Meets {β : Type} (allowed : DrawingFault → Prop) (good : β → Prop) : Written β → Prop
  | .ok value => good value
  | .error fault => allowed fault

section

variable {β γ : Type} {allowed other : DrawingFault → Prop} {good also : β → Prop}
  {better : γ → Prop}

theorem meets_pure {value : β} (isGood : good value) : Meets allowed good (pure value) :=
  isGood

theorem Meets.bind {first : Written β} {next : β → Written γ} (meets : Meets allowed good first)
    (meetsNext : ∀ value, good value → Meets allowed better (next value)) :
    Meets allowed better (first >>= next) := by
  cases first with
  | error fault => exact meets
  | ok value => exact meetsNext value meets

theorem Meets.mono {written : Written β} (meets : Meets allowed good written)
    (weaker : ∀ value, good value → also value) : Meets allowed also written := by
  cases written with
  | error fault => exact meets
  | ok value => exact weaker value meets

theorem meets_mapM {ι : Type} {items : List ι} {part : ι → Written β}
    (each : ∀ item ∈ items, Meets allowed good (part item)) :
    Meets allowed (fun values => ∀ value ∈ values, good value) (items.mapM part) := by
  induction items with
  | nil => exact meets_pure nofun
  | cons item rest ih =>
      obtain ⟨first, others⟩ := List.forall_mem_cons.mp each
      rw [List.mapM_cons]
      exact first.bind fun _ isGood => (ih others).bind fun _ areGood =>
        meets_pure (List.forall_mem_cons.mpr ⟨isGood, areGood⟩)

/-- What never fails is as good as it is whenever some faults are allowed. -/
theorem Meets.of_ok {written : Written β} (meets : Meets allowed good written)
    (succeeds : written.isOk = true) : Meets other good written := by
  cases written with
  | error fault => cases succeeds
  | ok value => exact meets

theorem Meets.exists_ok {written : Written β} (meets : Meets (fun _ => False) good written) :
    ∃ value, written = .ok value ∧ good value := by
  cases written with
  | error fault => exact absurd meets id
  | ok value => exact ⟨value, rfl, meets⟩

end

/-! ## Parts of a figure -/

/-- A number fails in an allowed way only. -/
def Takes (allowed : DrawingFault → Prop) (value : Float) : Prop :=
  Meets allowed (fun _ => True) (write value)

/-- Both coordinates of a point fail in an allowed way only. -/
def TakesPoint (allowed : DrawingFault → Prop) (point : Point Float) : Prop :=
  Takes allowed point.x ∧ Takes allowed point.y

theorem takes_isNumeric (value : Float) : Takes DrawingFault.IsNumeric value := by
  show Meets _ _ (number value)
  unfold number
  split <;> trivial

theorem takesPoint_isNumeric (point : Point Float) : TakesPoint DrawingFault.IsNumeric point :=
  ⟨takes_isNumeric point.x, takes_isNumeric point.y⟩

section

variable {allowed : DrawingFault → Prop}

theorem meets_numbers {values : List Float} (takes : ∀ value ∈ values, Takes allowed value) :
    Meets allowed (fun _ => True) (numbers values) :=
  (meets_mapM takes).bind fun _ _ => meets_pure trivial

theorem meets_pointText {point : Point Float} (takes : TakesPoint allowed point) :
    Meets allowed (fun _ => True) (pointText point) :=
  meets_numbers (List.forall_mem_cons.mpr ⟨takes.1, List.forall_mem_singleton.mpr takes.2⟩)

theorem meets_pathMarkup {steps : List (PathStep Float)}
    (takes : ∀ step ∈ steps, Meets allowed (fun _ => True) (stepText step)) :
    Meets allowed Markup.IsWhole (pathMarkup steps) :=
  (meets_mapM takes).bind fun _ _ => meets_pure <|
    .element (List.forall_mem_singleton.mpr (Coded.isWhole_ofText _)) nofun

theorem areWhole_fillAttributes (fill : Fill) : (fillAttributes fill).AreWhole := by
  cases fill with
  | inherited => nofun
  | colour name => exact List.forall_mem_singleton.mpr (Coded.isWhole_ofText name)

theorem meets_circleMarkup {centre : Point Float} {radius : Float} (fill : Fill)
    (takesCentre : TakesPoint allowed centre) (takesRadius : Takes allowed radius) :
    Meets allowed Markup.IsWhole (circleMarkup centre radius fill) := by
  refine takesCentre.1.bind fun x _ => takesCentre.2.bind fun y _ =>
    takesRadius.bind fun size _ => meets_pure (.element ?_ nofun)
  refine List.forall_mem_append.mpr ⟨?_, areWhole_fillAttributes fill⟩
  simp [Coded.isWhole_ofText]

theorem meets_transformText {transform : Transform Float}
    (takes : TakesPoint allowed transform.centre) :
    Meets allowed (fun _ => True) (transformText transform) :=
  takes.1.bind fun _ _ => takes.2.bind fun _ _ => meets_pure trivial

end

/-- A step of a path fails at a number only. -/
theorem meets_stepText (step : PathStep Float) :
    Meets DrawingFault.IsNumeric (fun _ => True) (stepText step) := by
  cases step with
  | move target | line target =>
      exact (meets_pointText (takesPoint_isNumeric target)).bind fun _ _ => meets_pure trivial
  | arch radius =>
      exact (meets_numbers fun value _ => takes_isNumeric value).bind fun _ _ =>
        (takes_isNumeric _).bind fun _ _ => meets_pure trivial

/-- A shape fails at a number only. -/
theorem meets_shapeMarkup (shape : Shape Float) :
    Meets DrawingFault.IsNumeric Markup.IsWhole (shapeMarkup shape) := by
  cases shape with
  | path steps => exact meets_pathMarkup fun step _ => meets_stepText step
  | circle centre radius fill =>
      exact meets_circleMarkup fill (takesPoint_isNumeric centre) (takes_isNumeric radius)
  | rectangle corner width height fill =>
      refine (takes_isNumeric _).bind fun x _ => (takes_isNumeric _).bind fun y _ =>
        (takes_isNumeric _).bind fun width _ => (takes_isNumeric _).bind fun height _ =>
        meets_pure (.element ?_ nofun)
      refine List.forall_mem_append.mpr ⟨?_, areWhole_fillAttributes fill⟩
      simp [Coded.isWhole_ofText]

/-! ## Whole drawings -/

section

variable {allowed : DrawingFault → Prop} {symbols : SymbolLibrary Float}
  (settings : DrawingSettings Float)

/-- Nothing in some markup has halves, if nothing in the style has. -/
def Styled (markup : Markup) : Prop :=
  settings.HasEncoding → markup.IsWhole

/-- Nothing in several pieces of markup has halves, if nothing in the style has. -/
def AllStyled (markups : List Markup) : Prop :=
  ∀ markup ∈ markups, Styled settings markup

theorem meets_title (known : ∀ kind, (symbols kind).isSome) (element : Element) :
    Meets allowed (fun _ => True) (title symbols element) := by
  obtain ⟨symbol, found⟩ := Option.isSome_iff_exists.mp (known element.kind)
  rw [title, found]
  exact meets_pure trivial

theorem meets_labelMarkup {label : Label Float} (takes : TakesPoint allowed label.anchor)
    (takesSize : Takes allowed settings.fontSize) :
    Meets allowed (Styled settings) (labelMarkup settings label) := by
  refine takes.1.bind fun x _ => takes.2.bind fun y _ => takesSize.bind fun size _ =>
    meets_pure fun encoding => .element ?_ nofun
  have anchor : (anchorAttributes label.beside).AreWhole := by
    unfold anchorAttributes
    split <;> simp [Attributes.AreWhole, Coded.isWhole_ofText]
  refine List.forall_mem_append.mpr ⟨List.forall_mem_append.mpr ⟨?_, anchor⟩, ?_⟩
  · simp [Coded.isWhole_ofText]
  · simp [Coded.isWhole_ofText, encoding.stroke, encoding.fontFamily]

/-- What is asked of the figure of an element. -/
structure TakesElement (allowed : DrawingFault → Prop) (figure : ElementFigure Float) : Prop where
  centre : TakesPoint allowed figure.transform.centre
  shapes : Meets allowed (fun shapes => ∀ shape ∈ shapes, shape.IsWhole)
    (figure.shapes.mapM shapeMarkup)
  label : ∀ label ∈ figure.label, TakesPoint allowed label.anchor

theorem meets_elementMarkup (known : ∀ kind, (symbols kind).isSome)
    (takesSize : Takes allowed settings.fontSize) {figure : ElementFigure Float}
    (takes : TakesElement allowed figure) :
    Meets allowed (AllStyled settings) (elementMarkup symbols settings figure) := by
  refine (meets_transformText takes.centre).bind fun transform _ =>
    (meets_title known figure.element).bind fun title _ => takes.shapes.bind fun shapes whole =>
    (meets_mapM fun label isLabel => meets_labelMarkup settings
      (takes.label label (Option.mem_toList.mp isLabel)) takesSize).bind fun labels styled =>
    meets_pure (List.forall_mem_cons.mpr ⟨fun _ => .element ?_ ?_, styled⟩)
  · simp [Attributes.AreWhole, Coded.isWhole_ofText]
  · exact List.forall_mem_cons.mpr ⟨.element nofun nofun, whole⟩

theorem meets_strokeAttributes (takesWidth : Takes allowed settings.strokeWidth) :
    Meets allowed (fun attributes => settings.HasEncoding → attributes.AreWhole)
      (strokeAttributes settings) := by
  refine takesWidth.bind fun width _ => meets_pure fun encoding => ?_
  simp [Attributes.AreWhole, Coded.isWhole_ofText, encoding.stroke]

theorem meets_strokeGroup (takesWidth : Takes allowed settings.strokeWidth) (name : String)
    {children : Written (List Markup)} (meets : Meets allowed (AllStyled settings) children) :
    Meets allowed (Styled settings) (strokeGroup settings name children) := by
  refine (meets_strokeAttributes settings takesWidth).bind fun attributes whole =>
    meets.bind fun children styled => meets_pure fun encoding => .element ?_ fun child isChild =>
      styled child isChild encoding
  exact List.forall_mem_cons.mpr ⟨Coded.isWhole_ofText name, whole encoding⟩

theorem meets_junctionGroup {junctions : List (Point Float)}
    (takes : ∀ point ∈ junctions, TakesPoint allowed point)
    (takesRadius : Takes allowed settings.junctionRadius) :
    Meets allowed (AllStyled settings) (junctionGroup settings junctions) := by
  unfold junctionGroup
  split
  · exact meets_pure nofun
  · refine (meets_mapM fun point isPoint =>
      meets_circleMarkup .inherited (takes point isPoint) takesRadius).bind fun dots whole =>
      meets_pure (List.forall_mem_singleton.mpr fun encoding => .element ?_ whole)
    simp [Attributes.AreWhole, Coded.isWhole_ofText, encoding.stroke]

/-- What is asked of the frame of a figure. -/
structure TakesFrame (allowed : DrawingFault → Prop) (bounds : Box Float) : Prop where
  width : Takes allowed (bounds.right - bounds.left + Scalar.ofNat 2 * settings.margin)
  height : Takes allowed (bounds.bottom - bounds.top + Scalar.ofNat 2 * settings.margin)
  corner : TakesPoint allowed ⟨bounds.left - settings.margin, bounds.top - settings.margin⟩

theorem meets_frameAttributes {bounds : Box Float} (takes : TakesFrame settings allowed bounds) :
    Meets allowed Attributes.AreWhole (frameAttributes settings bounds) := by
  have view : ∀ value ∈ [bounds.left - settings.margin, bounds.top - settings.margin,
      bounds.right - bounds.left + Scalar.ofNat 2 * settings.margin,
      bounds.bottom - bounds.top + Scalar.ofNat 2 * settings.margin], Takes allowed value := by
    simpa using ⟨takes.corner.1, takes.corner.2, takes.width, takes.height⟩
  refine takes.width.bind fun width _ => takes.height.bind fun height _ =>
    (meets_numbers view).bind fun view _ => meets_pure ?_
  simp [Attributes.AreWhole, Coded.isWhole_ofText]

/-- What is asked of a figure. -/
structure TakesFigure (allowed : DrawingFault → Prop) (figure : Figure Float) : Prop where
  frame : TakesFrame settings allowed figure.bounds
  wires : ∀ wire ∈ figure.wires, TakesPoint allowed wire.start ∧ TakesPoint allowed wire.finish
  elements : ∀ element ∈ figure.elements, TakesElement allowed element
  junctions : ∀ point ∈ figure.junctions, TakesPoint allowed point

/-- What is asked of the style of a drawing. -/
structure TakesStyle (allowed : DrawingFault → Prop) : Prop where
  strokeWidth : Takes allowed settings.strokeWidth
  fontSize : Takes allowed settings.fontSize
  junctionRadius : Takes allowed settings.junctionRadius

theorem meets_markup (known : ∀ kind, (symbols kind).isSome) (style : TakesStyle settings allowed)
    {figure : Figure Float} (takes : TakesFigure settings allowed figure) :
    Meets allowed (Styled settings) (markup symbols settings figure) := by
  have wires : Meets allowed (AllStyled settings) (figure.wires.mapM fun wire =>
      pathMarkup [.move wire.start, .line wire.finish]) := by
    refine meets_mapM fun wire isWire => ?_
    obtain ⟨start, finish⟩ := takes.wires wire isWire
    have path : Meets allowed Markup.IsWhole
        (pathMarkup [.move wire.start, .line wire.finish]) := by
      refine meets_pathMarkup (List.forall_mem_cons.mpr ⟨?_, List.forall_mem_singleton.mpr ?_⟩)
      · exact (meets_pointText start).bind fun _ _ => meets_pure trivial
      · exact (meets_pointText finish).bind fun _ _ => meets_pure trivial
    exact path.mono fun _ whole _ => whole
  have elements : Meets allowed (AllStyled settings) (do
      return (← figure.elements.mapM (elementMarkup symbols settings)).flatten) := by
    refine (meets_mapM fun element isElement => meets_elementMarkup settings known style.fontSize
      (takes.elements element isElement)).bind fun groups styled => meets_pure ?_
    intro markup isMarkup
    obtain ⟨group, isGroup, inGroup⟩ := List.mem_flatten.mp isMarkup
    exact styled group isGroup markup inGroup
  refine (meets_frameAttributes settings takes.frame).bind fun frame whole =>
    (meets_strokeGroup settings style.strokeWidth _ wires).bind fun wires wiresStyled =>
    (meets_strokeGroup settings style.strokeWidth _ elements).bind fun elements elementsStyled =>
    (meets_junctionGroup settings takes.junctions style.junctionRadius).bind
      fun junctions junctionsStyled => meets_pure fun encoding => .element ?_ ?_
  · exact List.forall_mem_cons.mpr ⟨Coded.isWhole_ofText nameSpace, whole⟩
  · exact List.forall_mem_cons.mpr ⟨wiresStyled encoding, List.forall_mem_cons.mpr
      ⟨elementsStyled encoding, fun junction isJunction =>
        junctionsStyled junction isJunction encoding⟩⟩

/-- A drawing fails in an allowed way only if all its numbers do, and otherwise it has an
encoding if its style has one. -/
theorem meets_draw (known : ∀ kind, (symbols kind).isSome) (style : TakesStyle settings allowed)
    {layout : Layout Float} (takes : TakesFigure settings allowed (.ofLayout settings layout)) :
    Meets allowed (fun text => settings.HasEncoding → text.IsWhole)
      (draw symbols settings layout) :=
  (meets_markup settings known style takes).bind fun _ styled =>
    meets_pure fun encoding => (styled encoding).text

end

end Svg

end Schematic
