import Schematic.Proofs.Outcome
import Schematic.Rendering

/-!
# The results of rendering

The stages of rendering write into a journal as they go.  This file proves that
their results do not depend on it: a document is read, printed if the journal is
shown, laid out, checked if the settings say so, and drawn, and the first of
these steps that fails decides.
-/

namespace Schematic

namespace Stage

variable {β γ : Type}

/-- A stage has the same result whatever has been told before. -/
def Yields (stage : Stage β) (result : Except RenderFailure β) : Prop :=
  ∀ journal, (StateT.run (ExceptT.run stage) journal).1 = result

theorem yields_pure (value : β) : Yields (pure value) (.ok value) := by
  intro journal
  rfl

theorem yields_tell (level : LogLevel) (source : LogSource) (text : String) :
    Yields (tell level source text) (.ok ()) := by
  intro journal
  rfl

theorem yields_require {ε : Type} (failure : ε → RenderFailure) (result : Except ε β) :
    Yields (require failure result) (result.mapError failure) := by
  intro journal
  cases result <;> rfl

/-- Whether there are calls enough for what is to be done. -/
def enough (calls : Bool) : Except RenderFailure Unit :=
  if calls then .ok () else .error .tooDeep

theorem enough_true : enough true = .ok () :=
  rfl

theorem yields_guardDepth (calls : Bool) : Yields (guardDepth calls) (enough calls) := by
  intro journal
  cases calls <;> rfl

theorem Yields.bind {first : Stage β} {next : β → Stage γ} {result : Except RenderFailure β}
    {results : β → Except RenderFailure γ} (yields : first.Yields result)
    (yieldsNext : ∀ value, (next value).Yields (results value)) :
    Yields (first >>= next) (result >>= results) := by
  intro journal
  have same := yields journal
  rw [ExceptT.run_bind, StateT.run_bind]
  generalize StateT.run (ExceptT.run first) journal = outcome at same
  obtain ⟨found, told⟩ := outcome
  subst same
  cases found with
  | error failure => rfl
  | ok value => exact yieldsNext value told

theorem Yields.followed {first : Stage β} {next : β → Stage γ} {value : β}
    {result : Except RenderFailure γ} (yields : first.Yields (.ok value))
    (yieldsNext : (next value).Yields result) : Yields (first >>= next) result := by
  intro journal
  have same := yields journal
  rw [ExceptT.run_bind, StateT.run_bind]
  generalize StateT.run (ExceptT.run first) journal = outcome at same
  obtain ⟨found, told⟩ := outcome
  subst same
  exact yieldsNext told

/-- What is told first does not change the result. -/
theorem Yields.afterTell {stage : Unit → Stage β} {result : Except RenderFailure β}
    {level : LogLevel} {source : LogSource} {text : String} (yields : (stage ()).Yields result) :
    Yields (tell level source text >>= stage) result :=
  (yields_tell level source text).followed yields

theorem yields_forIn {ι : Type} (items : List ι) {step : ι → PUnit → Stage (ForInStep PUnit)}
    (each : ∀ item, (step item PUnit.unit).Yields (.ok (.yield PUnit.unit))) :
    Yields (forIn items PUnit.unit step) (.ok PUnit.unit) := by
  induction items with
  | nil => exact yields_pure PUnit.unit
  | cons item rest ih =>
      rw [List.forIn_cons]
      exact (each item).followed ih

theorem Yields.run_eq {stage : Stage β} {result : Except RenderFailure β}
    (yields : stage.Yields result) : stage.run.1 = result := by
  have same := yields []
  unfold Stage.run
  generalize StateT.run (ExceptT.run stage) [] = outcome at same
  obtain ⟨found, told⟩ := outcome
  subst same
  cases found <;> rfl

end Stage

namespace Renderer

open Stage

theorem tellReading_yields (text : String) (result : Except Reading.Fault Circuit) :
    (tellReading text result).Yields (.ok ()) := by
  unfold tellReading
  apply Yields.afterTell
  cases readToEnd text result <;> cases leadingLinks? text
  · exact yields_pure ()
  · exact yields_tell _ _ _
  · exact (yields_pure ()).afterTell
  · exact (yields_tell _ _ _).afterTell

theorem read_yields (text : String) :
    (read text).Yields ((Reading.parse text).mapError (.reading · text)) :=
  (tellReading_yields text _).followed (yields_require _ _)

variable {α : Type} [Scalar α] [Text.Mentionable α] (renderer : Renderer α)

theorem place_yields (circuit : Circuit) :
    (renderer.place circuit).Yields
      (enough circuit.isSizable >>= fun _ =>
        (circuit.layout renderer.symbols renderer.settings.layout).mapError .layout) := by
  have inSteps :
      (circuit.layout renderer.symbols renderer.settings.layout).mapError RenderFailure.layout =
      (circuit.measure renderer.symbols renderer.settings.layout).mapError RenderFailure.layout >>=
        fun measure => .ok (measure.place renderer.settings.layout
          ⟨renderer.settings.layout.origin, false⟩) := by
    rw [Circuit.layout]
    cases circuit.measure renderer.symbols renderer.settings.layout <;> rfl
  rw [inSteps]
  refine (yields_guardDepth _).bind fun _ => (yields_require _ _).bind fun measure => ?_
  refine Yields.afterTell ((yields_forIn _ fun item => Yields.afterTell ?_).followed ?_)
  · exact yields_pure _
  · apply Yields.afterTell
    exact yields_pure _

/-- Whether a layout is kept, if the settings ask for a check. -/
def accepted (layout : Layout α) : Except RenderFailure Unit :=
  if renderer.settings.layout.validate then do
    enough ((Alignment.check layout).all (·.circuit.isPrintable))
    (Alignment.accept (Alignment.issues layout)).mapError .refused
  else .ok ()

omit renderer in
theorem check_yields (layout : Layout α) :
    (check layout).Yields
      (enough ((Alignment.check layout).all (·.circuit.isPrintable)) >>= fun _ =>
        (Alignment.accept (Alignment.issues layout)).mapError .refused) := by
  refine (yields_guardDepth _).bind fun _ => ?_
  dsimp only
  split
  · apply Yields.afterTell
    exact yields_require _ _
  · apply Yields.afterTell
    exact yields_require _ _

/-- What comes of laying out a document. -/
def layoutOutcome (text : String) : Except RenderFailure (Layout α) := do
  let circuit ← (Reading.parse text).mapError (.reading · text)
  enough (!renderer.shown || circuit.isPrintable)
  enough circuit.isSizable
  let layout ← (circuit.layout renderer.symbols renderer.settings.layout).mapError .layout
  renderer.accepted layout
  return layout

theorem layout_yields (text : String) :
    (renderer.layout text).Yields (renderer.layoutOutcome text) := by
  unfold layout layoutOutcome
  refine Yields.afterTell ((read_yields text).bind fun circuit => ?_)
  refine (yields_guardDepth _).bind fun _ => Yields.afterTell ?_
  rw [← bind_assoc]
  refine (renderer.place_yields circuit).bind fun layout => Yields.afterTell ?_
  unfold accepted
  cases renderer.settings.layout.validate
  · exact yields_pure layout
  · exact (check_yields layout).bind fun _ => yields_pure layout

/-- A document that is not nested too deeply is laid out and checked. -/
theorem layoutOutcome_of_parse {text : String} {circuit : Circuit}
    (parsed : Reading.parse text = .ok circuit)
    (printable : (!renderer.shown || circuit.isPrintable) = true)
    (sizable : circuit.isSizable = true) :
    renderer.layoutOutcome text =
      (circuit.layout renderer.symbols renderer.settings.layout).mapError .layout >>= fun layout =>
        renderer.accepted layout >>= fun _ => .ok layout := by
  rw [layoutOutcome, parsed]
  simp only [mapError_ok, ok_bind, printable, sizable, enough_true]
  rfl

variable [Svg.Writable α]

omit [Text.Mentionable α] in
theorem draw_yields (layout : Layout α) :
    (renderer.draw layout).Yields
      ((Svg.draw renderer.symbols renderer.settings.drawing layout).mapError .drawing) := by
  have inSteps : (Svg.draw renderer.symbols renderer.settings.drawing layout).mapError
        RenderFailure.drawing =
      (Svg.draw renderer.symbols renderer.settings.drawing layout).mapError
        RenderFailure.drawing >>= fun text => .ok text := by
    cases Svg.draw renderer.symbols renderer.settings.drawing layout <;> rfl
  rw [inSteps]
  refine (yields_require _ _).bind fun text => ?_
  exact (yields_pure text).afterTell.afterTell.afterTell

/-- What comes of rendering a document. -/
def outcome (text : String) : Except RenderFailure Text.Coded := do
  let layout ← renderer.layoutOutcome text
  (Svg.draw renderer.symbols renderer.settings.drawing layout).mapError .drawing

/-- The same renderer, with the journal shown or not. -/
def showing (shown : Bool) : Renderer α :=
  { renderer with shown }

/-- Showing the journal makes no difference to a document that can be printed. -/
theorem outcome_showing (shown : Bool) {text : String}
    (printable : ∀ circuit, Reading.parse text = .ok circuit → circuit.isPrintable = true) :
    (renderer.showing shown).outcome text = renderer.outcome text := by
  have sameLayout : (renderer.showing shown).layoutOutcome text = renderer.layoutOutcome text := by
    rw [layoutOutcome, layoutOutcome]
    cases parsed : Reading.parse text with
    | error fault => rfl
    | ok circuit =>
        simp only [mapError_ok, ok_bind, printable circuit parsed, Bool.or_true]
        rfl
  rw [outcome, outcome, sameLayout]
  rfl

/-- A document that cannot be printed is not rendered while the journal is shown. -/
theorem outcome_showing_of_deep {text : String} {circuit : Circuit}
    (parsed : Reading.parse text = .ok circuit) (deep : circuit.isPrintable = false) :
    (renderer.showing true).outcome text = .error .tooDeep := by
  rw [outcome, layoutOutcome, parsed]
  simp only [mapError_ok, ok_bind, deep]
  rfl

theorem run_render (text : String) : (renderer.render text).run.1 = renderer.outcome text :=
  ((renderer.layout_yields text).bind fun layout => renderer.draw_yields layout).run_eq

end Renderer

end Schematic
