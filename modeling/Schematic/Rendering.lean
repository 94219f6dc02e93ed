import Schematic.Alignment.Issue
import Schematic.Drawing.Svg
import Schematic.Journal
import Schematic.Layout.Place
import Schematic.Nesting
import Schematic.Number.Decimal
import Schematic.Reading.Parse

/-!
# Rendering documents

A document is read, laid out and drawn, and if the settings say so the
alignment of its layout is checked in between.  The first stage that fails ends
the rendering.  Faults of the notation and refused layouts are told to the user
in a report; the other failures have none.  Every stage tells in the journal
what it does, and what is told is printed only if the journal is shown.
-/

namespace Schematic

/-- Why a document cannot be rendered. -/
inductive RenderFailure where
  | reading (fault : Reading.Fault) (source : String)
  | refused (refusal : Alignment.Refusal)
  | layout (fault : LayoutFault)
  | drawing (fault : DrawingFault)
  /-- The circuit is nested too deeply to be printed or sized. -/
  | tooDeep

namespace RenderFailure

/-- What is told to the user, and in short in the journal, if anything is. -/
def diagnostic? : RenderFailure → Option (Diagnostic × String)
  | .reading fault source => some (fault.diagnostic source, fault.text)
  | .refused refusal => some (refusal.diagnostic, refusal.message)
  | .layout _ => none
  | .drawing _ => none
  | .tooDeep => none

end RenderFailure

/-- A stage of rendering, which writes into the journal and may fail. -/
abbrev Stage (α : Type) := ExceptT RenderFailure (StateM Journal) α

namespace Stage

def tell (level : LogLevel) (source : LogSource) (text : String) : Stage Unit :=
  modify (· ++ [⟨level, source, text⟩])

/-- Goes on with a result, or fails for a reason. -/
def require {ε α : Type} (failure : ε → RenderFailure) (result : Except ε α) : Stage α :=
  match result with
  | .ok value => pure value
  | .error fault => throw (failure fault)

/-- Goes on if there are calls enough for what is to be done. -/
def guardDepth (enough : Bool) : Stage Unit :=
  if enough then pure () else throw .tooDeep

/-- Runs a stage, and tells in the journal if it fails with a report. -/
def run {α : Type} (stage : Stage α) : Except RenderFailure α × Journal :=
  match StateT.run (ExceptT.run stage) [] with
  | (.error failure, journal) =>
      let told := failure.diagnostic?.toList.map fun (_, short) =>
        ⟨.debug, .rendering, "Rendering failed: " ++ short⟩
      (.error failure, journal ++ told)
  | outcome => outcome

end Stage

/-- What a rendering needs to know. -/
structure Renderer (α : Type) where
  symbols : SymbolLibrary α
  settings : Settings α
  /-- Whether the journal is shown, for which the document is printed. -/
  shown : Bool

namespace Renderer

/-! ## Reading -/

/-- Whether a text was read to its end, whatever came of it. -/
def readToEnd (text : String) (result : Except Reading.Fault Circuit) : Bool :=
  match result with
  | .ok _ => true
  | .error fault => fault.reach == text.length

/-- The twoport that a text begins with, by its links. -/
def leadingLinks? (text : String) : Option (List (Link Circuit)) :=
  match Reading.readRoot (.ofStream (Reading.tokenize text)) with
  | .ok (.twoport links, _) => some links
  | _ => none

/-- Tells what is known of a document once it has been read. -/
def tellReading (text : String) (result : Except Reading.Fault Circuit) : Stage Unit := do
  Stage.tell .debug .circuits ("Parsing circmark document " ++ Text.quoted text)
  if readToEnd text result then
    Stage.tell .debug .tokens ("Tokenized " ++ toString text.length ++ " characters.")
  match leadingLinks? text with
  | some links =>
      Stage.tell .debug .circuits
        ("Parsed twoport network with " ++ toString links.length ++ " link(s).")
  | none => return

def read (text : String) : Stage Circuit := do
  let result := Reading.parse text
  tellReading text result
  Stage.require (.reading · text) result

/-! ## Laying out -/

variable {α : Type} [Scalar α]

mutual

/-- The number of links and the height of the rail of every measured twoport,
those inside of others first. -/
def rails (settings : LayoutSettings α) : Measure α → List (Nat × α)
  | .node extent parts =>
      let inner := railsOfAll settings parts
      match extent.circuit with
      | .twoport links =>
          let lines := twoportLines settings <|
            extent.circuit.linkExtents (parts.map Measure.extent)
          inner ++ [(links.length, lines.rail)]
      | _ => inner

def railsOfAll (settings : LayoutSettings α) : List (Measure α) → List (Nat × α)
  | [] => []
  | measure :: rest => rails settings measure ++ railsOfAll settings rest

end

variable [Text.Mentionable α]

def sizeText (separator : String) (width height : α) : String :=
  Text.Mentionable.brief width ++ separator ++ Text.Mentionable.brief height

def place (renderer : Renderer α) (circuit : Circuit) : Stage (Layout α) := do
  let settings := renderer.settings.layout
  Stage.guardDepth circuit.isSizable
  let measure ← Stage.require .layout (circuit.measure renderer.symbols settings)
  let extent := measure.extent
  Stage.tell .debug .layouts
    ("Sizing pass complete: " ++ circuit.formName ++ " is " ++
      sizeText "x" extent.width extent.height ++ ".")
  for (links, rail) in rails settings measure do
    Stage.tell .debug .layouts
      ("Placed twoport with " ++ toString links ++ " link(s); rail at y=" ++
        Text.Mentionable.brief rail ++ ".")
  Stage.tell .debug .layouts "Positioning pass complete."
  return measure.place settings ⟨settings.origin, false⟩

/-- Checks the alignment of a layout.  The circuits that have an issue are printed. -/
def check (layout : Layout α) : Stage Unit := do
  Stage.guardDepth ((Alignment.check layout).all (·.circuit.isPrintable))
  let issues := Alignment.issues layout
  if issues.isEmpty then
    Stage.tell .debug .alignment "Layout validation complete with no issues found."
  else
    Stage.tell .info .alignment
      ("Layout validation found " ++ toString issues.length ++ " issue(s).")
  Stage.require .refused (Alignment.accept issues)

def layout (renderer : Renderer α) (text : String) : Stage (Layout α) := do
  Stage.tell .info .rendering ("--- Rendering circmark document '" ++ text ++ "' ---")
  let circuit ← read text
  Stage.guardDepth (!renderer.shown || circuit.isPrintable)
  Stage.tell .debug .rendering ("Parsed document: " ++ circuit.text)
  let layout ← renderer.place circuit
  let placement := layout.placement
  Stage.tell .info .rendering
    ("Layout complete: " ++ sizeText " x " placement.width placement.height ++ ".")
  if renderer.settings.layout.validate then check layout
  return layout

/-! ## Drawing -/

variable [Svg.Writable α]

def draw (renderer : Renderer α) (layout : Layout α) : Stage Text.Coded := do
  let text ← Stage.require .drawing (Svg.draw renderer.symbols renderer.settings.drawing layout)
  let network := Network.ofLayout layout
  Stage.tell .debug .connectivity "Building wire connectivity graph..."
  Stage.tell .debug .connectivity
    ("Connectivity graph has " ++ toString network.vertices.length ++ " vertices and " ++
      toString network.edges.length ++ " wire segments.")
  Stage.tell .debug .drawing
    ("Rendered SVG with " ++ toString network.junctions.length ++ " junction(s).")
  return text

def render (renderer : Renderer α) (text : String) : Stage Text.Coded := do
  let layout ← renderer.layout text
  renderer.draw layout

end Renderer

end Schematic
