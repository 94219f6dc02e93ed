import Schematic.Connectivity
import Schematic.Layout.Edit
import Schematic.Rendering
import Schematic.Settings.Read
import Schematic.Storage.Files

/-!
# Sessions

A session is work on one layout over several steps.  It keeps the settings, the
symbols in use, the layout that is worked on, and the issues that the last
check of a layout has found.  A step that fails leaves everything as it was
that it had not changed before.
-/

namespace Schematic

/-- What is kept between the steps of a session. -/
structure Session where
  settings : Settings Float := .standard
  symbols : SymbolLibrary Float := .standard
  layout? : Option (Layout Float) := none
  /-- The issues that the last check has found. -/
  issues : List Alignment.Issue := []

/-- Why a step of a session fails. -/
inductive SessionFault where
  | settings (failure : Settings.Failure)
  | reading (fault : Reading.Fault) (source : String)
  | layout (fault : LayoutFault)
  | refused (refusal : Alignment.Refusal)
  | drawing (fault : DrawingFault)
  | rendering (failure : RenderFailure)
  | offer (fault : OfferFault)
  | unknownSymbol (kind : ElementKind)
  | noLayout
  /-- The layout has no node in the place of an edit. -/
  | noNode

abbrev SessionStep (β : Type) := ExceptT SessionFault (StateM Session) β

namespace Session

/-- Goes on with a result, or fails for a reason. -/
def require {ε β : Type} (fault : ε → SessionFault) (result : Except ε β) : SessionStep β :=
  match result with
  | .ok value => pure value
  | .error cause => throw (fault cause)

/-! ## Settings -/

/-- Makes raw settings the settings of the session. -/
def configure (raw : Settings.Raw) : SessionStep Unit := do
  let settings ← require .settings (Settings.ofRaw raw)
  modify ({ · with settings })

/-- Sets the spacing of layouts, whatever it is. -/
def setLayoutSettings (layout : LayoutSettings Float) : SessionStep Unit :=
  modify fun session =>
    { session with settings := { session.settings with layout } }

/-- Sets the style of drawings, whatever it is. -/
def setDrawingSettings (drawing : DrawingSettings Float) : SessionStep Unit :=
  modify fun session =>
    { session with settings := { session.settings with drawing } }

/-- Makes the settings of a file the settings of the session. -/
def loadSettings (files : Storage.Files) (path : Storage.Path) : SessionStep Unit := do
  let loaded ← require .settings (Settings.ofPlace path (files.find path))
  modify ({ · with settings := loaded.settings })

/-! ## Symbols -/

def symbol (kind : ElementKind) : SessionStep (Symbol Float) := do
  match (← get).symbols kind with
  | some symbol => return symbol
  | none => throw (.unknownSymbol kind)

/-- Takes an offered symbol into use, and tells the warnings that go with
it. -/
def register (kind : ElementKind) (offer : SymbolOffer Float) : SessionStep (List String) := do
  let before := (← get).symbols
  let symbols ← require .offer (before.register kind offer)
  modify ({ · with symbols })
  return before.registrationWarnings kind

/-- Takes the symbol of a kind out of use. -/
def unregister (kind : ElementKind) : SessionStep Unit := do
  let _ ← symbol kind
  modify fun session =>
    { session with symbols := session.symbols.update kind none }

/-! ## The layout -/

/-- Lays out a circuit and makes it the layout that is worked on. -/
def layOut (circuit : Circuit) : SessionStep Unit := do
  let session ← get
  let layout ← require .layout (circuit.layout session.symbols session.settings.layout)
  set { session with layout? := some layout }

def layOutText (text : String) : SessionStep Unit := do
  let circuit ← require (.reading · text) (Reading.parse text)
  layOut circuit

def layout : SessionStep (Layout Float) := do
  match (← get).layout? with
  | some layout => return layout
  | none => throw .noLayout

/-- Edits the node of the layout at a path. -/
def edit (path : List Int) (edit : LayoutEdit Float) : SessionStep Unit := do
  match (← layout).edit? edit path with
  | some layout => modify ({ · with layout? := some layout })
  | none => throw .noNode

/-- Checks the layout, and keeps what is found. -/
def check : SessionStep (List Alignment.Issue) := do
  let issues := Alignment.issues (← layout)
  modify ({ · with issues })
  return issues

/-- Checks the layout, and fails if it has errors. -/
def checkStrictly : SessionStep (List Alignment.Issue) := do
  let issues ← check
  require .refused (Alignment.accept issues)
  return issues

def draw : SessionStep Text.Coded := do
  let layout ← layout
  let session ← get
  require .drawing (Svg.draw session.symbols session.settings.drawing layout)

/-! ## Rendering -/

/-- Runs a stage of rendering with the settings and symbols of the session, without a
journal that is shown.  The layout that is worked on stays as it is. -/
def rendering {β : Type} (stage : Renderer Float → Stage β) : SessionStep β := do
  let session ← get
  let renderer : Renderer Float := ⟨session.symbols, session.settings, false⟩
  require .rendering (stage renderer).run.1

end Session

end Schematic
