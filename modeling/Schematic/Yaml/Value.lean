import Schematic.Yaml.Merge
import Schematic.Yaml.ScalarValue

/-!
# Values of documents

A node has a value: an atom, a sequence, or a mapping whose entries are named
by atoms.  Every node gets one value, also if it is met several times, and
values of parts are values of other nodes.

The values are found level by level.  A scalar gets its value where it is met,
and so does a collection, but the parts of a collection wait until all
collections of the level above have theirs.  So the first fault that is met is
the one nearest to the outermost node.
-/

namespace Schematic

namespace Yaml

/-- An entry of a mapping. -/
structure Entry where
  /-- The node in front of the colon. -/
  key : NodeId
  name : Atom
  /-- The node behind the colon. -/
  value : NodeId

namespace Entry

def sameName (first second : Entry) : Bool :=
  first.key == second.key || first.name.sameName second.name

/-- Adds an entry.  An entry of the same name keeps its place and its name, and
takes over the value. -/
def addTo (entry : Entry) : List Entry → List Entry
  | [] => [entry]
  | first :: rest =>
      if first.sameName entry then { first with value := entry.value } :: rest
      else first :: addTo entry rest

end Entry

/-- The value of a node. -/
inductive Value where
  | atom (atom : Atom)
  | sequence (items : List NodeId)
  | pairs (pairs : List NodePair)
  | mapping (entries : List Entry)
  /-- Names alone; what stands behind them does not count. -/
  | set (entries : List Entry)

/-- What is known of the values of a document. -/
structure Valuation where
  /-- The nodes, without the merge keys that have been replaced. -/
  nodes : Array Node
  values : Array (Option Value)
  /-- The collections whose parts have not been looked at. -/
  waiting : Array NodeId := #[]

/-- Finds values of a document. -/
abbrev Valuing (α : Type) := StateT Valuation (Except Fault) α

namespace Valuing

def rework {α : Type} (work : Reworking α) : Valuing α := do
  let valuation ← get
  let (result, nodes) ← work.run valuation.nodes
  set { valuation with nodes }
  return result

/-- The value of a node, if it has been met. -/
def known? (id : NodeId) : Valuing (Option Value) := do
  return (← get).values[id]?.join

def give (id : NodeId) (value : Value) : Valuing Unit :=
  modify fun valuation =>
    { valuation with values := valuation.values.setIfInBounds id (some value) }

/-- Gives a collection without parts to a node, and lets its parts wait. -/
def begin (id : NodeId) (value : Value) : Valuing Unit := do
  give id value
  modify fun valuation => { valuation with waiting := valuation.waiting.push id }

/-! ## Scalars -/

/-- The value that stands for a whole mapping: that behind an equals sign. -/
def standIn? : List NodePair → Reworking (Option NodeId)
  | [] => return none
  | (key, value) :: rest => do
      if (← Reworking.tag key) == .scalar .standIn then return some value
      else standIn? rest

/-- The text of a node: its own, or that of the value that stands for it.  More
steps than there are nodes lead back to a node that has been met. -/
def text : (steps : Nat) → NodeId → Reworking Text.Coded
  | 0, _ => throw .endlessText
  | steps + 1, id => do
      match ← Reworking.content id with
      | .scalar text => return text
      | .sequence _ => throw .malformed
      | .mapping pairs =>
          match ← standIn? pairs with
          | some value => text steps value
          | none => throw .malformed

/-- The atom of a node that is taken for a scalar. -/
def atom (read : Text.Coded → Except Fault Atom) (id : NodeId) : Valuing Value := do
  let text ← rework (text ((← get).nodes.size + 1) id)
  return .atom (← read text)

/-- The date of a node, whose text must be its own. -/
def date (id : NodeId) : Valuing Value := do
  let text ← rework (text ((← get).nodes.size + 1) id)
  match ← rework (Reworking.content id) with
  | .scalar _ => return .atom (← ScalarValue.ofForm .date text)
  | _ => throw .noDateText

/-! ## Collections -/

/-- Gives a value to a node that is met. -/
def meet (id : NodeId) : Valuing Unit := do
  if (← known? id).isSome then return
  else
    match ← rework (Reworking.tag id) with
    | .scalar .merge | .scalar .standIn | .scalar .sign => throw .malformed
    | .scalar .date => give id (← date id)
    | .scalar form => give id (← atom (ScalarValue.ofForm form) id)
    | .bytes => give id (← atom ScalarValue.bytes id)
    | .sequence => begin id (.sequence [])
    | .pairs => begin id (.pairs [])
    | .mapping => begin id (.mapping [])
    | .set => begin id (.set [])
    | .unknown => throw .malformed

/-- The name that a key gives to an entry. -/
def nameOf (key : NodeId) : Valuing Atom := do
  match ← known? key with
  | some (.atom name) => return name
  | _ => throw .malformed

/-- Meets the parts of a mapping; `steps` bounds the number of merge keys. -/
def entries (steps : Nat) (id : NodeId) : Valuing (List Entry) := do
  let pairs ← rework do
    let _ ← Reworking.pairs id
    Reworking.replaceMerges steps id
    Reworking.pairs id
  pairs.foldlM (fun known (key, value) => do
    meet key
    let name ← nameOf key
    meet value
    return Entry.addTo ⟨key, name, value⟩ known) []

/-- The items of a node, which must be a sequence. -/
def items (id : NodeId) : Valuing (List NodeId) := do
  match ← rework (Reworking.content id) with
  | .sequence items => return items
  | _ => throw .malformed

/-- Meets the parts of a mapping that has just one pair. -/
def pair (id : NodeId) : Valuing NodePair := do
  match ← rework (Reworking.pairs id) with
  | [(key, value)] =>
      meet key
      meet value
      return (key, value)
  | _ => throw .malformed

def fill (steps : Nat) (id : NodeId) : Valuing Unit := do
  match ← known? id with
  | some (.sequence _) =>
      let items ← items id
      items.forM meet
      give id (.sequence items)
  | some (.pairs _) => give id (.pairs (← (← items id).mapM pair))
  | some (.mapping _) => give id (.mapping (← entries steps id))
  | some (.set _) => give id (.set (← entries steps id))
  | _ => return

/-- Meets the parts of all collections that wait, and of those that wait then.
Every node waits once, so that the number of nodes bounds `rounds`. -/
def fillAll (steps : Nat) : (rounds : Nat) → Valuing Unit
  | 0 => return
  | rounds + 1 => do
      let level := (← get).waiting
      if level.isEmpty then return
      else
        modify ({ · with waiting := #[] })
        level.forM (fill steps)
        fillAll steps rounds

end Valuing

/-- A document with its values. -/
structure ValuedDocument where
  root : NodeId
  values : Array (Option Value)

namespace ValuedDocument

def value? (document : ValuedDocument) (id : NodeId) : Option Value :=
  document.values[id]?.join

end ValuedDocument

namespace Document

/-- The document with its values, if it has an outermost node. -/
def valued? (document : Document) : Except Fault (Option ValuedDocument) := do
  match document.root with
  | none => return none
  | some root =>
      let valuation : Valuation :=
        { nodes := document.nodes, values := Array.replicate document.nodes.size none }
      let work : Valuing Unit := do
        Valuing.meet root
        Valuing.fillAll (document.pairCount + 1) (document.nodes.size + 1)
      let (_, valuation) ← work.run valuation
      return some ⟨root, valuation.values⟩

end Document

/-- The document that a text holds, with its values, if there is one. -/
def read (text : String) : Except Fault (Option ValuedDocument) := do
  let document ← Document.ofText text
  document.valued?

end Yaml

end Schematic
