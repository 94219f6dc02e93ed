import Schematic.Yaml.PlainForm
import Schematic.Yaml.Structure

/-!
# Nodes of a document

The tokens of a document make a graph of scalars, sequences and mappings.  A
node refers to its parts by their places among all nodes, so that an alias is
no node of its own but one more reference to the node that has its name, even
from inside that node.  Every node has a tag; one that is not written follows
from the form of the node.
-/

namespace Schematic

namespace Yaml

/-- What a node is taken for. -/
inductive Tag where
  | scalar (form : ScalarForm)
  | bytes
  | sequence
  | mapping
  /-- A mapping of which only the names of entries count. -/
  | set
  /-- A sequence of mappings with one entry each. -/
  | pairs
  /-- Something that is not plain data. -/
  | unknown
deriving DecidableEq, Repr

/-- The place of a node among all nodes of its document. -/
abbrev NodeId := Nat

/-- A key and what stands behind it. -/
abbrev NodePair := NodeId × NodeId

/-- What a node consists of. -/
inductive Content where
  | scalar (text : Text.Coded)
  | sequence (items : List NodeId)
  | mapping (pairs : List NodePair)
deriving Repr

/-- A node. -/
structure Node where
  tag : Tag
  content : Content
deriving Repr

/-- A document. -/
structure Document where
  nodes : Array Node
  /-- The outermost node, unless the document is empty. -/
  root : Option NodeId
deriving Repr

def Node.absent : Node :=
  ⟨.scalar .null, .scalar ""⟩

namespace Tag

/-- What all tags of plain data start with. -/
def standardStart : String := "tag:yaml.org,2002:"

def ofName (name : String) : Tag :=
  if name = standardStart ++ "null" then .scalar .null
  else if name = standardStart ++ "bool" then .scalar .truth
  else if name = standardStart ++ "int" then .scalar .whole
  else if name = standardStart ++ "float" then .scalar .number
  else if name = standardStart ++ "timestamp" then .scalar .date
  else if name = standardStart ++ "merge" then .scalar .merge
  else if name = standardStart ++ "value" then .scalar .standIn
  else if name = standardStart ++ "str" then .scalar .text
  else if name = standardStart ++ "binary" then .bytes
  else if name = standardStart ++ "seq" then .sequence
  else if name = standardStart ++ "map" then .mapping
  else if name = standardStart ++ "set" then .set
  else if name = standardStart ++ "omap" then .pairs
  else if name = standardStart ++ "pairs" then .pairs
  else .unknown

/-- The form that a text has.  Nothing but a text has halves of characters. -/
def formOf (text : Text.Coded) : ScalarForm :=
  (text.whole?.map PlainForm.ofText).getD .text

/-- The tag of a scalar with the given written tag, if it has one. -/
def ofScalar (written : Option String) (text : Text.Coded) (plain : Bool) : Tag :=
  match written with
  | none => .scalar (if plain then formOf text else .text)
  | some name => if name = "!" then .scalar (formOf text) else ofName name

/-- The tag of a collection that has `usual` without a written one. -/
def ofCollection (usual : Tag) (written : Option String) : Tag :=
  match written with
  | none => usual
  | some name => if name = "!" then usual else ofName name

end Tag

/-! ## Reading nodes -/

/-- What is left of a document, and what has been read. -/
structure Remaining where
  stream : TokenStream
  /-- The short forms of tags, and what they stand for. -/
  handles : List (String × String) := []
  nodes : Array Node := #[]
  anchors : List (String × NodeId) := []

/-- Reads a part of a document. -/
abbrev Grammar (α : Type) := StateT Remaining (Except Fault) α

namespace Grammar

def refuse {α : Type} : Grammar α := throw .malformed

/-- The next token, or nothing at the end. -/
def next : Grammar (Option Token) := do
  let remaining ← get
  match remaining.stream.tokens, remaining.stream.fault with
  | token :: _, _ => return some token
  | [], some fault => throw fault
  | [], none => return none

def skip : Grammar Unit :=
  modify fun remaining =>
    { remaining with stream := { remaining.stream with tokens := remaining.stream.tokens.tail } }

/-- Moves behind the next token if it is the given one, and tells whether it
is. -/
def accept (token : Token) : Grammar Bool := do
  if (← next) == some token then
    skip
    return true
  else return false

/-- Moves behind the given token, which must come next. -/
def expect (token : Token) : Grammar Unit := do
  unless ← accept token do refuse

/-- Whether one of the given tokens comes next. -/
def atOneOf (tokens : List Token) : Grammar Bool := do
  match ← next with
  | some token => return tokens.contains token
  | none => return false

def ahead : Grammar Nat := do
  return (← get).stream.tokens.length

def add (node : Node) : Grammar NodeId :=
  modifyGet fun remaining =>
    (remaining.nodes.size, { remaining with nodes := remaining.nodes.push node })

def put (id : NodeId) (node : Node) : Grammar Unit :=
  modify fun remaining => { remaining with nodes := remaining.nodes.setIfInBounds id node }

/-- Reads a node, unless one of the given tokens comes first. -/
def optional (stops : List Token) (node : Grammar NodeId) : Grammar NodeId := do
  if ← atOneOf stops then add .absent else node

/-- Reads the name of a node, if it has one. -/
def anchor? : Grammar (Option String) := do
  match ← next with
  | some (.anchor name) =>
      skip
      return some name
  | _ => return none

/-- Reads the written tag of a node, if it has one, in full. -/
def tag? : Grammar (Option String) := do
  match ← next with
  | some (.tag ⟨none, suffix⟩) =>
      skip
      return some suffix
  | some (.tag ⟨some handle, suffix⟩) =>
      skip
      match (← get).handles.lookup handle with
      | some start => return some (start ++ suffix)
      | none => refuse
  | _ => return none

/-- What is written in front of a node. -/
structure Properties where
  anchor : Option String
  tag : Option String

/-- Reads what is written in front of a node, in any order. -/
def properties : Grammar Properties := do
  let early ← anchor?
  let tag ← tag?
  let late ← if early.isNone && tag.isSome then anchor? else pure none
  return ⟨early.or late, tag⟩

/-- Gives a name to a node; no name is given twice. -/
def declare (anchor : Option String) (id : NodeId) : Grammar Unit := do
  match anchor with
  | none => return
  | some name =>
      let remaining ← get
      if (remaining.anchors.lookup name).isSome then refuse
      else set { remaining with anchors := (name, id) :: remaining.anchors }

/-- Reads items as long as a dash comes next; `steps` bounds their number. -/
def dashed (stops : List Token) (node : Grammar NodeId) : (steps : Nat) → Grammar (List NodeId)
  | 0 => return []
  | steps + 1 => do
      if ← accept .blockEntry then
        let item ← optional stops node
        let others ← dashed stops node steps
        return item :: others
      else return []

/-- Reads the value behind a key, if there is one. -/
def valueOf (stops : List Token) (node : Grammar NodeId) : Grammar NodeId := do
  if ← accept .value then optional stops node else add .absent

def blockStops : List Token := [.key, .value, .blockEnd]

/-- Reads the pairs of a block mapping; `steps` bounds their number. -/
def blockPairs (node : Grammar NodeId) : (steps : Nat) → Grammar (List NodePair)
  | 0 => return []
  | steps + 1 => do
      if ← accept .key then
        let key ← optional blockStops node
        let value ← valueOf blockStops node
        let others ← blockPairs node steps
        return (key, value) :: others
      else return []

/-- Reads an item of a flow sequence.  A key makes it a mapping of its own. -/
def flowItem (node : Grammar NodeId) : Grammar NodeId := do
  if ← accept .key then
    let key ← optional [.value, .flowEntry, .flowSequenceEnd] node
    let value ← valueOf [.flowEntry, .flowSequenceEnd] node
    add ⟨.mapping, .mapping [(key, value)]⟩
  else node

def flowPair (node : Grammar NodeId) : Grammar NodePair := do
  if ← accept .key then
    let key ← optional [.value, .flowEntry, .flowMappingEnd] node
    let value ← valueOf [.flowEntry, .flowMappingEnd] node
    return (key, value)
  else
    let key ← node
    return (key, ← add .absent)

/-- Reads what stands between brackets, with commas between; `steps` bounds the
number of items. -/
def between {α : Type} (finish : Token) (item : Grammar α) :
    (steps : Nat) → (first : Bool) → Grammar (List α)
  | 0, _ => refuse
  | steps + 1, first => do
      if ← accept finish then
        return []
      else
        unless first do expect .flowEntry
        if ← accept finish then
          return []
        else
          let parsed ← item
          let others ← between finish item steps false
          return parsed :: others

/-- Where a node stands. -/
inductive Place where
  | flow
  | block
  /-- In a block mapping, where a sequence needs no indentation. -/
  | entry
deriving DecidableEq, Repr

/-- Reads the content of a node behind its properties. -/
def content (node : Place → Grammar NodeId) (place : Place) (properties : Properties) :
    Grammar Node := do
  let inBlock := place != .flow
  let steps := (← ahead) + 1
  match ← next with
  | some .blockEntry =>
      if place == .entry then
        let items ← dashed [.blockEntry, .key, .value, .blockEnd] (node .block) steps
        return ⟨.ofCollection .sequence properties.tag, .sequence items⟩
      else missing
  | some (.scalar text plain) =>
      skip
      return ⟨.ofScalar properties.tag text plain, .scalar text⟩
  | some .flowSequenceStart =>
      skip
      let items ← between .flowSequenceEnd (flowItem (node .flow)) steps true
      return ⟨.ofCollection .sequence properties.tag, .sequence items⟩
  | some .flowMappingStart =>
      skip
      let pairs ← between .flowMappingEnd (flowPair (node .flow)) steps true
      return ⟨.ofCollection .mapping properties.tag, .mapping pairs⟩
  | some .blockSequenceStart =>
      if inBlock then
        skip
        let items ← dashed [.blockEntry, .blockEnd] (node .block) steps
        expect .blockEnd
        return ⟨.ofCollection .sequence properties.tag, .sequence items⟩
      else missing
  | some .blockMappingStart =>
      if inBlock then
        skip
        let pairs ← blockPairs (node .entry) steps
        expect .blockEnd
        return ⟨.ofCollection .mapping properties.tag, .mapping pairs⟩
      else missing
  | _ => missing
where
  /-- A node of which there is nothing but its properties. -/
  missing : Grammar Node :=
    if properties.anchor.isSome || properties.tag.isSome then
      return ⟨.ofScalar properties.tag "" properties.tag.isNone, .scalar ""⟩
    else refuse

/-- Reads a node; `depth` bounds how deep nodes are nested in it. -/
def node : (depth : Nat) → Place → Grammar NodeId
  | 0, _ => throw .tooDeep
  | depth + 1, place => do
      match ← next with
      | some (.alias name) =>
          skip
          match (← get).anchors.lookup name with
          | some id => return id
          | none => refuse
      | _ =>
          let properties ← properties
          let id ← add .absent
          declare properties.anchor id
          put id (← content (node depth) place properties)
          return id

def nestingLimit : Nat := 480

/-! ## Reading documents -/

def standardHandles : List (String × String) :=
  [("!", "!"), ("!!", Tag.standardStart)]

/-- Reads directives and returns their short forms; there is at most one version,
and none of the next language. -/
def directives (versioned : Bool) (handles : List (String × String)) :
    (steps : Nat) → Grammar (List (String × String))
  | 0 => return handles
  | steps + 1 => do
      match ← next with
      | some (.directive directive) =>
          skip
          match directive with
          | .version major _ =>
              if versioned || major != 1 then refuse else directives true handles steps
          | .shortTag handle start =>
              if (handles.lookup handle).isSome then refuse
              else directives versioned ((handle, start) :: handles) steps
          | .other => directives versioned handles steps
      | _ => return handles

/-- Moves behind marks at the end of a document; `steps` bounds their number. -/
def skipEnds : (steps : Nat) → Grammar Unit
  | 0 => return
  | steps + 1 => do
      if ← accept .documentEnd then skipEnds steps else return

def setHandles (handles : List (String × String)) : Grammar Unit :=
  modify fun remaining => { remaining with handles := handles ++ standardHandles }

/-- Whether a document begins with a mark or a directive. -/
def atExplicitStart : Grammar Bool := do
  match ← next with
  | some (.directive _) => return true
  | some .documentStart => return true
  | none => return true
  | _ => return false

/-- Whether a document ends in front of its node. -/
def atEmptyDocument : Grammar Bool := do
  match ← next with
  | some (.directive _) => return true
  | some .documentStart => return true
  | some .documentEnd => return true
  | none => return true
  | _ => return false

/-- Reads the root of a document, if there is a document. -/
def root? : Grammar (Option NodeId) := do
  let steps := (← ahead) + 1
  if ← atExplicitStart then
    skipEnds steps
    if (← next).isNone then
      return none
    else
      setHandles (← directives false [] steps)
      expect .documentStart
      if ← atEmptyDocument then return some (← add .absent)
      else return some (← node nestingLimit .block)
  else
    setHandles []
    return some (← node nestingLimit .block)

def document : Grammar Document := do
  let root ← root?
  skipEnds ((← ahead) + 1)
  if (← next).isNone then return ⟨(← get).nodes, root⟩ else refuse

end Grammar

def Document.ofText (text : String) : Except Fault Document := do
  let (document, _) ← Grammar.document.run { stream := tokenize text }
  return document

end Yaml

end Schematic
