import Schematic.Yaml.Node

/-!
# Merge keys

A mapping takes over the pairs of others with a merge key.  This file replaces
such keys by the pairs that they bring, which stand in front of those of the
mapping itself.  The nodes change on the way, and a mapping whose merge keys
have been replaced has none left, so that it can be met again from within.
-/

namespace Schematic

namespace Yaml

/-- Works on the nodes of a document. -/
abbrev Reworking (α : Type) := StateT (Array Node) (Except Fault) α

namespace Reworking

def content (id : NodeId) : Reworking Content := do
  match (← get)[id]? with
  | some node => return node.content
  | none => throw .malformed

/-- The pairs of a node, which must be a mapping. -/
def pairs (id : NodeId) : Reworking (List NodePair) := do
  match ← content id with
  | .mapping pairs => return pairs
  | _ => throw .malformed

def setPairs (id : NodeId) (pairs : List NodePair) : Reworking Unit :=
  modify fun nodes => nodes.modify id ({ · with content := .mapping pairs })

def tag (id : NodeId) : Reworking Tag := do
  return ((← get)[id]?.map Node.tag).getD .unknown

/-- Takes a node for a text from now on. -/
def takeForText (id : NodeId) : Reworking Unit :=
  modify fun nodes => nodes.modify id ({ · with tag := .scalar .text })

/-- The number of pairs in front of the first merge key.  A sign for the value of
a whole mapping on the way there names an entry like any text. -/
def mergeIndex? : List NodePair → Reworking (Option Nat)
  | [] => return none
  | (key, _) :: rest => do
      match ← tag key with
      | .scalar .merge => return some 0
      | .scalar .standIn =>
          takeForText key
          return (← mergeIndex? rest).map (· + 1)
      | _ => return (← mergeIndex? rest).map (· + 1)

/-- The pairs that a merge key brings: those of a mapping or of several, of which
the first counts most and comes last.  `replace` replaces their own merge
keys. -/
def brought (replace : NodeId → Reworking Unit) (value : NodeId) :
    Reworking (List NodePair) := do
  match ← content value with
  | .mapping _ =>
      replace value
      pairs value
  | .sequence items =>
      let parts ← items.mapM fun item => do
        let _ ← pairs item
        replace item
        pairs item
      return parts.reverse.flatten
  | .scalar _ => throw .malformed

/-- Replaces the merge keys of a mapping behind its first `index` pairs, when
earlier ones have brought the pairs `taken`.  Every merge key is taken out
before the pairs that it brings are looked for, so that the number of merge
keys bounds `steps`. -/
def replaceFrom : (steps : Nat) → (id : NodeId) → (index : Nat) → (taken : List NodePair) →
    Reworking Unit
  | 0, _, _, _ => throw .malformed
  | steps + 1, id, index, taken => do
      let present ← pairs id
      match ← mergeIndex? (present.drop index) with
      | none => setPairs id (taken ++ present)
      | some offset =>
          let place := index + offset
          setPairs id (present.eraseIdx place)
          let more ←
            match present[place]? with
            | some (_, value) => brought (replaceFrom steps · 0 []) value
            | none => pure []
          replaceFrom steps id place (taken ++ more)

def replaceMerges (steps : Nat) (id : NodeId) : Reworking Unit :=
  replaceFrom steps id 0 []

end Reworking

namespace Document

def pairCount (document : Document) : Nat :=
  document.nodes.foldl (fun count node =>
    match node.content with
    | .mapping pairs => count + pairs.length
    | _ => count) 0

end Document

end Yaml

end Schematic
