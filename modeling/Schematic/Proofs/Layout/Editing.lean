import Schematic.Layout.Edit
import Schematic.Proofs.Connectivity.Netlist
import Schematic.Proofs.Exact

/-!
# Edited nodes

An edit goes down a path and changes the node that it finds there.  This file says
which node is at the path afterwards, and what becomes of a group when one of its
parts is moved.
-/

namespace Schematic

/-- A placement with its box somewhere else; its wires, buses and rail stay. -/
def Placement.displaced (offset : Point Rat) (placement : Placement Rat) : Placement Rat :=
  { placement with origin := placement.origin + offset }

namespace Layout

section

variable {α : Type}

/-- A path as the positions of an edit. -/
def positions (path : List Nat) : List Int :=
  path.map Nat.cast

theorem offset?_natCast {count index : Nat} (inRange : index < count) :
    offset? count index = some index := by
  have notNegative : ¬((index : Int) < 0) := by omega
  simp [offset?, notNegative, inRange]

variable {edit : LayoutEdit α} {layout child changed : Layout α}

/-- An edit below a child puts the changed child in its place. -/
theorem edit?_child {index : Nat} {path : List Int} (found : layout.children[index]? = some child)
    (changes : child.edit? edit path = some changed) :
    layout.edit? edit ((index : Int) :: path) =
      some (.node layout.placement (layout.children.set index changed)) := by
  obtain ⟨placement, children⟩ := layout
  have isChild : children[index]? = some child := found
  have inRange := (List.getElem?_eq_some_iff.mp isChild).1
  rw [edit?, offset?_natCast inRange]
  simp [isChild, changes, Layout.placement, Layout.children]

/-- An edit of the node at a path leaves the changed node at this path. -/
theorem exists_edit_of_nodeAt? {path : List Nat} {rest : List Int} {node : Layout α}
    (found : layout.nodeAt? path = some node) (changes : node.edit? edit rest = some changed) :
    ∃ edited, layout.edit? edit (positions path ++ rest) = some edited ∧
      edited.nodeAt? path = some changed := by
  induction path generalizing layout with
  | nil =>
      cases found
      exact ⟨changed, changes, rfl⟩
  | cons index path ih =>
      obtain ⟨child, isChild, found⟩ := Option.bind_eq_some_iff.mp found
      obtain ⟨edited, isEdited, foundChanged⟩ := ih found
      refine ⟨_, edit?_child isChild isEdited, ?_⟩
      have inRange := (List.getElem?_eq_some_iff.mp isChild).1
      rw [nodeAt?, Layout.children, List.getElem?_set_self inRange, Option.bind_some,
        foundChanged]

end

/-- A part of a group with its box somewhere else, while its own parts stay. -/
theorem exists_displaced {layout group part : Layout Rat} {path : List Nat} {index : Nat}
    (foundGroup : layout.nodeAt? path = some group)
    (foundPart : group.children[index]? = some part) (offset : Point Rat) :
    ∃ edited,
      layout.edit? { origin := some (part.placement.origin + offset) }
        (positions (path ++ [index])) = some edited ∧
      edited.nodeAt? path = some (.node group.placement
        (group.children.set index (.node (part.placement.displaced offset) part.children))) := by
  have moved : part.edit? { origin := some (part.placement.origin + offset) } [] =
      some (.node (part.placement.displaced offset) part.children) := by
    cases part
    rfl
  rw [positions, List.map_append]
  exact exists_edit_of_nodeAt? foundGroup (edit?_child foundPart moved)

end Layout

end Schematic
