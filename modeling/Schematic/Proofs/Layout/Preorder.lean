import Mathlib.Data.List.Induction
import Schematic.Proofs.Connectivity.Netlist

/-!
# The order of a walk

A walk has a stack of nodes that are still to be visited.  In each turn it visits the
node at the end of the stack, and puts the parts of this node in its place, the first
part at the end.  So what is visited and what the stack stands for are always the
nodes of the layout, from the root on, each before those of its parts; the walk is over
after as many turns as there are nodes.
-/

namespace Schematic

namespace Layout

variable {α : Type}

/-! ## Turns -/

/-- A walk on its way. -/
structure Journey (α : Type) where
  /-- The nodes that have been visited, in the order of the visits. -/
  visited : List (Layout α)
  /-- The nodes that are still to be visited with their parts, the next one last. -/
  stack : List (Layout α)

namespace Journey

/-- The journey through a layout before its first turn. -/
def start (layout : Layout α) : Journey α :=
  ⟨[], [layout]⟩

/-- Visits the node at the end of the stack. -/
def turn (journey : Journey α) : Journey α :=
  match journey.stack.getLast? with
  | none => journey
  | some current =>
      ⟨journey.visited ++ [current], journey.stack.dropLast ++ current.children.reverse⟩

/-- A journey after some more turns. -/
def turns : Nat → Journey α → Journey α
  | 0, journey => journey
  | count + 1, journey => turns count journey.turn

/-- The nodes that the stack stands for, in the order in which they will be
visited. -/
def pending (journey : Journey α) : List (Layout α) :=
  nodesOfAll journey.stack.reverse

theorem turn_of_empty {journey : Journey α} (empty : journey.stack = []) :
    journey.turn = journey := by
  rw [turn, empty, List.getLast?_nil]

theorem turn_append (visited front : List (Layout α)) (current : Layout α) :
    turn ⟨visited, front ++ [current]⟩ =
      ⟨visited ++ [current], front ++ current.children.reverse⟩ := by
  rw [turn, List.getLast?_concat, List.dropLast_concat]

theorem pending_append (visited front : List (Layout α)) (current : Layout α) :
    pending ⟨visited, front ++ [current]⟩ =
      current :: pending ⟨visited ++ [current], front ++ current.children.reverse⟩ := by
  cases current with
  | node placement children =>
      simp [pending, nodesOfAll, nodes, nodesOfAll_append, Layout.children]

theorem pending_eq_nil_iff {journey : Journey α} : journey.pending = [] ↔ journey.stack = [] := by
  obtain ⟨visited, stack⟩ := journey
  cases stack using List.reverseRecOn with
  | nil => exact ⟨fun _ => rfl, fun _ => rfl⟩
  | append_singleton front current => simp [pending_append]

/-- A turn visits the first of the pending nodes, if there is one. -/
theorem turn_visits (journey : Journey α) :
    journey.turn.visited = journey.visited ++ journey.pending.take 1 ∧
      journey.turn.pending = journey.pending.drop 1 := by
  obtain ⟨visited, stack⟩ := journey
  cases stack using List.reverseRecOn with
  | nil => simp [turn_of_empty, pending, nodesOfAll]
  | append_singleton front current => simp [turn_append, pending_append]

/-- Turns visit the pending nodes, one after the other. -/
theorem turns_visit (count : Nat) (journey : Journey α) :
    (journey.turns count).visited = journey.visited ++ journey.pending.take count ∧
      (journey.turns count).pending = journey.pending.drop count := by
  induction count generalizing journey with
  | zero => simp [turns]
  | succ count ih =>
      obtain ⟨visited, pending⟩ := turn_visits journey
      obtain ⟨visitedLater, pendingLater⟩ := ih journey.turn
      rw [turns, visitedLater, pendingLater, visited, pending, List.append_assoc, List.drop_drop,
        Nat.add_comm 1, ← List.take_add]
      exact ⟨by rw [Nat.add_comm 1], rfl⟩

end Journey

/-! ## Paths -/

mutual

/-- The paths of the nodes of a layout, each before those of its parts. -/
def paths : Layout α → List (List Nat)
  | node _ children => [] :: pathsFrom 0 children

/-- The paths of the nodes of several parts, the first of which has the given index. -/
def pathsFrom (index : Nat) : List (Layout α) → List (List Nat)
  | [] => []
  | child :: rest => child.paths.map (index :: ·) ++ pathsFrom (index + 1) rest

end

theorem mem_pathsFrom {index : Nat} {layouts : List (Layout α)} {path : List Nat} :
    path ∈ pathsFrom index layouts ↔
      ∃ offset child inner, layouts[offset]? = some child ∧ inner ∈ child.paths ∧
        path = (index + offset) :: inner := by
  induction layouts generalizing index with
  | nil => simp [pathsFrom]
  | cons first rest ih =>
      rw [pathsFrom, List.mem_append, List.mem_map, ih]
      constructor
      · rintro (⟨inner, isPath, rfl⟩ | ⟨offset, child, inner, isChild, isPath, rfl⟩)
        · exact ⟨0, first, inner, rfl, isPath, rfl⟩
        · exact ⟨offset + 1, child, inner, isChild, isPath, by rw [Nat.add_assoc, Nat.add_comm 1]⟩
      · rintro ⟨offset, child, inner, isChild, isPath, rfl⟩
        cases offset with
        | zero =>
            obtain rfl : first = child := by simpa using isChild
            exact .inl ⟨inner, isPath, rfl⟩
        | succ offset =>
            exact .inr ⟨offset, child, inner, isChild, isPath,
              by rw [Nat.add_assoc, Nat.add_comm 1]⟩

/-- The paths are those at which there are nodes. -/
theorem mem_paths (layout : Layout α) (path : List Nat) :
    path ∈ layout.paths ↔ (layout.nodeAt? path).isSome := by
  induction path generalizing layout with
  | nil =>
      cases layout
      simp [paths, nodeAt?]
  | cons index path ih =>
      cases layout with
      | node placement children =>
          simp only [paths, List.mem_cons, reduceCtorEq, false_or, mem_pathsFrom, Nat.zero_add,
            List.cons.injEq, nodeAt?, Layout.children]
          constructor
          · rintro ⟨offset, child, inner, isChild, isPath, rfl, rfl⟩
            rw [isChild, Option.bind_some]
            exact (ih child).mp isPath
          · intro found
            cases isChild : children[index]? with
            | none => simp [isChild] at found
            | some child =>
                rw [isChild, Option.bind_some] at found
                exact ⟨index, child, path, isChild, (ih child).mpr found, rfl, rfl⟩

theorem pairwise_pathsFrom {layouts : List (Layout α)}
    (inner : ∀ layout ∈ layouts, layout.paths.Pairwise (· < ·)) (index : Nat) :
    (pathsFrom index layouts).Pairwise (· < ·) := by
  induction layouts generalizing index with
  | nil => exact .nil
  | cons first rest ih =>
      obtain ⟨innerFirst, innerRest⟩ := List.forall_mem_cons.mp inner
      refine List.pairwise_append.mpr ⟨?_, ih innerRest _, ?_⟩
      · exact List.pairwise_map.mpr (innerFirst.imp fun before =>
          List.cons_lt_cons_iff.mpr (.inr ⟨rfl, before⟩))
      · intro path isPath later isLater
        obtain ⟨_, -, rfl⟩ := List.mem_map.mp isPath
        obtain ⟨offset, _, _, -, -, rfl⟩ := mem_pathsFrom.mp isLater
        exact List.cons_lt_cons_iff.mpr (.inl (by omega))

/-- Paths are in lexicographic order, so none comes twice. -/
theorem pairwise_paths (layout : Layout α) : layout.paths.Pairwise (· < ·) := by
  induction layout using Layout.induct with
  | node placement children ih =>
      refine List.pairwise_cons.mpr ⟨fun path isPath => ?_, pairwise_pathsFrom ih 0⟩
      obtain ⟨offset, _, _, -, -, rfl⟩ := mem_pathsFrom.mp isPath
      exact List.nil_lt_cons _ _

theorem map_nodeAt?_pathsFrom (layout : Layout α) (front : List (Layout α)) {rest : List (Layout α)}
    (split : layout.children = front ++ rest)
    (inner : ∀ child ∈ rest, child.paths.map child.nodeAt? = child.nodes.map some) :
    (pathsFrom front.length rest).map layout.nodeAt? = (nodesOfAll rest).map some := by
  induction rest generalizing front with
  | nil => rfl
  | cons first rest ih =>
      obtain ⟨innerFirst, innerRest⟩ := List.forall_mem_cons.mp inner
      have isChild : layout.children[front.length]? = some first := by
        rw [split, List.getElem?_append_right (Nat.le_refl _), Nat.sub_self]
        rfl
      have descends (path : List Nat) :
          layout.nodeAt? (front.length :: path) = first.nodeAt? path := by
        rw [nodeAt?, isChild, Option.bind_some]
      have later := ih (front ++ [first]) (by rw [split, List.append_assoc]; rfl) innerRest
      rw [List.length_append, List.length_singleton] at later
      rw [pathsFrom, nodesOfAll, List.map_append, List.map_append, later, List.map_map,
        ← innerFirst]
      exact congrArg (· ++ _) (List.map_congr_left fun path _ => descends path)

/-- The nodes at the paths are the nodes of the layout, in the same order. -/
theorem map_nodeAt?_paths (layout : Layout α) :
    layout.paths.map layout.nodeAt? = layout.nodes.map some := by
  induction layout using Layout.induct with
  | node placement children ih =>
      have parts := map_nodeAt?_pathsFrom (node placement children) [] rfl ih
      rw [paths, nodes, List.map_cons, List.map_cons, ← parts]
      rfl

/-! ## The walk -/

theorem nodesOfAll_eq_flatMap (layouts : List (Layout α)) :
    nodesOfAll layouts = layouts.flatMap nodes := by
  induction layouts with
  | nil => rfl
  | cons first rest ih => rw [nodesOfAll, ih, List.flatMap_cons]

theorem nodes_eq_cons (layout : Layout α) :
    layout.nodes = layout :: layout.children.flatMap nodes := by
  cases layout with
  | node placement children => rw [nodes, nodesOfAll_eq_flatMap, Layout.children]

theorem length_nodesOfAll {layouts : List (Layout α)}
    (inner : ∀ layout ∈ layouts, layout.nodes.length = layout.size) :
    (nodesOfAll layouts).length = sizes layouts := by
  induction layouts with
  | nil => rfl
  | cons first rest ih =>
      obtain ⟨innerFirst, innerRest⟩ := List.forall_mem_cons.mp inner
      rw [nodesOfAll, List.length_append, innerFirst, ih innerRest, sizes]

theorem length_nodes (layout : Layout α) : layout.nodes.length = layout.size := by
  induction layout using Layout.induct with
  | node placement children ih => rw [nodes, List.length_cons, length_nodesOfAll ih, size]

theorem allWires_eq_flatMap (layout : Layout α) :
    layout.allWires = layout.nodes.flatMap fun node => node.placement.wires := by
  rw [allWires, walk_eq_nodes]

/-- The wires of a layout are its own and then those of its parts. -/
theorem allWires_eq_append (layout : Layout α) :
    layout.allWires = layout.placement.wires ++ layout.children.flatMap allWires := by
  rw [allWires_eq_flatMap, nodes_eq_cons, List.flatMap_cons, List.flatMap_assoc]
  simp only [← allWires_eq_flatMap]

/-- A walk visits the root and then walks through the parts in their order.  With a
stack, this takes one turn for each node: after any number of turns as many nodes of
the walk have been visited, and the stack is empty exactly when all of them have been.
Every path at which there is a node is visited once, and the paths in lexicographic
order.  The wires come in the same order. -/
theorem walk_is_preorder (layout : Layout α) :
    layout.walk = layout :: layout.children.flatMap walk ∧
    (∀ count, ((Journey.start layout).turns count).visited = layout.walk.take count ∧
      (((Journey.start layout).turns count).stack = [] ↔ layout.walk.length ≤ count)) ∧
    (∃ paths : List (List Nat), paths.Pairwise (· < ·) ∧
      (∀ path, path ∈ paths ↔ (layout.nodeAt? path).isSome) ∧
      layout.walk.map some = paths.map layout.nodeAt?) ∧
    layout.walk.length = layout.size ∧
    layout.allWires = (layout.walk.map fun node => node.placement.wires).flatten ∧
    layout.allWires = layout.placement.wires ++ layout.children.flatMap allWires := by
  have walks : (walk : Layout α → List (Layout α)) = nodes := funext walk_eq_nodes
  have atStart : (Journey.start layout).pending = layout.nodes := by
    simp [Journey.start, Journey.pending, nodesOfAll]
  rw [walks]
  refine ⟨nodes_eq_cons layout, fun count => ?_, ?_, length_nodes layout, ?_,
    allWires_eq_append layout⟩
  · obtain ⟨visited, pending⟩ := Journey.turns_visit count (Journey.start layout)
    rw [atStart] at visited pending
    refine ⟨visited, ?_⟩
    rw [← Journey.pending_eq_nil_iff, pending, List.drop_eq_nil_iff]
  · exact ⟨layout.paths, pairwise_paths layout, mem_paths layout, (map_nodeAt?_paths layout).symm⟩
  · rw [allWires_eq_flatMap, List.flatMap_def]

end Layout

end Schematic
