import Schematic.Layout.Basic

/-!
# The nodes of a layout

A layout is walked with a stack of nodes that are still to be visited.  This
file describes the walk by recursion over the layout: a node comes first, and
after it the nodes of its parts.
-/

namespace Schematic

namespace Layout

variable {α : Type}

/-- What holds of a node whenever it holds of all its parts holds of all layouts. -/
theorem induct {motive : Layout α → Prop}
    (node : ∀ placement children, (∀ child ∈ children, motive child) →
      motive (.node placement children)) (layout : Layout α) : motive layout := by
  refine @Layout.rec α motive (fun children => ∀ child ∈ children, motive child) node ?_ ?_ layout
  · exact fun child isChild => by cases isChild
  · intro first rest ihFirst ihRest child isChild
    rcases List.mem_cons.mp isChild with rfl | later
    · exact ihFirst
    · exact ihRest child later

mutual

/-- The nodes of a layout, each before those of its parts. -/
def nodes : Layout α → List (Layout α)
  | node placement children => node placement children :: nodesOfAll children

/-- The nodes of several layouts, one layout after the other. -/
def nodesOfAll : List (Layout α) → List (Layout α)
  | [] => []
  | layout :: rest => layout.nodes ++ nodesOfAll rest

end

theorem nodesOfAll_append (first second : List (Layout α)) :
    nodesOfAll (first ++ second) = nodesOfAll first ++ nodesOfAll second := by
  induction first with
  | nil => rfl
  | cons layout rest ih => simp [nodesOfAll, ih]

theorem visit_eq_nodesOfAll (stack : List (Layout α)) : visit stack = nodesOfAll stack := by
  fun_induction visit stack with
  | case1 => rfl
  | case2 placement children stack ih =>
      rw [ih, nodesOfAll_append, nodesOfAll, nodes, List.cons_append]

theorem walk_eq_nodes (layout : Layout α) : layout.walk = layout.nodes := by
  rw [walk, visit_eq_nodesOfAll, nodesOfAll, nodesOfAll, List.append_nil]

theorem mem_nodesOfAll {layouts : List (Layout α)} {node : Layout α} :
    node ∈ nodesOfAll layouts ↔ ∃ layout ∈ layouts, node ∈ layout.nodes := by
  induction layouts with
  | nil => simp [nodesOfAll]
  | cons layout rest ih => simp [nodesOfAll, ih]

theorem mem_nodes {layout node : Layout α} :
    node ∈ layout.nodes ↔ node = layout ∨ ∃ child ∈ layout.children, node ∈ child.nodes := by
  cases layout with
  | node placement children => simp [nodes, mem_nodesOfAll, Layout.children]

end Layout

end Schematic
