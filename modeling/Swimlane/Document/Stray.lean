/-
  Swimlane — entries of a layout that belong to no part of the graph.

  `Graph.checkStrays` refuses a layout that places a node, routes a flow or
  holds a sub-process that the graph does not have, at any depth.
-/
import Swimlane.Document.Defect
import Swimlane.Layout.Basic

namespace Swimlane

section
variable {α : Type}

/-- The first placed node that is not in the graph. -/
def Graph.strayNode? (g : Graph) (nodes : List (String × Placement α)) : Option String :=
  (Keyed.keys nodes).find? fun id => !g.nodeIds.contains id

/-- The first routed flow that is not in the graph. -/
def Graph.strayFlow? (g : Graph) (edges : List (EdgeRoute α)) : Option String :=
  (edges.map EdgeRoute.flowId).find? fun id => !g.flowIds.contains id

mutual

/-- Every entry of the layout has to belong to the graph. -/
def Graph.checkStrays (g : Graph) : GraphLayout α → Except Defect Unit
  | ⟨_, _, _, nodes, edges, _, _, _, _, nested⟩ =>
    match g.strayNode? nodes with
    | some id => .error (.strayNode id)
    | none =>
      match g.strayFlow? edges with
      | some id => .error (.strayFlow id)
      | none => g.checkNested nested

/-- Every nested layout has to belong to a sub-process of the graph. -/
def Graph.checkNested (g : Graph) : List (String × GraphLayout α) → Except Defect Unit
  | [] => .ok ()
  | (id, inner) :: rest =>
    match (g.node? id).bind Node.children with
    | none => .error (.strayNested id)
    | some children => do
      children.checkStrays inner
      g.checkNested rest

end

end

end Swimlane
