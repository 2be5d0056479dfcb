/-
  Swimlane — the lane of every node.

  A node that was put into a lane stays there.  A node without a lane takes the
  most frequent lane of its neighbours, in the order of the flows; a node
  without such neighbours goes to the operational lane.
-/
import Swimlane.Process

namespace Swimlane.Graph

/-- The lane that was given to an identifier, by the last of its nodes that has
    one. -/
def ownLane? (g : Graph) (id : String) : Option Lane :=
  g.nodes.reverse.findSome? fun n => if n.id = id then n.lane else none

/-- The lane at the other end of a flow of the node. -/
def neighbourLane? (g : Graph) (id : String) (f : Flow) : Option Lane :=
  if f.source = id then g.ownLane? f.target
  else if f.target = id then g.ownLane? f.source
  else none

/-- The lane that a node without one takes from its neighbours. -/
def borrowedLane (g : Graph) (id : String) : Lane :=
  (Lane.mostFrequent (g.flows.filterMap (g.neighbourLane? id))).getD .operational

/-- The lane of a node of the graph. -/
def laneOfNode (g : Graph) (n : Node) : Lane := n.lane.getD (g.borrowedLane n.id)

/-- The lane of an identifier; of several nodes the last one counts. -/
def laneOf? (g : Graph) (id : String) : Option Lane :=
  (g.nodes.reverse.find? fun n => n.id = id).map g.laneOfNode

/-- Exactly the identifiers of nodes have lanes. -/
theorem laneOf?_isSome {g : Graph} {id : String} : (g.laneOf? id).isSome ↔ id ∈ g.nodeIds := by
  simp [laneOf?, nodeIds, List.find?_isSome]

end Swimlane.Graph
