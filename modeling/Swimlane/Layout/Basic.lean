/-
  Swimlane — layouts.

  A `GraphLayout` says where the nodes of a graph stand, how its flows run and
  which lanes there are.  A layout is a value of its own: it may have been
  edited, or belong to another graph.

  * `NodeKind.width`, `NodeKind.height`: the size of a node, fixed by its kind.
  * `Grid`: the measures of the grid in which nodes are placed.
-/
import Swimlane.Layout.Route
import Swimlane.Layout.Keyed
import Swimlane.Process

namespace Swimlane

/-! ## Kinds of nodes in a document -/

namespace NodeKind

def width : NodeKind → Nat
  | start | finish => 36
  | gateway => 50
  | task => 120
  | userTask | serviceTask | businessRuleTask => 130
  | subProcess => 190

def height : NodeKind → Nat
  | start | finish => 36
  | gateway => 50
  | task => 80
  | userTask | serviceTask | businessRuleTask => 88
  | subProcess => 110

def tag : NodeKind → String
  | start => "bpmn:startEvent"
  | finish => "bpmn:endEvent"
  | gateway => "bpmn:exclusiveGateway"
  | task => "bpmn:task"
  | userTask => "bpmn:userTask"
  | serviceTask => "bpmn:serviceTask"
  | businessRuleTask => "bpmn:businessRuleTask"
  | subProcess => "bpmn:subProcess"

/-- How the identifiers of such nodes begin in a document. -/
def idStem : NodeKind → String
  | start => "StartEvent"
  | finish => "EndEvent"
  | gateway => "Gateway"
  | task => "Task"
  | userTask => "UserTask"
  | serviceTask => "ServiceTask"
  | businessRuleTask => "BusinessRuleTask"
  | subProcess => "SubProcess"

end NodeKind

/-! ## Layouts -/

structure Placement (α : Type) where
  /-- The identifier of the node in the document. -/
  renderedId : String
  tag : String
  lane : Option Lane
  /-- The place of the node in the traversal. -/
  order : Nat
  row : Nat
  column : Nat
  box : Box α
  deriving Repr

structure EdgeRoute (α : Type) where
  flowId : String
  /-- The identifier of the flow in the document. -/
  renderedId : String
  source : String
  target : String
  points : List (Point α)
  deriving Repr

/-- The band of a lane and the nodes in it. -/
structure LaneBand (α : Type) where
  lane : Lane
  bounds : Box α
  /-- The document identifiers of the nodes, in traversal order. -/
  members : List String
  deriving Repr

/-- The layout of a graph.  The tables are in the order of their keys, the
    identifiers of nodes. -/
structure GraphLayout (α : Type) where
  /-- The identifiers of the nodes in traversal order. -/
  order : List String
  rows : Nat
  columns : Nat
  nodes : List (String × Placement α)
  edges : List (EdgeRoute α)
  lanes : List (LaneBand α)
  pool : Option (Box α)
  width : α
  height : α
  /-- The layouts of the sub-processes. -/
  nested : List (String × GraphLayout α)

namespace GraphLayout

variable {α : Type}

def node? (l : GraphLayout α) (id : String) : Option (Placement α) := Keyed.get? id l.nodes

/-- How a flow runs: the first route listed for it. -/
def edge? (l : GraphLayout α) (flowId : String) : Option (EdgeRoute α) :=
  l.edges.find? fun e => e.flowId = flowId

def nested? (l : GraphLayout α) (id : String) : Option (GraphLayout α) := Keyed.get? id l.nested

end GraphLayout

/-! ## The grid -/

/-- The measures of the grid. -/
structure Grid (α : Type) where
  originX : α
  originY : α
  poolHeaderWidth : α
  lanePaddingX : α
  columnPitch : α
  slotWidth : α
  rowHeight : α
  routeTolerance : α

def Grid.standard {α : Type} [Scalar α] : Grid α where
  originX := Scalar.ofNat 100
  originY := Scalar.ofNat 60
  poolHeaderWidth := Scalar.ofNat 30
  lanePaddingX := Scalar.ofNat 40
  columnPitch := Scalar.ofNat 230
  slotWidth := Scalar.ofNat 190
  rowHeight := Scalar.ofNat 140
  routeTolerance := Scalar.ofNat 4

/-- The greatest tolerance, half the size of the smallest node.  With a wider
    one a straight route could miss the outline of its target. -/
def Grid.maxTolerance : Nat := 18

/-- Whether the tolerance lies in its range. -/
def Grid.toleranceInRange {α : Type} [Scalar α] (g : Grid α) : Bool :=
  Scalar.le (Scalar.ofNat 0) g.routeTolerance &&
    Scalar.le g.routeTolerance (Scalar.ofNat Grid.maxTolerance)

end Swimlane
