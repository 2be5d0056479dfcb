/-
  Swimlane — process graphs.

  A `Graph` has nodes and flows between them, in the order in which they are
  listed.  A node may hold a graph of its own: a sub-process.  Nothing is
  assumed of a graph; identifiers may repeat and flows may lead nowhere, and
  then `Graph.node?` takes the first node of an identifier.
-/
import Swimlane.Lane

namespace Swimlane

/-! ## Kinds of nodes -/

/-- What a node of a process is. -/
inductive NodeKind where
  | start
  | finish
  | gateway
  | task
  | userTask
  | serviceTask
  | businessRuleTask
  | subProcess
  deriving DecidableEq, Repr

namespace NodeKind

def all : List NodeKind :=
  [start, finish, gateway, task, userTask, serviceTask, businessRuleTask, subProcess]

/-- Whether somebody or something does work at the node. -/
def isTask : NodeKind → Bool
  | task | userTask | serviceTask | businessRuleTask => true
  | start | finish | gateway | subProcess => false

/-- Whether the node only steers the flow; it takes its lane from its
    neighbours. -/
def isControl : NodeKind → Bool
  | start | finish | gateway => true
  | task | userTask | serviceTask | businessRuleTask | subProcess => false

def key : NodeKind → String
  | start => "start"
  | finish => "end"
  | gateway => "gatewayExclusive"
  | task => "task"
  | userTask => "userTask"
  | serviceTask => "serviceTask"
  | businessRuleTask => "businessRuleTask"
  | subProcess => "subProcess"

/-- The name of a kind in the layout listing. -/
def title : NodeKind → String
  | start => "Start"
  | finish => "End"
  | gateway => "GatewayExclusive"
  | task => "Task"
  | userTask => "UserTask"
  | serviceTask => "ServiceTask"
  | businessRuleTask => "BusinessRuleTask"
  | subProcess => "SubProcess"

def ofKey? (key : String) : Option NodeKind := all.find? fun kind => kind.key = key

theorem ofKey?_key (kind : NodeKind) : ofKey? kind.key = some kind := by
  cases kind <;> decide

/-- No control node is a task. -/
theorem isTask_of_isControl {kind : NodeKind} (h : kind.isControl = true) :
    kind.isTask = false := by
  cases kind <;> simp_all [isControl, isTask]

end NodeKind

/-! ## Graphs -/

/-- A flow from one node to another. -/
structure Flow where
  id : String
  source : String
  target : String
  label : Option String := none
  deriving DecidableEq, Repr

mutual

/-- A node of a process graph. -/
structure Node where
  id : String
  kind : NodeKind
  label : String
  /-- The lane the node was put in; control nodes have none of their own. -/
  lane : Option Lane := none
  /-- The contents of a sub-process. -/
  children : Option Graph := none
  /-- Whether the sub-process is drawn as repeating. -/
  loops : Bool := false

/-- A process graph. -/
structure Graph where
  name : String
  nodes : List Node
  flows : List Flow

end

deriving instance Repr for Node, Graph

namespace Graph

def node? (g : Graph) (id : String) : Option Node := g.nodes.find? fun n => n.id = id

def start? (g : Graph) : Option Node := g.nodes.find? fun n => n.kind = .start

def nodeIds (g : Graph) : List String := g.nodes.map Node.id

def flowIds (g : Graph) : List String := g.flows.map Flow.id

def outgoing (g : Graph) (id : String) : List Flow := g.flows.filter fun f => f.source = id

def incoming (g : Graph) (id : String) : List Flow := g.flows.filter fun f => f.target = id

theorem node?_id {g : Graph} {id : String} {n : Node} (h : g.node? id = some n) : n.id = id := by
  simpa using List.find?_some h

/-- A node is found exactly for the listed identifiers. -/
theorem node?_isSome {g : Graph} {id : String} : (g.node? id).isSome ↔ id ∈ g.nodeIds := by
  simp [node?, nodeIds, List.find?_isSome]

end Graph

end Swimlane
