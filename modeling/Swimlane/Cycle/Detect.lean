/-
  Swimlane — finding a plan–do–check–act cycle.

  `Cycle.find?` looks for one task per role.  The roles are filled in order,
  each by the first task that matches one of its keywords and fills no earlier
  role.
-/
import Swimlane.RuleSet

namespace Swimlane

/-- A node with its place in the list of nodes. -/
structure Cycle.Member where
  index : Nat
  node : Node

/-- The four tasks of a cycle. -/
structure Cycle where
  plan : Cycle.Member
  execute : Cycle.Member
  check : Cycle.Member
  act : Cycle.Member

namespace Cycle

/-- The members in the order of their roles. -/
def members (c : Cycle) : List Member := [c.plan, c.execute, c.check, c.act]

/-- The places of the members, in the order of their roles. -/
def indices (c : Cycle) : List Nat := c.members.map Member.index

/-- The nodes of the members, in the order of their roles. -/
def nodes (c : Cycle) : List Node := c.members.map Member.node

def ids (c : Cycle) : List String := c.nodes.map Node.id

/-- Whether a node can fill a role. -/
def canFill (keywords : List String) (taken : List Nat) (node : Node) (index : Nat) : Bool :=
  node.kind.isTask && !taken.contains index &&
    Vocabulary.matchesAny (Vocabulary.words node.label) keywords

/-- The first node from place `index` on that can fill a role. -/
def firstFrom (keywords : List String) (taken : List Nat) (index : Nat) :
    List Node → Option Member
  | [] => none
  | node :: rest =>
    if canFill keywords taken node index then some ⟨index, node⟩
    else firstFrom keywords taken (index + 1) rest

def find? (roles : LoopRoles) (g : Graph) : Option Cycle := do
  let plan ← firstFrom roles.plan [] 0 g.nodes
  let execute ← firstFrom roles.execute [plan.index] 0 g.nodes
  let check ← firstFrom roles.check [plan.index, execute.index] 0 g.nodes
  let act ← firstFrom roles.act [plan.index, execute.index, check.index] 0 g.nodes
  return { plan, execute, check, act }

end Cycle

end Swimlane
