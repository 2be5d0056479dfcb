/-
  Swimlane — from a draft to a process graph.

  `Graph.ofDraft` tells the tasks of a draft apart by the rules and puts them
  into lanes.  The other nodes keep their kind and have no lane of their own.
  Flows and order stay as they are.
-/
import Swimlane.Draft.Basic
import Swimlane.RuleSet

namespace Swimlane

/-- A node of the process graph; only a task is classified. -/
def Node.ofDraft (rules : RuleSet) (n : Draft.Node) : Node :=
  match n.kind with
  | .task =>
    let (kind, lane) := rules.classify n.label
    { id := n.id, kind, label := n.label, lane := some lane }
  | kind => { id := n.id, kind := kind.nodeKind, label := n.label }

/-- The process graph of a draft. -/
def Graph.ofDraft (rules : RuleSet) (d : Draft) : Graph where
  name := d.name
  nodes := d.nodes.map (Node.ofDraft rules)
  flows := d.flows

@[simp] theorem Node.ofDraft_id (rules : RuleSet) (n : Draft.Node) :
    (Node.ofDraft rules n).id = n.id := by
  unfold Node.ofDraft
  split <;> rfl

@[simp] theorem Node.ofDraft_label (rules : RuleSet) (n : Draft.Node) :
    (Node.ofDraft rules n).label = n.label := by
  unfold Node.ofDraft
  split <;> rfl

/-- Classification keeps the identifiers and their order. -/
@[simp] theorem Graph.nodeIds_ofDraft (rules : RuleSet) (d : Draft) :
    (Graph.ofDraft rules d).nodeIds = d.nodes.map Draft.Node.id := by
  simp [Graph.ofDraft, Graph.nodeIds, Function.comp_def]

end Swimlane
