/-
  Swimlane — drafts.

  A `Draft` is a process as somebody sketched it, after its check: starts,
  tasks, exclusive gateways and ends, joined by flows.
-/
import Swimlane.Json.Basic
import Swimlane.Process

namespace Swimlane

/-- What a node of a draft is. -/
inductive Draft.Kind where
  | start
  | task
  | gateway
  | finish
  deriving DecidableEq, Repr

/-- A node of a draft. -/
structure Draft.Node where
  id : String
  kind : Draft.Kind
  label : String
  deriving DecidableEq, Repr

/-- A checked draft. -/
structure Draft where
  name : String
  nodes : List Draft.Node
  flows : List Flow
  deriving DecidableEq, Repr

/-! ## Kinds -/

namespace Draft.Kind

/-- The kind that a written token names.  The gateway has two spellings. -/
def ofToken? : String → Option Kind
  | "start" => some start
  | "task" => some task
  | "gateway_exclusive" => some gateway
  | "gatewayExclusive" => some gateway
  | "end" => some finish
  | _ => none

def token : Kind → String
  | start => "start"
  | task => "task"
  | gateway => "gateway_exclusive"
  | finish => "end"

/-- The kind of node in a process graph, before tasks are told apart. -/
def nodeKind : Kind → NodeKind
  | start => .start
  | task => .task
  | gateway => .gateway
  | finish => .finish

theorem ofToken?_token (kind : Kind) : ofToken? kind.token = some kind := by
  cases kind <;> rfl

end Draft.Kind

/-! ## Drafts as JSON -/

/-- A flow as JSON; the label only when there is one. -/
def Flow.toJson (f : Flow) : Json :=
  .obj ([("id", .str f.id), ("source", .str f.source), ("target", .str f.target)] ++
    Json.optionalField "label" (f.label.map .str))

def Draft.Node.toJson (n : Draft.Node) : Json :=
  .obj [("id", .str n.id), ("type", .str n.kind.token), ("label", .str n.label)]

def Draft.toJson (d : Draft) : Json :=
  .obj [("processName", .str d.name), ("nodes", .arr (d.nodes.map Draft.Node.toJson)),
    ("flows", .arr (d.flows.map Flow.toJson))]

end Swimlane
