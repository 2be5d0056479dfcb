/-
  Swimlane — from an untrusted candidate to a draft.

  `Draft.validate` checks a JSON value and brings it into its normal form:
  identifiers become slugs and are made to differ, texts are trimmed, their
  blanks collapsed and their length limited, and the ends of the flows are
  resolved.  The first violation in document order is reported; the demands on
  the draft as a whole come last.

  * `readItems` reads the nodes and the flows: one after the other, each knowing
    its place and the identifiers of the earlier ones.
  * `length_of_readItems`: nothing of an accepted candidate is dropped.
-/
import Swimlane.Draft.Basic
import Swimlane.Draft.Limits
import Swimlane.Draft.Violation
import Swimlane.Identifier

namespace Swimlane.Draft

/-! ## Demands on values -/

/-- The greatest length of the process name and of a node label. -/
def maxLabel : Nat := 120

def maxFlowLabel : Nat := 80

def minNodes : Nat := 3

def minFlows : Nat := 2

def requireObject (place : Place) (v : Json) : Except Violation Unit :=
  match v with
  | .obj _ => .ok ()
  | _ => .error ⟨place, .notObject⟩

def requireArray (place : Place) (v : Option Json) : Except Violation (List Json) :=
  match v with
  | some (.arr items) => .ok items
  | _ => .error ⟨place, .notArray⟩

/-- The value has to be a text that is not blank; it is trimmed. -/
def requireText (place : Place) (v : Option Json) : Except Violation String :=
  match v with
  | some (.str s) =>
    let cs := Text.trim s.toList
    if cs.isEmpty then .error ⟨place, .empty⟩ else .ok (String.ofList cs)
  | _ => .error ⟨place, .notString⟩

/-- A list has to keep its bounds. -/
def checkCount (part : Part) (least greatest actual : Nat) : Except Violation Unit :=
  if actual < least then .error ⟨.list part, .tooFew least actual⟩
  else if greatest < actual then .error ⟨.list part, .tooMany greatest actual⟩
  else .ok ()

/-! ## Items -/

/-- Reads the items of a list from the `i`-th on, when `used` are the identifiers
    of the earlier ones. -/
def readItems {α : Type} (read : List String → Nat → Json → Except Violation α)
    (idOf : α → String) (used : List String) (i : Nat) :
    List Json → Except Violation (List α)
  | [] => .ok []
  | v :: rest => do
    let item ← read used i v
    let items ← readItems read idOf (idOf item :: used) (i + 1) rest
    return item :: items

/-! ## Nodes -/

/-- The `i`-th node, when `used` are the identifiers of the earlier ones. -/
def readNode (used : List String) (i : Nat) (v : Json) : Except Violation Node := do
  requireObject (.item .nodes i) v
  let token ← requireText (.field .nodes i .type) (v.get? "type")
  match Kind.ofToken? token with
  | none => .error ⟨.field .nodes i .type, .unsupportedType token⟩
  | some kind =>
    let id ← requireText (.field .nodes i .id) (v.get? "id")
    let label ← requireText (.field .nodes i .label) (v.get? "label")
    return {
      id := Identifier.assign "node" used i id
      kind
      label := Text.plainString maxLabel label }

def readNodes (items : List Json) : Except Violation (List Node) :=
  readItems readNode Node.id [] 0 items

/-! ## Flows -/

/-- The node that one end of a flow names. -/
def readEnd (nodeIds : List String) (i : Nat) (flow : String) (key : Key) (v : Json) :
    Except Violation String := do
  let text ← requireText (.field .flows i key) (v.get? key.name)
  let reference := Identifier.slug "" text
  if nodeIds.contains reference then .ok reference
  else .error ⟨.field .flows i key, .unknownNode flow reference⟩

/-- The label of a flow; what is no text or blank counts as none. -/
def readFlowLabel (v : Json) : Option String :=
  match v.get? "label" with
  | some (.str s) =>
    if (Text.trim s.toList).isEmpty then none else some (Text.plainString maxFlowLabel s)
  | _ => none

/-- The `i`-th flow, when `used` are the identifiers of the earlier ones. -/
def readFlow (nodeIds used : List String) (i : Nat) (v : Json) : Except Violation Flow := do
  requireObject (.item .flows i) v
  let text ← requireText (.field .flows i .id) (v.get? "id")
  let id := Identifier.assign "flow" used i text
  let source ← readEnd nodeIds i id .source v
  let target ← readEnd nodeIds i id .target v
  if source = target then .error ⟨.item .flows i, .selfLoop id⟩
  else return { id, source, target, label := readFlowLabel v }

def readFlows (nodeIds : List String) (items : List Json) : Except Violation (List Flow) :=
  readItems (readFlow nodeIds) Flow.id [] 0 items

/-! ## The draft as a whole -/

def ofKind (kind : Kind) (nodes : List Node) : List Node := nodes.filter fun n => n.kind = kind

/-- One start, from which a flow leaves, and an end, at which one arrives. -/
def checkWhole (nodes : List Node) (flows : List Flow) : Except Violation Unit :=
  match ofKind .start nodes with
  | [start] =>
    let finishes := ofKind .finish nodes
    if finishes.isEmpty then .error ⟨.list .nodes, .missingFinish⟩
    else if !flows.any fun f => f.source = start.id then
      .error ⟨.list .flows, .startWithoutOutgoing start.id⟩
    else if !finishes.any fun n => flows.any fun f => f.target = n.id then
      .error ⟨.list .flows, .finishWithoutIncoming⟩
    else .ok ()
  | starts => .error ⟨.list .nodes, .startCount starts.length⟩

/-- The draft of a candidate, or its first violation. -/
def validate (limits : Limits) (v : Json) : Except Violation Draft := do
  requireObject .payload v
  let name ← requireText .processName (v.get? "processName")
  let rawNodes ← requireArray (.list .nodes) (v.get? "nodes")
  let rawFlows ← requireArray (.list .flows) (v.get? "flows")
  checkCount .nodes minNodes limits.maxNodes rawNodes.length
  checkCount .flows minFlows limits.maxFlows rawFlows.length
  let nodes ← readNodes rawNodes
  let flows ← readFlows (nodes.map Node.id) rawFlows
  checkWhole nodes flows
  return { name := Text.plainString maxLabel name, nodes, flows }

/-! ## Small facts -/

/-- One value is read for each item. -/
theorem length_of_readItems {α : Type} {read : List String → Nat → Json → Except Violation α}
    {idOf : α → String} {used : List String} {i : Nat} {items : List Json} {values : List α}
    (h : readItems read idOf used i items = .ok values) : values.length = items.length := by
  induction items generalizing used i values with
  | nil => cases h; rfl
  | cons v rest ih =>
    simp only [readItems, bind, Except.bind, pure, Except.pure] at h
    split at h
    · cases h
    · split at h
      · cases h
      · rename_i hrest
        cases h
        simp [ih hrest]

end Swimlane.Draft
