/-
  Swimlane — folding a cycle into a sub-process.

  `Graph.foldCycle` replaces the four tasks of a cycle by one repeating
  sub-process that holds them.  It does so only when a flow enters the cycle
  and a flow leaves it; otherwise the graph stays as it is.

  * Nodes: the sub-process takes the place of the first of the four tasks, the
    others disappear.
  * Flows inside the cycle disappear, flows into it now end at the
    sub-process, flows out of it begin there.  If exactly one of the targets
    outside makes the result a standard, all flows to it become one.
  * `foldCycle_eq_self`: a graph without a cycle stays as it is.
-/
import Swimlane.Cycle.Detect
import Swimlane.Identifier

namespace Swimlane

namespace Cycle

/-! ## The sub-process -/

/-- The name of the sub-process, if it is free. -/
def baseId : String := "pdca_cycle"

/-- Free names for a list of names, each different from the earlier ones. -/
def freshAll (used : List String) : List String → List String
  | [] => []
  | name :: names =>
    let id := Identifier.fresh used name
    id :: freshAll (id :: used) names

/-- The contents of the sub-process: start, plan, execute, check, a gateway that
    leads through act back to plan or to the end. -/
def contents (c : Cycle) (labels : LoopLabels) (id : String) (usedNodes usedFlows : List String) :
    Graph :=
  let startId := Identifier.fresh usedNodes (id ++ "_start")
  let gatewayId := Identifier.fresh (startId :: usedNodes) (id ++ "_gateway")
  let finishId := Identifier.fresh (gatewayId :: startId :: usedNodes) (id ++ "_end")
  let steps : List (String × String × Option String) :=
    [(startId, c.plan.node.id, none),
     (c.plan.node.id, c.execute.node.id, none),
     (c.execute.node.id, c.check.node.id, none),
     (c.check.node.id, gatewayId, none),
     (gatewayId, c.act.node.id, some labels.goalNotMet),
     (c.act.node.id, c.plan.node.id, none),
     (gatewayId, finishId, some labels.goalMet)]
  let names := (List.range steps.length).map fun k => id ++ "_flow_" ++ toString (k + 1)
  { name := labels.subprocess
    nodes :=
      [{ id := startId, kind := .start, label := labels.start },
       c.plan.node, c.execute.node, c.check.node,
       { id := gatewayId, kind := .gateway, label := labels.gateway },
       c.act.node,
       { id := finishId, kind := .finish, label := labels.finish }]
    flows := List.zipWith
      (fun flowId (step : String × String × Option String) =>
        { id := flowId, source := step.1, target := step.2.1, label := step.2.2 })
      (freshAll usedFlows names) steps }

/-- The most frequent lane of the four tasks; ties go to the earlier role. -/
def lane (c : Cycle) : Option Lane := Lane.mostFrequent (c.nodes.filterMap Node.lane)

/-- The sub-process with its contents. -/
def subProcess (c : Cycle) (labels : LoopLabels) (id : String) (contents : Graph) : Node where
  id := id
  kind := .subProcess
  label := labels.subprocess
  lane := c.lane
  children := some contents
  loops := true

/-! ## The boundary -/

/-- Whether a node identifier belongs to the cycle. -/
def holds (c : Cycle) (id : String) : Bool := c.ids.contains id

/-- The flow leads into the cycle. -/
def enters (c : Cycle) (f : Flow) : Bool := !c.holds f.source && c.holds f.target

/-- The flow leads out of the cycle. -/
def leaves (c : Cycle) (f : Flow) : Bool := c.holds f.source && !c.holds f.target

/-- The list without repetitions, in the order of the first occurrences;
    `seen` are the earlier ones. -/
def distinct (seen : List String) : List String → List String
  | [] => []
  | s :: ss => if seen.contains s then distinct seen ss else s :: distinct (s :: seen) ss

/-- The nodes outside to which the cycle leads. -/
def exits (c : Cycle) (g : Graph) : List String :=
  distinct [] ((g.flows.filter c.leaves).map Flow.target)

/-- Whether a node makes the result of the cycle a standard. -/
def standardizes (keywords : List String) (g : Graph) (id : String) : Bool :=
  match g.node? id with
  | some node => Vocabulary.matchesAny (Vocabulary.words node.label) keywords
  | none => false

/-- The one exit that makes the result a standard, if there is exactly one. -/
def standard? (c : Cycle) (keywords : List String) (g : Graph) : Option String :=
  match (c.exits g).filter (standardizes keywords g) with
  | [id] => some id
  | _ => none

/-! ## The graph around it -/

/-- The nodes from place `index` on, with the sub-process at the place `first`
    and without the members. -/
def foldNodes (c : Cycle) (sub : Node) (first index : Nat) : List Node → List Node
  | [] => []
  | node :: rest =>
    if index = first then sub :: foldNodes c sub first (index + 1) rest
    else if c.holds node.id then foldNodes c sub first (index + 1) rest
    else node :: foldNodes c sub first (index + 1) rest

/-- The flows around the sub-process `id`.  `merged` says that the common flow
    to the standard has been written. -/
def foldFlows (c : Cycle) (id : String) (standard : Option String) (exitLabel : String)
    (used : List String) (merged : Bool) : List Flow → List Flow
  | [] => []
  | f :: rest =>
    if c.enters f then
      let flowId := Identifier.fresh used (f.id ++ "_loop")
      { f with id := flowId, target := id } ::
        foldFlows c id standard exitLabel (flowId :: used) merged rest
    else if c.leaves f then
      if standard = some f.target then
        if merged then foldFlows c id standard exitLabel used merged rest
        else
          let flowId := Identifier.fresh used (id ++ "_out")
          { id := flowId, source := id, target := f.target, label := some exitLabel } ::
            foldFlows c id standard exitLabel (flowId :: used) true rest
      else { f with source := id } :: foldFlows c id standard exitLabel used merged rest
    else if c.holds f.source then foldFlows c id standard exitLabel used merged rest
    else f :: foldFlows c id standard exitLabel used merged rest

/-- The least place of a member. -/
def firstIndex (c : Cycle) : Nat :=
  min (min c.plan.index c.execute.index) (min c.check.index c.act.index)

/-- The graph with the cycle folded. -/
def fold (c : Cycle) (rules : RuleSet) (g : Graph) : Graph :=
  let id := Identifier.fresh g.nodeIds baseId
  let contents := c.contents rules.loopLabels id (id :: g.nodeIds) g.flowIds
  let used := contents.flowIds.reverse ++ g.flowIds
  { name := g.name
    nodes := c.foldNodes (c.subProcess rules.loopLabels id contents) c.firstIndex 0 g.nodes
    flows := c.foldFlows id (c.standard? rules.standardizeKeywords g) rules.loopLabels.exit used
      false g.flows }

/-- Whether a flow enters the cycle and a flow leaves it. -/
def isOpen (c : Cycle) (g : Graph) : Bool := g.flows.any c.enters && g.flows.any c.leaves

end Cycle

/-- The graph with its cycle folded, if it has one that is entered and left. -/
def Graph.foldCycle (rules : RuleSet) (g : Graph) : Graph :=
  match Cycle.find? rules.loopRoles g with
  | some c => if c.isOpen g then c.fold rules g else g
  | none => g

/-- A graph without a cycle stays as it is. -/
theorem Graph.foldCycle_eq_self {rules : RuleSet} {g : Graph}
    (h : Cycle.find? rules.loopRoles g = none) : g.foldCycle rules = g := by
  simp [Graph.foldCycle, h]

/-- A cycle that no flow enters or none leaves is not folded. -/
theorem Graph.foldCycle_of_closed {rules : RuleSet} {g : Graph} {c : Cycle}
    (h : Cycle.find? rules.loopRoles g = some c) (hc : c.isOpen g = false) :
    g.foldCycle rules = g := by
  simp [Graph.foldCycle, h, hc]

end Swimlane
