/-
  Swimlane — layouts that do not fit their graph.
-/

namespace Swimlane

/-- Why a layout cannot be drawn for a graph. -/
inductive Defect where
  | noPool
  | strayNode (id : String)
  | strayFlow (id : String)
  | strayNested (id : String)
  | missingNode (id : String)
  | missingFlow (id : String)
  | missingNested (id : String)
  | fewPoints (flow : String)
  deriving DecidableEq, Repr

def Defect.message : Defect → String
  | .noPool => "top-level layout has no pool"
  | .strayNode id => "layout places node " ++ id ++ " that is not in the graph"
  | .strayFlow id => "layout routes flow " ++ id ++ " that is not in the graph"
  | .strayNested id => "nested layout " ++ id ++ " has no sub-process"
  | .missingNode id => "node " ++ id ++ " missing from layout"
  | .missingFlow id => "flow " ++ id ++ " missing from layout"
  | .missingNested id => "sub-process " ++ id ++ " has no nested layout"
  | .fewPoints flow => "flow " ++ flow ++ " has fewer than two waypoints"

end Swimlane
