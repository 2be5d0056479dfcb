/-
  Swimlane — what can be wrong with a candidate.

  A `Violation` is a problem and the place where it was found, written as a path
  into the candidate: `nodes[2].type`, `flows[3].target`.
-/

namespace Swimlane.Draft

/-! ## Places -/

inductive Part where
  | nodes
  | flows
  deriving DecidableEq, Repr

inductive Key where
  | type
  | id
  | label
  | source
  | target
  deriving DecidableEq, Repr

inductive Place where
  | payload
  | processName
  | list (part : Part)
  | item (part : Part) (index : Nat)
  | field (part : Part) (index : Nat) (key : Key)
  deriving DecidableEq, Repr

def Part.name : Part → String
  | .nodes => "nodes"
  | .flows => "flows"

def Key.name : Key → String
  | .type => "type"
  | .id => "id"
  | .label => "label"
  | .source => "source"
  | .target => "target"

def Place.path : Place → String
  | .payload => "payload"
  | .processName => "processName"
  | .list part => part.name
  | .item part index => part.name ++ "[" ++ toString index ++ "]"
  | .field part index key => part.name ++ "[" ++ toString index ++ "]." ++ key.name

/-! ## Problems -/

inductive Problem where
  | notObject
  | notArray
  | notString
  | empty
  | tooFew (least actual : Nat)
  | tooMany (greatest actual : Nat)
  | unsupportedType (token : String)
  | unknownNode (flow reference : String)
  | selfLoop (flow : String)
  | startCount (found : Nat)
  | missingFinish
  | startWithoutOutgoing (start : String)
  | finishWithoutIncoming
  deriving DecidableEq, Repr

def Problem.message : Problem → String
  | .notObject => "must be an object"
  | .notArray => "must be an array"
  | .notString => "must be a string"
  | .empty => "must not be empty"
  | .tooFew least actual =>
    "needs at least " ++ toString least ++ " items (got " ++ toString actual ++ ")"
  | .tooMany greatest actual =>
    "exceeds limit of " ++ toString greatest ++ " items (got " ++ toString actual ++ ")"
  | .unsupportedType token => "unsupported node type (" ++ token ++ ")"
  | .unknownNode flow reference =>
    "flow " ++ flow ++ " references unknown node (" ++ reference ++ ")"
  | .selfLoop flow => "flow " ++ flow ++ " cannot connect a node to itself"
  | .startCount found => "must contain exactly 1 start node (found " ++ toString found ++ ")"
  | .missingFinish => "must contain at least 1 end node"
  | .startWithoutOutgoing start => "start node " ++ start ++ " has no outgoing flow"
  | .finishWithoutIncoming => "no end node receives a flow"

/-- A problem and its place. -/
structure Violation where
  place : Place
  problem : Problem
  deriving DecidableEq, Repr

def Violation.message (v : Violation) : String :=
  "invalid draft schema: " ++ v.place.path ++ " " ++ v.problem.message

end Swimlane.Draft
