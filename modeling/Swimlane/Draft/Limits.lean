/-
  Swimlane — limits on a candidate.

  Whoever asks for a draft may limit the number of its nodes and flows and the
  size of its text.  The limits themselves have to lie in fixed ranges.
-/

namespace Swimlane

structure Limits where
  maxNodes : Nat := 24
  maxFlows : Nat := 40
  /-- The greatest size of the text, in bytes. -/
  maxResponseBytes : Nat := 30000
  deriving DecidableEq, Repr

inductive Limits.Item where
  | maxNodes
  | maxFlows
  | maxResponseBytes
  deriving DecidableEq, Repr

namespace Limits

def Item.name : Item → String
  | .maxNodes => "maxNodes"
  | .maxFlows => "maxFlows"
  | .maxResponseBytes => "maxResponseBytes"

def Item.least : Item → Nat
  | .maxNodes => 4
  | .maxFlows => 3
  | .maxResponseBytes => 2000

def Item.greatest : Item → Nat
  | .maxNodes => 40
  | .maxFlows => 80
  | .maxResponseBytes => 100000

def get (l : Limits) : Item → Nat
  | .maxNodes => l.maxNodes
  | .maxFlows => l.maxFlows
  | .maxResponseBytes => l.maxResponseBytes

/-- Whether a limit lies in its range. -/
def inRange (l : Limits) (i : Item) : Bool := i.least ≤ l.get i && l.get i ≤ i.greatest

/-- The limits in the order in which they are checked. -/
def items : List Item := [.maxNodes, .maxFlows, .maxResponseBytes]

/-- The first limit out of its range. -/
def firstOutOfRange? (l : Limits) : Option Item := items.find? fun i => !l.inRange i

/-- The limits pass exactly when each of them lies in its range. -/
theorem firstOutOfRange?_eq_none {l : Limits} :
    l.firstOutOfRange? = none ↔ ∀ i, l.inRange i = true := by
  simp only [firstOutOfRange?, List.find?_eq_none]
  constructor
  · intro h i
    have := h i (by cases i <;> decide)
    simpa using this
  · intro h i _
    simp [h i]

end Limits

end Swimlane
