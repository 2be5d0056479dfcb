/-
  Swimlane — lanes.

  A process is drawn in four lanes, stacked from top to bottom.
  `Lane.mostFrequent` is the lane that occurs most often in a list; of equally
  frequent lanes, the one that occurs first.
-/

namespace Swimlane

/-- A swim lane of the organisation. -/
inductive Lane where
  | operational
  | automation
  | management
  | executive
  deriving DecidableEq, Repr

namespace Lane

/-- The lanes in stacking order. -/
def all : List Lane := [operational, automation, management, executive]

def index : Lane → Nat
  | operational => 0
  | automation => 1
  | management => 2
  | executive => 3

def key : Lane → String
  | operational => "operational"
  | automation => "automation"
  | management => "management"
  | executive => "executive"

/-- The name of a lane in the layout listing. -/
def title : Lane → String
  | operational => "Operational"
  | automation => "Automation"
  | management => "Management"
  | executive => "Executive"

/-- The identifier of a lane in the document. -/
def elementId (lane : Lane) : String := "Lane_" ++ lane.title

/-- The name that the diagram shows. -/
def displayName : Lane → String
  | operational => "Operacional"
  | automation => "Automação"
  | management => "Gestão"
  | executive => "Executivo"

def ofKey? (key : String) : Option Lane := all.find? fun lane => lane.key = key

theorem mem_all (lane : Lane) : lane ∈ all := by cases lane <;> decide

/-- A lane stands at its index in the stack. -/
theorem getElem?_all_index (lane : Lane) : all[lane.index]? = some lane := by
  cases lane <;> rfl

theorem ofKey?_key (lane : Lane) : ofKey? lane.key = some lane := by
  cases lane <;> decide

/-! ## The most frequent lane -/

/-- The first lane of the list with the greatest weight, if it outweighs
    `best`; otherwise `best`. -/
def heaviest (weight : Lane → Nat) : Option Lane → List Lane → Option Lane
  | best, [] => best
  | none, lane :: rest => heaviest weight (some lane) rest
  | some best, lane :: rest =>
    heaviest weight (some (if weight best < weight lane then lane else best)) rest

/-- The most frequent lane of a list; ties go to the lane that occurs first. -/
def mostFrequent (lanes : List Lane) : Option Lane :=
  heaviest (fun lane => lanes.count lane) none lanes

theorem heaviest_some (weight : Lane → Nat) (best : Lane) (lanes : List Lane) :
    ∃ lane, heaviest weight (some best) lanes = some lane := by
  induction lanes generalizing best with
  | nil => exact ⟨best, rfl⟩
  | cons lane rest ih => exact ih _

/-- Only an empty list has no most frequent lane. -/
theorem mostFrequent_eq_none {lanes : List Lane} : mostFrequent lanes = none ↔ lanes = [] := by
  constructor
  · intro h
    cases lanes with
    | nil => rfl
    | cons lane rest =>
      obtain ⟨l, hl⟩ := heaviest_some (fun l => (lane :: rest).count l) lane rest
      simp [mostFrequent, heaviest, hl] at h
  · rintro rfl
    rfl

end Lane

end Swimlane
