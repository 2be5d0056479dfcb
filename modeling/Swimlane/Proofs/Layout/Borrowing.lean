/-
  Swimlane — borrowed lanes.

  A node that was put into no lane borrows the one that prevails among its
  neighbours.

  * `Lane.Prevails lane lanes`: no lane of the list occurs more often, and none that
    occurs as often occurs earlier.  `Lane.mostFrequent_eq_some`: the most frequent
    lane is the one that prevails.
  * `Graph.neighbourLanes g id`: the lanes at the other ends of the flows of a node.
  * `Graph.Settles g n lane`: the lane is that of the node, or the one that it
    borrows, or the operational lane if there is none to borrow.
  * `Graph.laneOf?_settles`: all nodes have such a lane, and nothing else has one.
-/
import Mathlib.Data.List.MinMax
import Swimlane.Proofs.Layout.Lanes

namespace Swimlane

/-! ## The lane that prevails -/

namespace Lane

/-- The lane is the most frequent one of the list, and of equally frequent ones the
    first. -/
structure Prevails (lane : Lane) (lanes : List Lane) : Prop where
  mem : lane ∈ lanes
  count_le : ∀ other ∈ lanes, lanes.count other ≤ lanes.count lane
  first : ∀ other ∈ lanes, lanes.count other = lanes.count lane →
    lanes.idxOf lane ≤ lanes.idxOf other

theorem heaviest_some_eq (weight : Lane → ℕ) (best : Lane) (lanes : List Lane) :
    heaviest weight (some best) lanes =
      lanes.foldl (List.argAux fun lane other => weight other < weight lane) (some best) := by
  induction lanes generalizing best with
  | nil => rfl
  | cons lane rest ih => rw [heaviest, ih, List.foldl_cons, List.argAux, apply_ite some]

theorem mostFrequent_eq_argmax (lanes : List Lane) :
    mostFrequent lanes = lanes.argmax fun lane => lanes.count lane := by
  rw [mostFrequent]
  generalize (fun lane => lanes.count lane) = weight
  cases lanes with
  | nil => rfl
  | cons lane rest => exact heaviest_some_eq weight lane rest

/-- **The most frequent lane** is the one that prevails. -/
theorem mostFrequent_eq_some {lanes : List Lane} {lane : Lane} :
    mostFrequent lanes = some lane ↔ lane.Prevails lanes := by
  rw [mostFrequent_eq_argmax, List.argmax_eq_some_iff]
  constructor
  · rintro ⟨hmem, hle, hfirst⟩
    exact ⟨hmem, hle, fun other hother heq => hfirst other hother heq.ge⟩
  · rintro ⟨hmem, hle, hfirst⟩
    exact ⟨hmem, hle, fun other hother hge => hfirst other hother ((hle other hother).antisymm hge)⟩

end Lane

namespace Graph

/-! ## Neighbours -/

/-- The node at the other end of a flow of the node; a loop has no other end. -/
def opposite? (id : String) (f : Flow) : Option String :=
  if f.source = id ∧ f.target ≠ id then some f.target
  else if f.target = id ∧ f.source ≠ id then some f.source
  else none

/-- The lanes of the neighbours of a node that have one, flow by flow. -/
def neighbourLanes (g : Graph) (id : String) : List Lane :=
  g.flows.filterMap fun f => (opposite? id f).bind fun other => (g.node? other).bind Node.lane

/-- The lane of a node: its own, or the one that prevails among its neighbours, or
    the operational lane. -/
inductive Settles (g : Graph) (n : Node) : Lane → Prop
  | own {lane : Lane} (h : n.lane = some lane) : Settles g n lane
  | borrowed {lane : Lane} (h : n.lane = none) (hlane : lane.Prevails (g.neighbourLanes n.id)) :
      Settles g n lane
  | alone (h : n.lane = none) (hnone : g.neighbourLanes n.id = []) : Settles g n .operational

section
variable {g : Graph} {n : Node}

/-- The lanes at the other ends of the flows of a node without a lane. -/
theorem filterMap_neighbourLane? (h : g.nodeIds.Nodup) (hn : n ∈ g.nodes) (hlane : n.lane = none) :
    g.flows.filterMap (g.neighbourLane? n.id) = g.neighbourLanes n.id := by
  -- a loop leads to the node itself, which has no lane
  have hself : g.ownLane? n.id = none := by
    rw [ownLane?_eq h, (node?_eq_some h).2 ⟨hn, rfl⟩, Option.bind_some, hlane]
  refine List.filterMap_congr fun f _ => ?_
  unfold neighbourLane? opposite?
  by_cases hs : f.source = n.id
  · by_cases ht : f.target = n.id
    · simp [hs, ht, hself]
    · simp [hs, ht, ownLane?_eq h]
  · by_cases ht : f.target = n.id
    · simp [hs, ht, ownLane?_eq h]
    · simp [hs, ht]

/-- **The lane of a node** is the one that settles it. -/
theorem laneOfNode_eq_iff (h : g.nodeIds.Nodup) (hn : n ∈ g.nodes) {lane : Lane} :
    g.laneOfNode n = lane ↔ g.Settles n lane := by
  rw [laneOfNode]
  cases hown : n.lane with
  | some own =>
    rw [Option.getD_some]
    constructor
    · rintro rfl
      exact .own hown
    · rintro (hlane | ⟨hnone, -⟩ | ⟨hnone, -⟩)
      · exact Option.some.inj (hown.symm.trans hlane)
      · cases hown.symm.trans hnone
      · cases hown.symm.trans hnone
  | none =>
    rw [Option.getD_none, borrowedLane, filterMap_neighbourLane? h hn hown]
    cases hmost : Lane.mostFrequent (g.neighbourLanes n.id) with
    | none =>
      have hnil := Lane.mostFrequent_eq_none.1 hmost
      rw [Option.getD_none]
      constructor
      · rintro rfl
        exact .alone hown hnil
      · rintro (hlane | ⟨-, hlane⟩ | -)
        · cases hown.symm.trans hlane
        · exact absurd (hnil ▸ hlane.mem) List.not_mem_nil
        · rfl
    | some most =>
      have hprevails := Lane.mostFrequent_eq_some.1 hmost
      rw [Option.getD_some]
      constructor
      · rintro rfl
        exact .borrowed hown hprevails
      · rintro (hlane | ⟨-, hlane⟩ | ⟨-, hnil⟩)
        · cases hown.symm.trans hlane
        · exact Option.some.inj (hmost.symm.trans (Lane.mostFrequent_eq_some.2 hlane))
        · exact absurd (hnil ▸ hprevails.mem) List.not_mem_nil

/-- **Every node has the lane that settles it**, and nothing but a node has a
    lane. -/
theorem laneOf?_settles (h : g.nodeIds.Nodup) :
    (∀ id, (∃ lane, g.laneOf? id = some lane) ↔ id ∈ g.nodeIds) ∧
      ∀ n ∈ g.nodes, ∀ lane, g.laneOf? n.id = some lane ↔ g.Settles n lane := by
  refine ⟨fun id => ?_, fun n hn lane => ?_⟩
  · rw [← Option.isSome_iff_exists, laneOf?_isSome]
  · rw [laneOf?_eq h, (node?_eq_some h).2 ⟨hn, rfl⟩, Option.map_some, Option.some.injEq,
      laneOfNode_eq_iff h hn]

end

/-- A gateway between two lanes that are equally frequent, with parallel flows, a
    loop, and a neighbour without a lane. -/
def junction : Graph where
  name := "Junction"
  nodes :=
    [{ id := "s", kind := .start, label := "Begin" },
     { id := "m", kind := .userTask, label := "Approve", lane := some .management },
     { id := "g", kind := .gateway, label := "Go on?" },
     { id := "a", kind := .serviceTask, label := "Send", lane := some .automation },
     { id := "e", kind := .finish, label := "End" }]
  flows :=
    [{ id := "1", source := "s", target := "g" },
     { id := "2", source := "g", target := "a" },
     { id := "3", source := "m", target := "g" },
     { id := "4", source := "g", target := "g" },
     { id := "5", source := "m", target := "g" },
     { id := "6", source := "a", target := "g" }]

theorem settles_junction : junction.nodeIds.Nodup ∧
    junction.neighbourLanes "g" = [.automation, .management, .management, .automation] ∧
    ∃ n ∈ junction.nodes, n.id = "g" ∧ n.lane = none ∧ junction.Settles n .automation := by
  have hids : junction.nodeIds.Nodup := by decide
  obtain ⟨n, hn, hid, hlane⟩ : ∃ n ∈ junction.nodes, n.id = "g" ∧ n.lane = none :=
    ⟨_, List.mem_of_getElem? (rfl : junction.nodes[2]? = _), rfl, rfl⟩
  refine ⟨hids, by decide, n, hn, hid, hlane, ?_⟩
  refine ((laneOf?_settles hids).2 n hn .automation).1 ?_
  rw [hid]
  decide

end Graph

end Swimlane
