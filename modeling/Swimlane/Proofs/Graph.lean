/-
  Swimlane — well-formed graphs.

  * `EachLevel P g`: the graph and all graphs inside it have the property `P`.
    `levels_induction`: induction over the levels of any graph.
  * `Linked g`: identifiers differ and flows join nodes of the graph.
  * `Sound g`: in addition no flow is a loop, there is one start, which is left,
    and an end that is reached.
  * `Named g`: all identifiers of the level have the shape of identifiers.
  * `Enclosed inner outer`: what a sub-process of `outer` holds.
  * `enclosing`: a linked graph with two levels.
-/
import Mathlib.Data.List.Nodup
import Swimlane.Process
import Swimlane.Proofs.Identifier

namespace Swimlane.Graph

open Identifier (IsIdentifier)

/-! ## Levels -/

/-- The graph and all graphs inside it have the property. -/
inductive EachLevel (P : Graph → Prop) : Graph → Prop
  | intro {g : Graph} (here : P g)
      (inside : ∀ n ∈ g.nodes, ∀ inner, n.children = some inner → EachLevel P inner) :
      EachLevel P g

theorem EachLevel.here {P : Graph → Prop} {g : Graph} (h : EachLevel P g) : P g := by
  cases h with
  | intro here _ => exact here

theorem EachLevel.inside {P : Graph → Prop} {g : Graph} (h : EachLevel P g) {n : Node}
    (hn : n ∈ g.nodes) {inner : Graph} (hinner : n.children = some inner) :
    EachLevel P inner := by
  cases h with
  | intro _ inside => exact inside n hn inner hinner

/-- **Induction over levels**: what holds of a graph whenever it holds of the
    contents of its nodes, holds of all graphs. -/
theorem levels_induction {P : Graph → Prop}
    (step : ∀ g, (∀ n ∈ g.nodes, ∀ inner, n.children = some inner → P inner) → P g) (g : Graph) :
    P g :=
  step g fun n _ inner _ => levels_induction step inner
termination_by sizeOf g
decreasing_by
  rename_i hn hinner
  have hnode : sizeOf n < sizeOf g.nodes := List.sizeOf_lt_of_mem hn
  have hchildren : sizeOf inner < sizeOf n := by
    cases n
    simp_all
    omega
  have hgraph : sizeOf g.nodes < sizeOf g := by
    cases g
    simp
    omega
  omega

/-- A graph without sub-processes has one level. -/
theorem EachLevel.of_leaf {P : Graph → Prop} {g : Graph} (h : P g)
    (hleaf : ∀ n ∈ g.nodes, n.children = none) : EachLevel P g := by
  refine .intro h fun n hn inner hinner => ?_
  rw [hleaf n hn] at hinner
  cases hinner

/-! ## Well-formed graphs -/

/-- A graph in which identifiers can be looked up. -/
structure Linked (g : Graph) : Prop where
  nodeIds_nodup : g.nodeIds.Nodup
  flowIds_nodup : g.flowIds.Nodup
  ends : ∀ f ∈ g.flows, f.source ∈ g.nodeIds ∧ f.target ∈ g.nodeIds

/-- A process that can be run from its start to an end. -/
structure Sound (g : Graph) : Prop extends Linked g where
  ends_ne : ∀ f ∈ g.flows, f.source ≠ f.target
  /-- There is exactly one start, and a flow leaves it. -/
  start : ∃ s, g.nodes.filter (fun n => n.kind = .start) = [s] ∧ ∃ f ∈ g.flows, f.source = s.id
  /-- A flow arrives at some end. -/
  finish : ∃ n ∈ g.nodes, n.kind = .finish ∧ ∃ f ∈ g.flows, f.target = n.id

/-- A graph whose nodes and flows have proper identifiers. -/
structure Named (g : Graph) : Prop where
  nodeIds : ∀ id ∈ g.nodeIds, IsIdentifier id
  flowIds : ∀ id ∈ g.flowIds, IsIdentifier id

/-- The contents of a sub-process, apart from the graph around it. -/
structure Enclosed (inner outer : Graph) : Prop extends Linked inner where
  start : ∃ s, inner.nodes.filter (fun n => n.kind = .start) = [s]
  finish : ∃ e, inner.nodes.filter (fun n => n.kind = .finish) = [e]
  nodeIds_disjoint : inner.nodeIds.Disjoint outer.nodeIds
  flowIds_disjoint : inner.flowIds.Disjoint outer.flowIds

/-! ## Identifiers -/

section
variable {g : Graph} {n m : Node} {id : String}

theorem mem_nodeIds : id ∈ g.nodeIds ↔ ∃ n ∈ g.nodes, n.id = id := List.mem_map

theorem id_mem_nodeIds (h : n ∈ g.nodes) : n.id ∈ g.nodeIds := List.mem_map_of_mem h

theorem id_mem_flowIds {f : Flow} (h : f ∈ g.flows) : f.id ∈ g.flowIds := List.mem_map_of_mem h

/-- A node is known by its identifier. -/
theorem eq_of_id_eq (h : g.nodeIds.Nodup) (hn : n ∈ g.nodes) (hm : m ∈ g.nodes)
    (hid : n.id = m.id) : n = m := List.inj_on_of_nodup_map h hn hm hid

/-- A node is found under its identifier. -/
theorem node?_eq_some (h : g.nodeIds.Nodup) : g.node? id = some n ↔ n ∈ g.nodes ∧ n.id = id := by
  constructor
  · intro hfind
    exact ⟨List.mem_of_find?_eq_some hfind, node?_id hfind⟩
  · rintro ⟨hn, rfl⟩
    cases hfind : g.node? n.id with
    | none =>
      have hsome := node?_isSome.2 (id_mem_nodeIds hn)
      rw [hfind] at hsome
      cases hsome
    | some m =>
      rw [eq_of_id_eq h (List.mem_of_find?_eq_some hfind) hn (node?_id hfind)]

theorem of_filter_kind_eq {kind : NodeKind}
    (h : g.nodes.filter (fun m => m.kind = kind) = [n]) : n ∈ g.nodes ∧ n.kind = kind := by
  have hmem : n ∈ g.nodes.filter fun m => m.kind = kind := h ▸ List.mem_singleton_self n
  simpa using List.mem_filter.1 hmem

/-- One node is listed under its identifier. -/
theorem filter_id_eq (h : g.nodeIds.Nodup) (hn : n ∈ g.nodes) :
    g.nodes.filter (fun m => m.id = n.id) = [n] := by
  have hnodup : (g.nodes.filter fun m => m.id = n.id).Nodup := h.of_map.filter _
  have hall : ∀ m ∈ g.nodes.filter (fun m => m.id = n.id), m = n := fun m hm => by
    obtain ⟨hm, hid⟩ := List.mem_filter.1 hm
    exact eq_of_id_eq h hm hn (by simpa using hid)
  have hmem : n ∈ g.nodes.filter fun m => m.id = n.id := List.mem_filter.2 ⟨hn, by simp⟩
  generalize g.nodes.filter (fun m => m.id = n.id) = ms at *
  match ms, hmem with
  | [m], _ => rw [hall m List.mem_cons_self]
  | m :: k :: _, _ =>
    refine absurd ?_ (List.nodup_cons.1 hnodup).1
    rw [hall m List.mem_cons_self, ← hall k (List.mem_cons_of_mem _ List.mem_cons_self)]
    exact List.mem_cons_self

end

/-! ## A graph with two levels -/

/-- A process with a repeating sub-process; its texts hold all characters that
    have a meaning of their own in a document. -/
def enclosing : Graph where
  name := "Buy & <sell>"
  nodes := [
    { id := "s", kind := .start, label := "Begin" },
    { id := "w", kind := .subProcess, label := "Work \"hard\"", lane := some .management
      loops := true
      children := some {
        name := "Inside"
        nodes := [
          { id := "s", kind := .start, label := "Begin" },
          { id := "t", kind := .userTask, label := "It's done" }]
        flows := [{ id := "f", source := "s", target := "t", label := some "<go>" }] } },
    { id := "e", kind := .finish, label := "End" }]
  flows := [
    { id := "f", source := "s", target := "w", label := some "a > b" },
    { id := "g", source := "w", target := "e" }]

theorem linked_enclosing : EachLevel Linked enclosing := by
  refine .intro ⟨by decide, by decide, by decide⟩ fun n hn inner hinner => ?_
  simp only [enclosing, List.mem_cons, List.not_mem_nil, or_false] at hn
  rcases hn with rfl | rfl | rfl
  · cases hinner
  · cases hinner
    refine .of_leaf ⟨by decide, by decide, by decide⟩ fun n hn => ?_
    simp only [List.mem_cons, List.not_mem_nil, or_false] at hn
    rcases hn with rfl | rfl <;> rfl
  · cases hinner

end Swimlane.Graph
