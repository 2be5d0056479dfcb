/-
  Swimlane — accepted drafts are well formed.

  * `Draft.Coherent d`: identifiers differ, flows join two nodes, there is one
    start, which is left, and an end that is reached.
  * `Draft.WellFormed limits d`: in addition the counts are in bounds, all
    identifiers have their shape and all texts are plain.

  `coherent_of_validate` and `wellFormed_of_validate`: an accepted candidate
  gives a draft that is both.  `wellFormed_collided` is a case in which the
  written identifiers collide.
-/
import Swimlane.Proofs.Draft.Reading

namespace Swimlane.Draft

open Identifier (IsIdentifier)
open Text (IsPlain)

/-! ## Well-formed drafts -/

/-- A draft that hangs together. -/
structure Coherent (d : Draft) : Prop where
  nodeIds_nodup : (d.nodes.map Node.id).Nodup
  flowIds_nodup : (d.flows.map Flow.id).Nodup
  ends : ∀ f ∈ d.flows,
    f.source ∈ d.nodes.map Node.id ∧ f.target ∈ d.nodes.map Node.id ∧ f.source ≠ f.target
  /-- There is exactly one start, and a flow leaves it. -/
  start : ∃ s, d.nodes.filter (fun n => n.kind = .start) = [s] ∧ ∃ f ∈ d.flows, f.source = s.id
  /-- A flow arrives at some end. -/
  finish : ∃ n ∈ d.nodes, n.kind = .finish ∧ ∃ f ∈ d.flows, f.target = n.id

/-- A draft in its normal form, within the limits. -/
structure WellFormed (limits : Limits) (d : Draft) : Prop extends Coherent d where
  nodes_length : 3 ≤ d.nodes.length ∧ d.nodes.length ≤ limits.maxNodes
  flows_length : 2 ≤ d.flows.length ∧ d.flows.length ≤ limits.maxFlows
  nodeIds : ∀ n ∈ d.nodes, IsIdentifier n.id
  flowIds : ∀ f ∈ d.flows, IsIdentifier f.id
  name : IsPlain 120 d.name.toList
  labels : ∀ n ∈ d.nodes, IsPlain 120 n.label.toList
  flowLabels : ∀ f ∈ d.flows, ∀ label, f.label = some label → IsPlain 80 label.toList

/-! ## What was read -/

section
variable {items : List Json} {nodes : List Node} {nodeIds : List String} {flows : List Flow}

theorem nodup_of_readNodes (h : readNodes items = .ok nodes) : (nodes.map Node.id).Nodup := by
  refine nodup_of_readItems (fun used i v n hn => ?_) h
  obtain ⟨-, -, id, -, -, -, -, -, hid, -⟩ := readNode_eq_ok.1 hn
  rw [hid]
  exact Identifier.assign_notMem _ _ _ _

theorem nodup_of_readFlows (h : readFlows nodeIds items = .ok flows) :
    (flows.map Flow.id).Nodup := by
  refine nodup_of_readItems (fun used i v f hf => ?_) h
  obtain ⟨-, ⟨id, -, hid⟩, -⟩ := readFlow_eq_ok.1 hf
  rw [hid]
  exact Identifier.assign_notMem _ _ _ _

theorem ends_of_readFlows (h : readFlows nodeIds items = .ok flows) {f : Flow} (hf : f ∈ flows) :
    f.source ∈ nodeIds ∧ f.target ∈ nodeIds ∧ f.source ≠ f.target := by
  obtain ⟨used, i, v, -, -, hread⟩ := exists_read_of_mem h hf
  obtain ⟨-, -, hsource, htarget, hne, -⟩ := readFlow_eq_ok.1 hread
  obtain ⟨-, -, -, hs⟩ := readEnd_eq_ok.1 hsource
  obtain ⟨-, -, -, ht⟩ := readEnd_eq_ok.1 htarget
  exact ⟨hs, ht, hne⟩

/-- The shape of the nodes that are read, as long as there are not too many of
    them for numerals to fit. -/
theorem shape_of_readNodes (h : readNodes items = .ok nodes)
    (hcount : nodes.length < Identifier.maxNumeral) {n : Node} (hn : n ∈ nodes) :
    IsIdentifier n.id ∧ IsPlain maxLabel n.label.toList := by
  obtain ⟨used, i, v, hused, hi, hread⟩ := exists_read_of_mem h hn
  obtain ⟨-, -, id, label, -, -, -, hlabel, hnid, hnlabel⟩ := readNode_eq_ok.1 hread
  constructor
  · rw [hnid]
    exact Identifier.isIdentifier_assign (by decide) (by decide) (hused.trans hcount)
      (hi.trans hcount) id
  · rw [hnlabel]
    exact Text.isPlain_plainString (by decide) (trim_ne_nil_of_requireText hlabel)

theorem shape_of_readFlows (h : readFlows nodeIds items = .ok flows)
    (hcount : flows.length < Identifier.maxNumeral) {f : Flow} (hf : f ∈ flows) :
    IsIdentifier f.id ∧ ∀ label, f.label = some label → IsPlain maxFlowLabel label.toList := by
  obtain ⟨used, i, v, hused, hi, hread⟩ := exists_read_of_mem h hf
  obtain ⟨-, ⟨id, -, hfid⟩, -, -, -, hflabel⟩ := readFlow_eq_ok.1 hread
  constructor
  · rw [hfid]
    exact Identifier.isIdentifier_assign (by decide) (by decide) (hused.trans hcount)
      (hi.trans hcount) id
  · intro label hlabel
    rw [hflabel, readFlowLabel] at hlabel
    split at hlabel
    · split at hlabel
      · cases hlabel
      · rename_i s _ hblank
        obtain rfl := Option.some.inj hlabel
        exact Text.isPlain_plainString (by decide) fun hnil => hblank (by simp [hnil])
    · cases hlabel

end

/-! ## Accepted drafts -/

/-- **An accepted draft hangs together.** -/
theorem coherent_of_validate {limits : Limits} {v : Json} {d : Draft}
    (h : validate limits v = .ok d) : d.Coherent := by
  obtain ⟨-, name, rawNodes, rawFlows, -, -, -, -, -, hnodes, hflows, hwhole, -⟩ :=
    validate_eq_ok.1 h
  obtain ⟨start, hstart, hleft, hfinish⟩ := checkWhole_eq_ok.1 hwhole
  exact {
    nodeIds_nodup := nodup_of_readNodes hnodes
    flowIds_nodup := nodup_of_readFlows hflows
    ends := fun f hf => ends_of_readFlows hflows hf
    start := ⟨start, hstart, hleft⟩
    finish := hfinish }

/-- **An accepted draft is well formed.**  Limits are numbers of 64 bits, so that
    there are fewer nodes and flows than numerals that fit into an
    identifier. -/
theorem wellFormed_of_validate {limits : Limits} {v : Json} {d : Draft}
    (hmaxNodes : limits.maxNodes < UInt64.size) (hmaxFlows : limits.maxFlows < UInt64.size)
    (h : validate limits v = .ok d) : d.WellFormed limits := by
  obtain ⟨-, name, rawNodes, rawFlows, hname, -, -, hcountNodes, hcountFlows, hnodes, hflows, -,
    hdname⟩ := validate_eq_ok.1 h
  obtain ⟨hminNodes, hleNodes⟩ := checkCount_eq_ok.1 hcountNodes
  obtain ⟨hminFlows, hleFlows⟩ := checkCount_eq_ok.1 hcountFlows
  rw [← length_of_readItems hnodes] at hminNodes hleNodes
  rw [← length_of_readItems hflows] at hminFlows hleFlows
  have hwords : UInt64.size ≤ Identifier.maxNumeral := by decide
  have hnode := fun n hn => shape_of_readNodes (n := n) hnodes (by omega) hn
  have hflow := fun f hf => shape_of_readFlows (f := f) hflows (by omega) hf
  exact {
    toCoherent := coherent_of_validate h
    nodes_length := ⟨hminNodes, hleNodes⟩
    flows_length := ⟨hminFlows, hleFlows⟩
    nodeIds := fun n hn => (hnode n hn).1
    flowIds := fun f hf => (hflow f hf).1
    name := by
      rw [hdname]
      exact Text.isPlain_plainString (by decide) (trim_ne_nil_of_requireText hname)
    labels := fun n hn => (hnode n hn).2
    flowLabels := fun f hf => (hflow f hf).2 }

/-- A candidate in which two nodes and two flows have the same slug, and one node
    has none. -/
def colliding : Json :=
  .obj [("processName", .str "  Two  steps "),
    ("nodes", .arr [
      .obj [("id", .str "a"), ("type", .str "start"), ("label", .str "Begin")],
      .obj [("id", .str "A!"), ("type", .str "task"), ("label", .str "do\t it")],
      .obj [("id", .str "_"), ("type", .str "end"), ("label", .str "Done")]]),
    ("flows", .arr [
      .obj [("id", .str "x"), ("source", .str "a"), ("target", .str "a_1")],
      .obj [("id", .str "X"), ("source", .str "a_1"), ("target", .str "node_3"),
        ("label", .str "ok")]])]

/-- The draft of `colliding`. -/
def collided : Draft :=
  { name := "Two steps"
    nodes := [⟨"a", .start, "Begin"⟩, ⟨"a_1", .task, "do it"⟩, ⟨"node_3", .finish, "Done"⟩]
    flows := [⟨"x", "a", "a_1", none⟩, ⟨"x_1", "a_1", "node_3", some "ok"⟩] }

theorem validate_colliding : validate {} colliding = .ok collided := by decide +kernel

theorem wellFormed_collided : validate {} colliding = .ok collided ∧ collided.WellFormed {} :=
  ⟨validate_colliding, wellFormed_of_validate (by decide) (by decide) validate_colliding⟩

end Swimlane.Draft
