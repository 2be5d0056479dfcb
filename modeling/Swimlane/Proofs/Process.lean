/-
  Swimlane — processes stay well formed from the draft to the last fold.

  * `linked_ofDraft`, `sound_ofDraft`: the process of a draft that hangs together
    is linked, and sound if the rules make tasks of tasks.
  * `foldCycle_cases`: what folding a graph does.
  * `EachLevel.linked_foldCycle`: folding keeps all levels linked.
  * `sound_foldCycles`: an accepted draft gives a sound process, and folding any
    number of times keeps it sound; what a fold adds is enclosed, and proper
    identifiers stay proper.
-/
import Swimlane.Classification
import Swimlane.Proofs.Cycle.Sound
import Swimlane.Proofs.Draft.WellFormed

namespace Swimlane.Graph

open Swimlane.Cycle

/-! ## Classification -/

section
variable {rules : RuleSet} {d : Draft}

/-- The process of a draft is linked. -/
theorem linked_ofDraft (h : d.Coherent) : (ofDraft rules d).Linked where
  nodeIds_nodup := by
    rw [nodeIds_ofDraft]
    exact h.nodeIds_nodup
  flowIds_nodup := h.flowIds_nodup
  ends f hf := by
    rw [nodeIds_ofDraft]
    obtain ⟨hsource, htarget, -⟩ := h.ends f hf
    exact ⟨hsource, htarget⟩

theorem children_ofDraft (rules : RuleSet) (n : Draft.Node) :
    (Node.ofDraft rules n).children = none := by
  unfold Node.ofDraft
  split <;> rfl

theorem eachLevel_ofDraft {P : Graph → Prop} (h : P (ofDraft rules d)) :
    EachLevel P (ofDraft rules d) := by
  refine .of_leaf h fun n hn => ?_
  obtain ⟨m, -, rfl⟩ := List.mem_map.1 hn
  exact children_ofDraft rules m

/-- Rules that make tasks of tasks. -/
structure TaskRules (rules : RuleSet) : Prop where
  classification : ∀ rule ∈ rules.classification, rule.kind.isTask = true
  default : rules.defaultKind.isTask = true

theorem TaskRules.classify (h : TaskRules rules) (label : String) :
    (rules.classify label).1.isTask = true := by
  simp only [RuleSet.classify]
  split
  · rename_i rule hfind
    exact h.classification rule (List.mem_of_find?_eq_some hfind)
  · exact h.default

/-- The nodes that are no tasks keep their kind, and tasks stay tasks. -/
theorem TaskRules.kind_ofDraft (h : TaskRules rules) (kind : Draft.Kind) (hkind : kind ≠ .task)
    (n : Draft.Node) : (Node.ofDraft rules n).kind = kind.nodeKind ↔ n.kind = kind := by
  unfold Node.ofDraft
  split
  · rename_i htask
    have hclass := h.classify n.label
    rw [htask]
    constructor
    · intro heq
      have hstask : kind.nodeKind.isTask = true := heq ▸ hclass
      cases kind <;> first | exact absurd rfl hkind | cases hstask
    · exact fun heq => absurd heq.symm hkind
  · rename_i hother
    constructor
    · intro heq
      cases hn : n.kind <;> cases kind <;> simp_all [Draft.Kind.nodeKind]
    · intro heq
      rw [heq]

/-- **The process of a draft is sound.** -/
theorem sound_ofDraft (hrules : TaskRules rules) (h : d.Coherent) : (ofDraft rules d).Sound where
  toLinked := linked_ofDraft h
  ends_ne f hf := (h.ends f hf).2.2
  start := by
    obtain ⟨s, hs, f, hf, hleft⟩ := h.start
    have hkind : ∀ n, (Node.ofDraft rules n).kind = .start ↔ n.kind = .start :=
      hrules.kind_ofDraft .start (by decide)
    refine ⟨Node.ofDraft rules s, ?_, f, hf, ?_⟩
    · simp only [ofDraft, List.filter_map, Function.comp_def, hkind, hs, List.map_cons,
        List.map_nil]
    · rw [Node.ofDraft_id]
      exact hleft
  finish := by
    obtain ⟨n, hn, hkind, f, hf, hreached⟩ := h.finish
    refine ⟨Node.ofDraft rules n, List.mem_map_of_mem hn, ?_, f, hf, ?_⟩
    · exact (hrules.kind_ofDraft .finish (by decide) n).2 hkind
    · rw [Node.ofDraft_id]
      exact hreached

end

/-! ## Folding once -/

section
variable {rules : RuleSet} {g : Graph}

/-- A graph stays as it is, or one of its cycles is folded. -/
theorem foldCycle_cases (rules : RuleSet) (g : Graph) :
    g.foldCycle rules = g ∨ ∃ c : Cycle, c.Found g ∧ g.foldCycle rules = c.fold rules g := by
  unfold foldCycle
  split
  · rename_i c hfind
    split
    · exact Or.inr ⟨c, found_of_find? hfind, rfl⟩
    · exact Or.inl rfl
  · exact Or.inl rfl

/-- Folding keeps a process sound. -/
theorem Sound.foldCycle (h : g.Sound) (rules : RuleSet) : (g.foldCycle rules).Sound := by
  rcases foldCycle_cases rules g with heq | ⟨c, hfound, heq⟩
  · rw [heq]
    exact h
  · obtain ⟨image, hfolded⟩ := folded_fold rules hfound h.nodeIds_nodup h.flowIds_nodup
    rw [heq]
    exact hfolded.sound hfound h

/-- Folding keeps all levels linked. -/
theorem EachLevel.linked_foldCycle (h : EachLevel Linked g) (rules : RuleSet) :
    EachLevel Linked (g.foldCycle rules) := by
  rcases foldCycle_cases rules g with heq | ⟨c, hfound, heq⟩
  · rw [heq]
    exact h
  · have hids := h.here.nodeIds_nodup
    have hflows := h.here.flowIds_nodup
    obtain ⟨image, hfolded⟩ := folded_fold rules hfound hids hflows
    rw [heq]
    exact eachLevel_fold rules hfound hids hflows h (hfolded.linked h.here)
      (enclosed_interior rules hfound hids hflows).toLinked

/-- What a fold adds is a sub-process with enclosed contents. -/
theorem Linked.enclosed_foldCycle (h : g.Linked) (rules : RuleSet) {n : Node}
    (hn : n ∈ (g.foldCycle rules).nodes) (hnew : n ∉ g.nodes) :
    ∃ inner, n.children = some inner ∧ inner.Enclosed (g.foldCycle rules) := by
  rcases foldCycle_cases rules g with heq | ⟨c, hfound, heq⟩
  · rw [heq] at hn
    exact absurd hn hnew
  · obtain ⟨image, hfolded⟩ := folded_fold rules hfound h.nodeIds_nodup h.flowIds_nodup
    rw [heq] at hn ⊢
    rcases hfolded.mem_nodes.1 hn with rfl | ⟨hn, -⟩
    · exact ⟨c.interior rules g, rfl,
        enclosed_interior rules hfound h.nodeIds_nodup h.flowIds_nodup⟩
    · exact absurd hn hnew

/-- A graph with proper identifiers on all levels, whose lists fit into a memory
    of 64-bit addresses. -/
structure NamedInMemory (g : Graph) : Prop where
  named : EachLevel Named g
  nodes_length : g.nodes.length < UInt64.size
  flows_length : g.flows.length < UInt64.size

/-- Folding keeps the identifiers proper. -/
theorem NamedInMemory.foldCycle (hg : g.Linked) (h : NamedInMemory g) (rules : RuleSet) :
    NamedInMemory (g.foldCycle rules) := by
  rcases foldCycle_cases rules g with heq | ⟨c, hfound, heq⟩
  · rw [heq]
    exact h
  · obtain ⟨image, hfolded⟩ := folded_fold rules hfound hg.nodeIds_nodup hg.flowIds_nodup
    obtain ⟨houter, hinner⟩ := named_fold rules h.named.here hfound hg.nodeIds_nodup
      hg.flowIds_nodup h.nodes_length h.flows_length
    rw [heq]
    exact {
      named := eachLevel_fold rules hfound hg.nodeIds_nodup hg.flowIds_nodup h.named houter hinner
      nodes_length := hfolded.length_nodes_le.trans_lt h.nodes_length
      flows_length := (length_foldFlows_le _ _ _ _ _ _).trans_lt h.flows_length }

end

/-! ## Folding any number of times -/

/-- The graph folded by each of the rule sets, one after the other. -/
def foldCycles (g : Graph) (rules : List RuleSet) : Graph :=
  rules.foldl (fun g r => g.foldCycle r) g

theorem Sound.foldCycles {g : Graph} (h : g.Sound) (rules : List RuleSet) :
    (g.foldCycles rules).Sound := by
  induction rules generalizing g with
  | nil => exact h
  | cons r rules ih => exact ih (h.foldCycle r)

theorem NamedInMemory.foldCycles {g : Graph} (hg : g.Sound) (h : NamedInMemory g)
    (rules : List RuleSet) : NamedInMemory (g.foldCycles rules) := by
  induction rules generalizing g with
  | nil => exact h
  | cons r rules ih => exact ih (hg.foldCycle r) (h.foldCycle hg.toLinked r)

/-- **Processes stay well formed.**  The process of an accepted draft is sound,
    and however often a sound process is folded, it stays sound; the
    sub-processes that a fold adds are enclosed, and proper identifiers stay
    proper on all levels. -/
theorem soundness_survives_folding :
    (∀ limits v d rules, Draft.validate limits v = .ok d → TaskRules rules →
      (ofDraft rules d).Sound) ∧
    ∀ g : Graph, g.Sound →
      (∀ rules, (g.foldCycles rules).Sound) ∧
      (∀ rules r, ∀ n ∈ ((g.foldCycles rules).foldCycle r).nodes, n ∉ (g.foldCycles rules).nodes →
        ∃ inner, n.children = some inner ∧ inner.Enclosed ((g.foldCycles rules).foldCycle r)) ∧
      (NamedInMemory g → ∀ rules, EachLevel Named (g.foldCycles rules)) := by
  refine ⟨fun limits v d rules hvalid hrules => ?_, fun g hg => ⟨?_, ?_, ?_⟩⟩
  · exact sound_ofDraft hrules (Draft.coherent_of_validate hvalid)
  · exact hg.foldCycles
  · intro rules r n hn hnew
    exact (hg.foldCycles rules).toLinked.enclosed_foldCycle r hn hnew
  · intro hnamed rules
    exact (hnamed.foldCycles hg rules).named

theorem sound_revolving : revolving.Sound where
  nodeIds_nodup := by decide
  flowIds_nodup := by decide
  ends := by decide
  ends_ne := by decide
  start := ⟨_, rfl, by decide⟩
  finish := ⟨{ id := "e", kind := .finish, label := "End" }, by simp [revolving], rfl, by decide⟩

theorem namedInMemory_revolving : NamedInMemory revolving where
  named := by
    refine .of_leaf ⟨by decide, by decide⟩ fun n hn => ?_
    simp only [revolving, List.mem_cons, List.not_mem_nil, or_false] at hn
    rcases hn with rfl | rfl | rfl | rfl | rfl | rfl | rfl | rfl <;> rfl
  nodes_length := by decide
  flows_length := by decide

theorem soundness_of_collided_and_revolving :
    (ofDraft {} Draft.collided).Sound ∧ (revolving.foldCycles [{}, {}]).Sound ∧
      (∃ n ∈ (revolving.foldCycle {}).nodes, n ∉ revolving.nodes ∧
        ∃ inner, n.children = some inner ∧ inner.Enclosed (revolving.foldCycle {})) ∧
      EachLevel Named (revolving.foldCycles [{}, {}]) := by
  obtain ⟨haccepted, hfolded⟩ := soundness_survives_folding
  obtain ⟨hsound, hadded, hnamed⟩ := hfolded revolving sound_revolving
  refine ⟨?_, hsound _, ?_, hnamed namedInMemory_revolving _⟩
  · exact haccepted {} Draft.colliding Draft.collided {} Draft.validate_colliding ⟨by decide, rfl⟩
  · obtain ⟨image, hfold⟩ := folded_fold {} (found_of_find? find?_revolving)
      sound_revolving.nodeIds_nodup sound_revolving.flowIds_nodup
    have heq : revolving.foldCycle {} = revolution.fold {} revolving :=
      foldCycle_of_crossed find?_revolving crossed_revolving
    have hmem : revolution.replacement {} revolving ∈ (revolving.foldCycle {}).nodes :=
      heq ▸ hfold.mem_nodes.2 (Or.inl rfl)
    have hnew : revolution.replacement {} revolving ∉ revolving.nodes := by
      intro h
      exact hfold.free (id_mem_nodeIds h)
    exact ⟨_, hmem, hnew, hadded [] {} _ hmem hnew⟩

end Swimlane.Graph
