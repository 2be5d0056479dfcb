/-
  Swimlane — folding is conservative.

  * `IsOnlyStandard`: a node outside the cycle is the only one that makes its
    result a standard.  `standard?_eq_some`: it is the one that is found.
  * `Found.replaced_fold`: what becomes of the nodes alone.
  * `Folded c rules g g' sub image`: `g'` is `g` with the cycle in the
    sub-process `sub`; `image` tells what has become of each flow.
    `folded_fold`: such is the graph with the cycle folded.
  * `Graph.foldCycle_conservative`: a graph is folded only around a cycle that
    is entered and left, and then as `Folded` says.
-/
import Swimlane.Proofs.Cycle.Contents
import Swimlane.Proofs.Cycle.Flows

namespace Swimlane

namespace Cycle

open Identifier Swimlane.Graph

/-! ## The common exit -/

theorem mem_distinct {seen ss : List String} {s : String} :
    s ∈ distinct seen ss ↔ s ∈ ss ∧ s ∉ seen := by
  induction ss generalizing seen with
  | nil => simp [distinct]
  | cons t ss ih =>
    rw [distinct]
    by_cases ht : t ∈ seen
    · rw [if_pos (by simpa using ht), ih]
      refine ⟨fun ⟨hs, hseen⟩ => ⟨List.mem_cons_of_mem _ hs, hseen⟩, fun ⟨hs, hseen⟩ => ?_⟩
      exact ⟨(List.mem_cons.1 hs).resolve_left fun h => hseen (h ▸ ht), hseen⟩
    · rw [if_neg (by simpa using ht), List.mem_cons, ih]
      constructor
      · rintro (rfl | ⟨hs, hseen⟩)
        · exact ⟨List.mem_cons_self, ht⟩
        · exact ⟨List.mem_cons_of_mem _ hs, fun h => hseen (List.mem_cons_of_mem _ h)⟩
      · rintro ⟨hs, hseen⟩
        by_cases hst : s = t
        · exact Or.inl hst
        · refine Or.inr ⟨(List.mem_cons.1 hs).resolve_left hst, fun h => ?_⟩
          exact (List.mem_cons.1 h).elim hst hseen

theorem nodup_distinct (seen ss : List String) : (distinct seen ss).Nodup := by
  induction ss generalizing seen with
  | nil => exact List.nodup_nil
  | cons t ss ih =>
    rw [distinct]
    split
    · exact ih seen
    · refine List.nodup_cons.2 ⟨fun h => ?_, ih _⟩
      exact (mem_distinct.1 h).2 List.mem_cons_self

/-- A node outside the cycle to which the cycle leads and that makes its result
    a standard. -/
def IsStandard (c : Cycle) (keywords : List String) (g : Graph) (id : String) : Prop :=
  id ∉ c.ids ∧ (∃ f ∈ g.flows, f.source ∈ c.ids ∧ f.target = id) ∧
    ∃ n ∈ g.nodes, n.id = id ∧
      Vocabulary.matchesAny (Vocabulary.words n.label) keywords = true

/-- The only such node. -/
def IsOnlyStandard (c : Cycle) (keywords : List String) (g : Graph) (id : String) : Prop :=
  c.IsStandard keywords g id ∧ ∀ other, c.IsStandard keywords g other → other = id

section
variable {c : Cycle} {keywords : List String} {g : Graph} {id : String}

theorem mem_exits : id ∈ c.exits g ↔
    id ∉ c.ids ∧ ∃ f ∈ g.flows, f.source ∈ c.ids ∧ f.target = id := by
  simp only [exits, mem_distinct, List.not_mem_nil, not_false_eq_true, and_true, List.mem_map,
    List.mem_filter, leaves, Bool.and_eq_true, holds_iff, Bool.not_eq_true', holds_eq_false]
  constructor
  · rintro ⟨f, ⟨hf, hs, ht⟩, rfl⟩
    exact ⟨ht, f, hf, hs, rfl⟩
  · rintro ⟨ht, f, hf, hs, rfl⟩
    exact ⟨f, ⟨hf, hs, ht⟩, rfl⟩

theorem standardizes_iff (hids : g.nodeIds.Nodup) : standardizes keywords g id = true ↔
    ∃ n ∈ g.nodes, n.id = id ∧
      Vocabulary.matchesAny (Vocabulary.words n.label) keywords = true := by
  unfold standardizes
  cases hnode : g.node? id with
  | none =>
    refine ⟨nofun, fun ⟨n, hn, hid, _⟩ => ?_⟩
    rw [(node?_eq_some hids).2 ⟨hn, hid⟩] at hnode
    cases hnode
  | some n =>
    obtain ⟨hn, hid⟩ := (node?_eq_some hids).1 hnode
    refine ⟨fun h => ⟨n, hn, hid, h⟩, fun ⟨m, hm, hmid, h⟩ => ?_⟩
    rwa [eq_of_id_eq hids hn hm (hid.trans hmid.symm)]

/-- **The standard that is found is the only one.** -/
theorem standard?_eq_some (hids : g.nodeIds.Nodup) :
    c.standard? keywords g = some id ↔ c.IsOnlyStandard keywords g id := by
  have hmem : ∀ t, t ∈ (c.exits g).filter (standardizes keywords g) ↔
      c.IsStandard keywords g t := fun t => by
    rw [List.mem_filter, mem_exits, standardizes_iff hids, IsStandard, and_assoc]
  have hnodup : ((c.exits g).filter (standardizes keywords g)).Nodup :=
    (nodup_distinct _ _).filter _
  simp only [IsOnlyStandard, ← hmem, standard?]
  generalize (c.exits g).filter (standardizes keywords g) = ids at *
  match ids, hnodup with
  | [], _ => simp
  | [t], _ => simp [eq_comm]
  | t :: u :: _, hnodup =>
    refine ⟨nofun, fun ⟨_, honly⟩ => ?_⟩
    refine absurd ?_ (List.nodup_cons.1 hnodup).1
    rw [honly t (by simp), ← honly u (by simp)]
    exact List.mem_cons_self

end

/-! ## Folded graphs -/

/-- What the sub-process of a cycle holds. -/
def interior (c : Cycle) (rules : RuleSet) (g : Graph) : Graph :=
  c.contents rules.loopLabels (fresh g.nodeIds baseId) (fresh g.nodeIds baseId :: g.nodeIds)
    g.flowIds

/-- The sub-process of a cycle. -/
def replacement (c : Cycle) (rules : RuleSet) (g : Graph) : Node :=
  c.subProcess rules.loopLabels (fresh g.nodeIds baseId) (c.interior rules g)

/-- A fold replaces the members of the cycle, and nothing else among the nodes. -/
theorem Found.replaced_fold {c : Cycle} {g : Graph} (h : c.Found g) (hids : g.nodeIds.Nodup)
    (rules : RuleSet) : c.Replaced g (c.fold rules g) (c.replacement rules g) where
  kind := rfl
  free := fresh_notMem _ _
  nodes_perm := by
    obtain ⟨before, m, after, hm, -, -, hbefore, hsplit, hfold⟩ :=
      h.exists_foldNodes hids (c.replacement rules g)
    change (c.foldNodes (c.replacement rules g) c.firstIndex 0 g.nodes).Perm _
    rw [hfold, hsplit]
    exact perm_of_split hbefore hm

/-- The graph `g'` is `g` with the cycle in the sub-process `sub`. -/
structure Folded (c : Cycle) (rules : RuleSet) (g g' : Graph) (sub : Node)
    (image : Flow → List Flow) : Prop where
  name : g'.name = g.name
  kind : sub.kind = .subProcess ∧ sub.loops = true
  free : sub.id ∉ g.nodeIds
  /-- The sub-process takes the place of the first member, the other members
      disappear, and the other nodes stay as they are. -/
  nodes : ∃ before m after, m ∈ c.members ∧ (∀ k ∈ c.members, m.index ≤ k.index) ∧
    before.length = m.index ∧ (∀ n ∈ before, n.id ∉ c.ids) ∧
    g.nodes = before ++ m.node :: after ∧
    g'.nodes = before ++ sub :: after.filter fun n => n.id ∉ c.ids
  /-- Each member is in the sub-process once. -/
  children : ∃ inner, sub.children = some inner ∧
    ∀ m ∈ c.members, inner.nodes.filter (fun n => n.id = m.node.id) = [m.node]
  flows : g'.flows = g.flows.flatMap image
  redirected : ∀ f ∈ g.flows, Redirected c sub.id (c.IsOnlyStandard rules.standardizeKeywords g)
    rules.loopLabels.exit g.flowIds f (image f)
  /-- Of the flows to the common exit the first one has an image. -/
  common : ∀ f ∈ g.flows, f.source ∈ c.ids →
    c.IsOnlyStandard rules.standardizeKeywords g f.target →
    (image f = [] ↔
      g.flows.find? (fun k => k.source ∈ c.ids ∧ k.target = f.target) ≠ some f)
  flowIds_nodup : g'.flowIds.Nodup

/-- **Folding a cycle** puts it into a sub-process. -/
theorem folded_fold {c : Cycle} {g : Graph} (rules : RuleSet) (h : c.Found g)
    (hnodes : g.nodeIds.Nodup) (hflows : g.flowIds.Nodup) :
    ∃ image, c.Folded rules g (c.fold rules g) (c.replacement rules g) image := by
  have hstandard : ∀ t, c.standard? rules.standardizeKeywords g = some t ↔
      c.IsOnlyStandard rules.standardizeKeywords g t := fun t => standard?_eq_some hnodes
  have hused : g.flowIds ⊆ (c.interior rules g).flowIds.reverse ++ g.flowIds :=
    List.subset_append_right _ _
  obtain ⟨image, himage, hred, hfirst⟩ := exists_image (c.replacement rules g).id
    rules.loopLabels.exit (fun t ht => ((hstandard t).1 ht).1.1)
    ((c.interior rules g).flowIds.reverse ++ g.flowIds) false hflows.of_map
  refine ⟨image, ?_⟩
  exact {
    name := rfl
    kind := ⟨rfl, rfl⟩
    free := fresh_notMem _ _
    nodes := h.exists_foldNodes hnodes (c.replacement rules g)
    children := by
      refine ⟨c.interior rules g, rfl, fun m hm => ?_⟩
      exact filter_contents (h.ids_nodup hnodes)
        (List.Subset.trans h.ids_subset (List.subset_cons_self _ _)) (mem_nodes.2 ⟨m, hm, rfl⟩)
    flows := himage
    redirected := fun f hf => by
      rw [← funext fun t => propext (hstandard t)]
      exact (hred f hf).mono hused
    common := fun f hf hs hexit => by
      rw [hfirst f hf hs ((hstandard _).2 hexit)]
      simp
    flowIds_nodup := nodup_foldFlows hflows hused }

/-- A flow enters the cycle, and a flow leaves it. -/
def Crossed (c : Cycle) (g : Graph) : Prop :=
  (∃ f ∈ g.flows, f.source ∉ c.ids ∧ f.target ∈ c.ids) ∧
    ∃ f ∈ g.flows, f.source ∈ c.ids ∧ f.target ∉ c.ids

theorem isOpen_iff {c : Cycle} {g : Graph} : c.isOpen g = true ↔ c.Crossed g := by
  simp [isOpen, Crossed, enters, leaves, holds_iff, holds_eq_false]

end Cycle

namespace Graph

open Swimlane.Cycle

theorem foldCycle_of_crossed {rules : RuleSet} {g : Graph} {c : Cycle}
    (hfind : find? rules.loopRoles g = some c) (h : c.Crossed g) :
    g.foldCycle rules = c.fold rules g := by
  simp [foldCycle, hfind, isOpen_iff.2 h]

/-- **Folding is conservative.**  A graph is folded only around a cycle of four
    tasks that is entered and left, and then nothing else is changed than the
    cycle and the flows at its boundary. -/
theorem foldCycle_conservative (rules : RuleSet) {g : Graph} (hnodes : g.nodeIds.Nodup)
    (hflows : g.flowIds.Nodup) :
    ((¬ ∃ c, find? rules.loopRoles g = some c ∧ c.Crossed g) → g.foldCycle rules = g) ∧
      ∀ c, find? rules.loopRoles g = some c → c.Crossed g →
        c.Found g ∧ ∃ sub image, c.Folded rules g (g.foldCycle rules) sub image := by
  constructor
  · intro hnone
    cases hfind : find? rules.loopRoles g with
    | none => exact foldCycle_eq_self hfind
    | some c =>
      refine foldCycle_of_closed hfind ?_
      rw [Bool.eq_false_iff]
      exact fun hopen => hnone ⟨c, hfind, isOpen_iff.1 hopen⟩
  · intro c hfind hcrossed
    have hfound := found_of_find? hfind
    obtain ⟨image, hfolded⟩ := folded_fold rules hfound hnodes hflows
    rw [foldCycle_of_crossed hfind hcrossed]
    exact ⟨hfound, c.replacement rules g, image, hfolded⟩

/-- A process with a cycle whose members are listed in another order, and from
    which two flows lead to a standard. -/
def revolving : Graph where
  name := "Revolving"
  nodes :=
    [{ id := "s", kind := .start, label := "Begin" },
     { id := "c", kind := .userTask, label := "check" },
     { id := "n", kind := .userTask, label := "Note" },
     { id := "a", kind := .userTask, label := "adjust" },
     { id := "p", kind := .userTask, label := "plan" },
     { id := "x", kind := .task, label := "execute" },
     { id := "pdca_cycle", kind := .userTask, label := "standard" },
     { id := "e", kind := .finish, label := "End" }]
  flows :=
    [{ id := "1", source := "s", target := "p" },
     { id := "2", source := "p", target := "x" },
     { id := "3", source := "x", target := "c" },
     { id := "4", source := "c", target := "pdca_cycle" },
     { id := "5", source := "c", target := "a" },
     { id := "6", source := "a", target := "pdca_cycle" },
     { id := "7", source := "a", target := "n", label := some "note" },
     { id := "8", source := "n", target := "x" },
     { id := "1_loop", source := "pdca_cycle", target := "e" }]

/-- The cycle of `revolving`. -/
def revolution : Cycle where
  plan := ⟨4, { id := "p", kind := .userTask, label := "plan" }⟩
  execute := ⟨5, { id := "x", kind := .task, label := "execute" }⟩
  check := ⟨1, { id := "c", kind := .userTask, label := "check" }⟩
  act := ⟨3, { id := "a", kind := .userTask, label := "adjust" }⟩

theorem find?_revolving : find? {} revolving = some revolution := by rfl

theorem crossed_revolving : revolution.Crossed revolving := isOpen_iff.1 (by decide)

theorem folded_revolving : revolution.Crossed revolving ∧
    ∃ sub image, revolution.Folded {} revolving (revolving.foldCycle {}) sub image := by
  have hfold := foldCycle_conservative {} (by decide : revolving.nodeIds.Nodup)
    (by decide : revolving.flowIds.Nodup)
  exact ⟨crossed_revolving, (hfold.2 revolution find?_revolving crossed_revolving).2⟩

end Graph

end Swimlane
