/-
  Swimlane — folded graphs are well formed.

  * `Folded.replaced`, `Folded.exists_of_target`: nodes and flows of a folded graph,
    without their order.
  * `Folded.linked`, `Folded.sound`, `named_fold`: what folding keeps.
  * `enclosed_interior`: what the new sub-process holds.
  * `Sound.foldCycle`, `EachLevel.linked_foldCycle`, `EachLevel.named_foldCycle`:
    the same of a graph whose cycle is folded if it has one.
-/
import Swimlane.Proofs.Cycle.Fold

namespace Swimlane

namespace Cycle

open Identifier Swimlane.Graph

/-! ## Nodes -/

namespace Folded

variable {c : Cycle} {rules : RuleSet} {g g' : Graph} {sub : Node} {image : Flow → List Flow}

/-- The sub-process and the nodes outside. -/
theorem replaced (h : c.Folded rules g g' sub image) : c.Replaced g g' sub where
  kind := h.kind.1
  free := h.free
  nodes_perm := by
    obtain ⟨before, m, after, hm, -, -, hbefore, hsplit, hsplit'⟩ := h.nodes
    rw [hsplit, hsplit']
    exact perm_of_split hbefore hm

theorem length_nodes_le (h : c.Folded rules g g' sub image) :
    g'.nodes.length ≤ g.nodes.length := by
  obtain ⟨before, m, after, -, -, -, -, hsplit, hsplit'⟩ := h.nodes
  have hle := List.length_filter_le (fun n : Node => n.id ∉ c.ids) after
  rw [hsplit, hsplit', List.length_append, List.length_append, List.length_cons, List.length_cons]
  omega

theorem mem_nodes (h : c.Folded rules g g' sub image) {n : Node} :
    n ∈ g'.nodes ↔ n = sub ∨ n ∈ g.nodes ∧ n.id ∉ c.ids := h.replaced.mem_nodes

theorem mem_nodeIds (h : c.Folded rules g g' sub image) {id : String} :
    id ∈ g'.nodeIds ↔ id = sub.id ∨ id ∈ g.nodeIds ∧ id ∉ c.ids := h.replaced.mem_nodeIds

theorem nodeIds_nodup (h : c.Folded rules g g' sub image) (hids : g.nodeIds.Nodup) :
    g'.nodeIds.Nodup := h.replaced.nodeIds_nodup hids

/-- A node that is no task is kept, and no other of its kind is added. -/
theorem filter_kind (h : c.Folded rules g g' sub image) (hfound : c.Found g)
    (hids : g.nodeIds.Nodup) {kind : NodeKind} (hsub : kind ≠ .subProcess)
    (htask : kind.isTask = false) {s : Node}
    (hs : g.nodes.filter (fun n => n.kind = kind) = [s]) :
    g'.nodes.filter (fun n => n.kind = kind) = [s] := by
  obtain ⟨hmem, rfl⟩ := of_filter_kind_eq hs
  have hout : s.id ∉ c.ids := hfound.notMem_ids hids hmem htask
  have hperm := h.replaced.nodes_perm.filter fun n => n.kind = s.kind
  have hne : ¬ sub.kind = s.kind := h.kind.1 ▸ hsub.symm
  rw [List.filter_cons_of_neg (by simpa using hne), List.filter_comm, hs,
    List.filter_cons_of_pos (by simpa using hout), List.filter_nil] at hperm
  exact List.perm_singleton.1 hperm

end Folded

/-! ## Flows -/

section
variable {c : Cycle} {id : String} {IsExit : String → Prop} {exitLabel : String}
  {used : List String} {f f' : Flow} {out : List Flow}

/-- Each end of a redirected flow is the old one or the sub-process, and not both
    ends are the sub-process. -/
theorem Redirected.ends (h : Redirected c id IsExit exitLabel used f out) (hf' : f' ∈ out) :
    (f'.source = f.source ∧ f.source ∉ c.ids ∧ f'.target = f.target ∧ f.target ∉ c.ids) ∨
      (f'.source = f.source ∧ f.source ∉ c.ids ∧ f'.target = id) ∨
        f'.source = id ∧ f'.target = f.target ∧ f.target ∉ c.ids := by
  cases h <;> simp_all

theorem Redirected.exists_of_source (h : Redirected c id IsExit exitLabel used f out)
    (hs : f.source ∉ c.ids) : ∃ f' ∈ out, f'.source = f.source := by
  cases h <;> simp_all

theorem Redirected.exists_of_target (h : Redirected c id IsExit exitLabel used f out)
    (ht : f.target ∉ c.ids) (hne : out ≠ []) : ∃ f' ∈ out, f'.target = f.target := by
  cases h <;> simp_all

theorem Redirected.isExit_of_nil (h : Redirected c id IsExit exitLabel used f [])
    (ht : f.target ∉ c.ids) : f.source ∈ c.ids ∧ IsExit f.target := by
  cases h with
  | inside _ hin => exact absurd hin ht
  | follow hs _ hexit => exact ⟨hs, hexit⟩

end

namespace Folded

variable {c : Cycle} {rules : RuleSet} {g g' : Graph} {sub : Node} {image : Flow → List Flow}

theorem exists_of_source (h : c.Folded rules g g' sub image) {f : Flow} (hf : f ∈ g.flows)
    (hs : f.source ∉ c.ids) : ∃ f' ∈ g'.flows, f'.source = f.source := by
  obtain ⟨f', hf', hsource⟩ := (h.redirected f hf).exists_of_source hs
  refine ⟨f', ?_, hsource⟩
  rw [h.flows]
  exact List.mem_flatMap.2 ⟨f, hf, hf'⟩

/-- A node outside that is reached is still reached: if a flow to it has
    disappeared, then for the sake of the first flow to the common exit. -/
theorem exists_of_target (h : c.Folded rules g g' sub image) {f : Flow} (hf : f ∈ g.flows)
    (ht : f.target ∉ c.ids) : ∃ f' ∈ g'.flows, f'.target = f.target := by
  suffices hkept : ∃ k ∈ g.flows, k.target = f.target ∧ image k ≠ [] by
    obtain ⟨k, hk, hkt, hne⟩ := hkept
    obtain ⟨f', hf', htarget⟩ := (h.redirected k hk).exists_of_target (hkt ▸ ht) hne
    refine ⟨f', ?_, htarget.trans hkt⟩
    rw [h.flows]
    exact List.mem_flatMap.2 ⟨k, hk, hf'⟩
  by_cases hne : image f = []
  · obtain ⟨hs, hexit⟩ := (hne ▸ h.redirected f hf).isExit_of_nil ht
    cases hfind : g.flows.find? (fun k => k.source ∈ c.ids ∧ k.target = f.target) with
    | none => exact absurd (List.find?_eq_none.1 hfind f hf) (by simpa using hs)
    | some k =>
      obtain ⟨hks, hkt⟩ : k.source ∈ c.ids ∧ k.target = f.target := by
        simpa using List.find?_some hfind
      have hk := List.mem_of_find?_eq_some hfind
      refine ⟨k, hk, hkt, fun hnil => ?_⟩
      refine (h.common k hk hks (hkt ▸ hexit)).1 hnil ?_
      rw [hkt]
      exact hfind
  · exact ⟨f, hf, rfl, hne⟩

/-! ## Well-formed graphs -/

/-- A folded graph is linked. -/
theorem linked (h : c.Folded rules g g' sub image) (hg : g.Linked) : g'.Linked where
  nodeIds_nodup := h.nodeIds_nodup hg.nodeIds_nodup
  flowIds_nodup := h.flowIds_nodup
  ends f' hf' := by
    rw [h.flows] at hf'
    obtain ⟨f, hf, hf'⟩ := List.mem_flatMap.1 hf'
    obtain ⟨hsource, htarget⟩ := hg.ends f hf
    rw [h.mem_nodeIds, h.mem_nodeIds]
    rcases (h.redirected f hf).ends hf' with ⟨hs, hsout, ht, htout⟩ | ⟨hs, hsout, ht⟩ |
      ⟨hs, ht, htout⟩
    · exact ⟨Or.inr ⟨hs ▸ hsource, hs ▸ hsout⟩, Or.inr ⟨ht ▸ htarget, ht ▸ htout⟩⟩
    · exact ⟨Or.inr ⟨hs ▸ hsource, hs ▸ hsout⟩, Or.inl ht⟩
    · exact ⟨Or.inl hs, Or.inr ⟨ht ▸ htarget, ht ▸ htout⟩⟩

/-- **A folded graph is sound.** -/
theorem sound (h : c.Folded rules g g' sub image) (hfound : c.Found g) (hg : g.Sound) :
    g'.Sound where
  toLinked := h.linked hg.toLinked
  ends_ne f' hf' := by
    rw [h.flows] at hf'
    obtain ⟨f, hf, hf'⟩ := List.mem_flatMap.1 hf'
    obtain ⟨hsource, htarget⟩ := hg.ends f hf
    rcases (h.redirected f hf).ends hf' with ⟨hs, -, ht, -⟩ | ⟨hs, -, ht⟩ | ⟨hs, ht, -⟩
    · rw [hs, ht]
      exact hg.ends_ne f hf
    · rw [hs, ht]
      exact fun heq => h.free (heq ▸ hsource)
    · rw [hs, ht]
      exact fun heq => h.free (heq ▸ htarget)
  start := by
    obtain ⟨s, hs, f, hf, hleft⟩ := hg.start
    obtain ⟨hmem, hkind⟩ := of_filter_kind_eq hs
    have hout : s.id ∉ c.ids := hfound.notMem_ids hg.nodeIds_nodup hmem (hkind ▸ rfl)
    obtain ⟨f', hf', hsource⟩ := h.exists_of_source hf (hleft ▸ hout)
    refine ⟨s, h.filter_kind hfound hg.nodeIds_nodup (by decide) rfl hs, f', hf', ?_⟩
    exact hsource.trans hleft
  finish := by
    obtain ⟨n, hn, hkind, f, hf, hreached⟩ := hg.finish
    have hout : n.id ∉ c.ids := hfound.notMem_ids hg.nodeIds_nodup hn (hkind ▸ rfl)
    obtain ⟨f', hf', htarget⟩ := h.exists_of_target hf (hreached ▸ hout)
    exact ⟨n, h.mem_nodes.2 (Or.inr ⟨hn, hout⟩), hkind, f', hf', htarget.trans hreached⟩

end Folded

/-! ## The sub-process -/

section
variable {c : Cycle} {g : Graph} (rules : RuleSet)

theorem mem_flowIds_fold {s : String} (h : s ∈ (c.fold rules g).flowIds) :
    s ∈ g.flowIds ∨ ∃ name,
      (name = fresh g.nodeIds baseId ++ "_out" ∨ ∃ f ∈ g.flows, name = f.id ++ "_loop") ∧
        Coined ((c.interior rules g).flowIds.reverse ++ g.flowIds) g.flows.length name s :=
  exists_coined_of_mem_foldFlows h

/-- **The contents of the new sub-process are enclosed.** -/
theorem enclosed_interior (hfound : c.Found g) (hids : g.nodeIds.Nodup)
    (hflows : g.flowIds.Nodup) : (c.interior rules g).Enclosed (c.fold rules g) := by
  obtain ⟨image, hfolded⟩ := folded_fold rules hfound hids hflows
  refine enclosed_contents (hfound.ids_nodup hids)
    (List.Subset.trans hfound.ids_subset (List.subset_cons_self _ _)) hfound.task
    (fun s hs => ?_) fun s hs hin => ?_
  · rcases hfolded.mem_nodeIds.1 hs with rfl | ⟨hs, hout⟩
    · exact ⟨List.mem_cons_self, fun hid => hfolded.free (hfound.ids_subset hid)⟩
    · exact ⟨List.mem_cons_of_mem _ hs, hout⟩
  · rcases mem_flowIds_fold rules hs with hs | ⟨name, -, hcoined⟩
    · rw [flowIds_contents] at hin
      exact notMem_of_mem_freshAll hin hs
    · exact hcoined.notMem (List.mem_append_left _ (List.mem_reverse.2 hin))

/-- A property of all levels holds of the folded graph if it holds of the two
    levels that are new. -/
theorem eachLevel_fold {P : Graph → Prop} (hfound : c.Found g) (hids : g.nodeIds.Nodup)
    (hflows : g.flowIds.Nodup) (h : EachLevel P g) (houter : P (c.fold rules g))
    (hinner : P (c.interior rules g)) : EachLevel P (c.fold rules g) := by
  obtain ⟨image, hfolded⟩ := folded_fold rules hfound hids hflows
  refine .intro houter fun n hn inner hchildren => ?_
  rcases hfolded.mem_nodes.1 hn with rfl | ⟨hn, -⟩
  · obtain rfl : c.interior rules g = inner := Option.some.inj hchildren
    refine .intro hinner fun m hm inner' hchildren' => ?_
    rcases mem_nodes_contents _ _ _ _ _ hm with hm | hm
    · exact h.inside (hfound.mem_of_mem_nodes hm) hchildren'
    · cases hm.symm.trans hchildren'
  · exact h.inside hn hchildren

/-! ## Proper identifiers -/

theorem length_foldFlows_le (id : String) (standard : Option String) (exitLabel : String)
    (used : List String) (merged : Bool) (flows : List Flow) :
    (c.foldFlows id standard exitLabel used merged flows).length ≤ flows.length := by
  induction flows generalizing used merged with
  | nil => exact Nat.le_refl _
  | cons f rest ih =>
    obtain ⟨out, more, merged', hstep, hfold⟩ :=
      foldFlows_cons c id standard exitLabel used merged f rest
    have hout : out.length ≤ 1 := by cases hstep <;> simp
    rw [hfold, List.length_append, List.length_cons]
    have := ih (more ++ used) merged'
    omega

/-- **The identifiers of a folded graph are proper**, as long as there are not too
    many for numerals to fit. -/
theorem named_fold (h : g.Named) (hfound : c.Found g) (hids : g.nodeIds.Nodup)
    (hflows : g.flowIds.Nodup) (hnodesLength : g.nodes.length < UInt64.size)
    (hflowsLength : g.flows.length < UInt64.size) :
    (c.fold rules g).Named ∧ (c.interior rules g).Named := by
  have hwords : 4 * UInt64.size ≤ maxNumeral := by decide
  have hnames : 7 ≤ UInt64.size := by decide
  have hnodeIds : g.nodeIds.length = g.nodes.length := List.length_map _
  have hflowIds : g.flowIds.length = g.flows.length := List.length_map _
  have hid : IsIdentifier (fresh g.nodeIds baseId) :=
    isIdentifier_fresh (by decide) ((List.toFinset_card_le _).trans_lt (by omega))
  obtain ⟨image, hfolded⟩ := folded_fold rules hfound hids hflows
  refine ⟨⟨fun s hs => ?_, fun s hs => ?_⟩, ?_⟩
  · rcases hfolded.mem_nodeIds.1 hs with rfl | ⟨hs, -⟩
    · exact hid
    · exact h.nodeIds s hs
  · rcases mem_flowIds_fold rules hs with hs | ⟨name, hname, hcoined⟩
    · exact h.flowIds s hs
    · refine hcoined.isIdentifier ?_ ?_
      · rcases hname with rfl | ⟨f, hf, rfl⟩
        · rw [String.toList_append]
          exact hid.toStem.append (by decide)
        · rw [String.toList_append]
          exact (h.flowIds _ (id_mem_flowIds hf)).toStem.append (by decide)
      · simp only [interior, flowIds_contents, List.length_append, List.length_reverse,
          length_freshAll, flowNames, List.length_map, List.length_range]
        omega
  · refine named_contents hid.toStem (fun s hs => h.nodeIds s (hfound.ids_subset hs)) ?_ ?_
    · rw [List.length_cons]
      omega
    · omega

end

end Cycle

end Swimlane
