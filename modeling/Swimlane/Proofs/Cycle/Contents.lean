/-
  Swimlane — the contents of the sub-process of a cycle.

  * `exists_coined_of_mem_freshAll`, `nodup_freshAll`: free names for a list of
    names.
  * `nodeIds_contents_perm`, `flowIds_contents`: the identifiers are those of the
    members and free names.
  * `enclosed_contents`: the contents are linked, have one start and one end, and
    share no identifier with a graph that has none of the members and takes its
    other identifiers from elsewhere.
-/
import Swimlane.Proofs.Cycle.Members

namespace Swimlane.Cycle

open Identifier Swimlane.Graph

/-! ## Lists of free names -/

theorem length_freshAll (used names : List String) :
    (freshAll used names).length = names.length := by
  induction names generalizing used with
  | nil => rfl
  | cons name names ih => rw [freshAll, List.length_cons, ih, List.length_cons]

theorem exists_coined_of_mem_freshAll {used names : List String} {id : String}
    (h : id ∈ freshAll used names) : ∃ name ∈ names, Coined used names.length name id := by
  induction names generalizing used with
  | nil => cases h
  | cons name names ih =>
    rw [freshAll] at h
    rcases List.mem_cons.1 h with rfl | h
    · exact ⟨name, List.mem_cons_self, coined_fresh used (by simp) name⟩
    · obtain ⟨other, hother, hid⟩ := ih h
      exact ⟨other, List.mem_cons_of_mem _ hother, hid.of_append [_]⟩

theorem notMem_of_mem_freshAll {used names : List String} {id : String}
    (h : id ∈ freshAll used names) : id ∉ used := by
  obtain ⟨name, -, hid⟩ := exists_coined_of_mem_freshAll h
  exact hid.notMem

theorem nodup_freshAll (used names : List String) : (freshAll used names).Nodup := by
  induction names generalizing used with
  | nil => exact List.nodup_nil
  | cons name names ih =>
    rw [freshAll, List.nodup_cons]
    exact ⟨fun h => notMem_of_mem_freshAll h List.mem_cons_self, ih _⟩

/-! ## Identifiers of the contents -/

/-- The names of the three nodes that are added. -/
def nodeNames (id : String) : List String := [id ++ "_start", id ++ "_gateway", id ++ "_end"]

/-- The names of the seven flows that are added. -/
def flowNames (id : String) : List String :=
  (List.range 7).map fun k => id ++ "_flow_" ++ toString (k + 1)

section
variable (c : Cycle) (labels : LoopLabels) (id : String) (usedNodes usedFlows : List String)

/-- The nodes are the members and the three that are added. -/
theorem nodeIds_contents_perm : (c.contents labels id usedNodes usedFlows).nodeIds.Perm
    (c.ids ++ freshAll usedNodes (nodeNames id)) := by
  simp only [contents, nodeIds, ids, nodes, members, nodeNames, freshAll, List.map_cons,
    List.map_nil, List.cons_append, List.nil_append]
  rw [List.perm_iff_count]
  intro s
  simp only [List.count_cons, List.count_nil]
  omega

theorem mem_nodes_contents {n : Node} (h : n ∈ (c.contents labels id usedNodes usedFlows).nodes) :
    n ∈ c.nodes ∨ n.children = none := by
  simp only [contents, List.mem_cons, List.not_mem_nil, or_false] at h
  simp only [nodes, members, List.map_cons, List.map_nil, List.mem_cons, List.not_mem_nil, or_false]
  rcases h with rfl | h | h | h | rfl | h | rfl
  · exact Or.inr rfl
  · exact Or.inl (Or.inl h)
  · exact Or.inl (Or.inr (Or.inl h))
  · exact Or.inl (Or.inr (Or.inr (Or.inl h)))
  · exact Or.inr rfl
  · exact Or.inl (Or.inr (Or.inr (Or.inr h)))
  · exact Or.inr rfl

theorem nodes_subset_contents : c.nodes ⊆ (c.contents labels id usedNodes usedFlows).nodes := by
  intro n hn
  simp only [nodes, members, List.map_cons, List.map_nil, List.mem_cons, List.not_mem_nil,
    or_false] at hn
  simp only [contents, List.mem_cons, List.not_mem_nil, or_false]
  tauto

/-- The flows have free names. -/
theorem flowIds_contents : (c.contents labels id usedNodes usedFlows).flowIds =
    freshAll usedFlows (flowNames id) := by
  simp only [contents, flowIds, List.map_zipWith, List.length_cons, List.length_nil]
  refine List.ext_getElem ?_ fun i _ _ => by simp only [List.getElem_zipWith, flowNames]
  simp [length_freshAll, flowNames]

/-- The flows join nodes of the contents. -/
theorem ends_contents {f : Flow} (h : f ∈ (c.contents labels id usedNodes usedFlows).flows) :
    f.source ∈ (c.contents labels id usedNodes usedFlows).nodeIds ∧
      f.target ∈ (c.contents labels id usedNodes usedFlows).nodeIds := by
  simp only [contents, ← List.map_uncurry_zip_eq_zipWith, List.mem_map] at h
  obtain ⟨⟨flowId, step⟩, hstep, rfl⟩ := h
  replace hstep := (List.of_mem_zip hstep).2
  simp only [List.mem_cons, List.not_mem_nil, or_false] at hstep
  rcases hstep with rfl | rfl | rfl | rfl | rfl | rfl | rfl <;>
    simp [contents, nodeIds]

end

/-! ## Properties of the contents -/

section
variable {c : Cycle} {labels : LoopLabels} {id : String} {usedNodes usedFlows : List String}

theorem nodeIds_nodup_contents (hids : c.ids.Nodup) (hused : c.ids ⊆ usedNodes) :
    (c.contents labels id usedNodes usedFlows).nodeIds.Nodup := by
  rw [(nodeIds_contents_perm _ _ _ _ _).nodup_iff, List.nodup_append]
  refine ⟨hids, nodup_freshAll _ _, fun s hs t ht hst => ?_⟩
  exact notMem_of_mem_freshAll ht (hst ▸ hused hs)

/-- Each member is there once. -/
theorem filter_contents (hids : c.ids.Nodup) (hused : c.ids ⊆ usedNodes) {n : Node}
    (hn : n ∈ c.nodes) :
    (c.contents labels id usedNodes usedFlows).nodes.filter (fun m => m.id = n.id) = [n] :=
  filter_id_eq (nodeIds_nodup_contents hids hused) (nodes_subset_contents _ _ _ _ _ hn)

/-- **The contents are enclosed.** -/
theorem enclosed_contents (hids : c.ids.Nodup) (hused : c.ids ⊆ usedNodes)
    (htask : ∀ m ∈ c.members, m.node.kind.isTask = true) {outer : Graph}
    (hnodes : ∀ s ∈ outer.nodeIds, s ∈ usedNodes ∧ s ∉ c.ids)
    (hflows : ∀ s ∈ outer.flowIds, s ∉ (c.contents labels id usedNodes usedFlows).flowIds) :
    Enclosed (c.contents labels id usedNodes usedFlows) outer where
  nodeIds_nodup := nodeIds_nodup_contents hids hused
  flowIds_nodup := by
    rw [flowIds_contents]
    exact nodup_freshAll _ _
  ends _ hf := ends_contents _ _ _ _ _ hf
  start := by
    have hne : ∀ m ∈ c.members, m.node.kind ≠ .start := fun m hm h => by
      cases h ▸ htask m hm
    simp only [members, List.forall_mem_cons] at hne
    simp [contents, hne]
  finish := by
    have hne : ∀ m ∈ c.members, m.node.kind ≠ .finish := fun m hm h => by
      cases h ▸ htask m hm
    simp only [members, List.forall_mem_cons] at hne
    simp [contents, hne]
  nodeIds_disjoint s hs houter := by
    obtain ⟨hin, hout⟩ := hnodes s houter
    rcases List.mem_append.1 ((nodeIds_contents_perm _ _ _ _ _).mem_iff.1 hs) with hs | hs
    · exact hout hs
    · exact notMem_of_mem_freshAll hs hin
  flowIds_disjoint s hs houter := hflows s houter hs

/-- The contents have proper identifiers if the members have. -/
theorem named_contents (hid : Stem id.toList) (hids : ∀ s ∈ c.ids, IsIdentifier s)
    (hnodes : usedNodes.length + 3 ≤ maxNumeral) (hflows : usedFlows.length + 7 ≤ maxNumeral) :
    Named (c.contents labels id usedNodes usedFlows) where
  nodeIds s hs := by
    rcases List.mem_append.1 ((nodeIds_contents_perm _ _ _ _ _).mem_iff.1 hs) with hs | hs
    · exact hids s hs
    · obtain ⟨name, hname, hcoined⟩ := exists_coined_of_mem_freshAll hs
      refine hcoined.isIdentifier ?_ hnodes
      simp only [nodeNames, List.mem_cons, List.not_mem_nil, or_false] at hname
      rcases hname with rfl | rfl | rfl <;> rw [String.toList_append] <;>
        exact hid.append (by decide)
  flowIds s hs := by
    rw [flowIds_contents] at hs
    obtain ⟨name, hname, hcoined⟩ := exists_coined_of_mem_freshAll hs
    refine hcoined.isIdentifier ?_ (by simpa [flowNames] using hflows)
    obtain ⟨k, -, rfl⟩ := List.mem_map.1 hname
    rw [String.toList_append, String.toList_append]
    refine (hid.append (by decide)).append (List.all_eq_true.2 ?_)
    intro ch hch
    exact isIdChar_toDigits (k := k + 1) (by simpa using hch)

end

end Swimlane.Cycle
