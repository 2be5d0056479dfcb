/-
  Swimlane — the members of a cycle and their places.

  * `Found c g`: the members of the cycle are four tasks at four places of the
    graph.  `found_of_find?`: so are those that the search finds.
  * `Found.split`: the nodes before the first member, the first member, and the
    nodes after it.
  * `foldNodes_split`, `Found.exists_foldNodes`: what folding makes of nodes that
    are split like that.
  * `Replaced c g g' sub`: the same without the order of the nodes.
-/
import Swimlane.Cycle.Fold
import Swimlane.Proofs.Cycle.Detect
import Swimlane.Proofs.Graph

namespace Swimlane.Cycle

open Swimlane.Graph

/-! ## The search -/

/-- A cycle of tasks of the graph. -/
structure Found (c : Cycle) (g : Graph) : Prop where
  place : ∀ m ∈ c.members, g.nodes[m.index]? = some m.node
  task : ∀ m ∈ c.members, m.node.kind.isTask = true
  indices_nodup : c.indices.Nodup

/-- **The search finds four tasks** at different places. -/
theorem found_of_find? {roles : LoopRoles} {g : Graph} {c : Cycle} (h : find? roles g = some c) :
    c.Found g := by
  obtain ⟨hplace, hfills⟩ := find?_eq_some_iff.1 h
  refine ⟨hplace, fun m hm => ?_, hfills.nodup.1⟩
  obtain ⟨n, hn, keywords, -, hsuits⟩ := hfills.exists_suits m.index (List.mem_map_of_mem hm)
  obtain rfl : m.node = n := Option.some.inj ((hplace m hm).symm.trans hn)
  exact hsuits.task

/-! ## Members -/

theorem mem_ids {c : Cycle} {id : String} : id ∈ c.ids ↔ ∃ m ∈ c.members, m.node.id = id := by
  simp [ids, nodes]

theorem holds_iff {c : Cycle} {id : String} : c.holds id = true ↔ id ∈ c.ids := by
  simp [holds]

theorem holds_eq_false {c : Cycle} {id : String} : c.holds id = false ↔ id ∉ c.ids := by
  simp [holds]

theorem mem_nodes {c : Cycle} {n : Node} : n ∈ c.nodes ↔ ∃ m ∈ c.members, m.node = n := by
  simp [nodes]

/-- One member comes first. -/
theorem exists_first (c : Cycle) :
    ∃ m ∈ c.members, m.index = c.firstIndex ∧ ∀ k ∈ c.members, m.index ≤ k.index := by
  have hle : ∀ k ∈ c.members, c.firstIndex ≤ k.index := by
    simp only [members, firstIndex, List.forall_mem_cons, List.not_mem_nil, false_implies,
      implies_true, and_true]
    omega
  suffices hfirst : ∃ m ∈ c.members, m.index = c.firstIndex by
    obtain ⟨m, hm, hindex⟩ := hfirst
    exact ⟨m, hm, hindex, fun k hk => hindex ▸ hle k hk⟩
  simp only [members, firstIndex, List.mem_cons, List.not_mem_nil, or_false, exists_eq_or_imp,
    exists_eq_left]
  omega

namespace Found

variable {c : Cycle} {g : Graph}

theorem node_mem (h : c.Found g) {m : Member} (hm : m ∈ c.members) : m.node ∈ g.nodes :=
  List.mem_of_getElem? (h.place m hm)

theorem mem_of_mem_nodes (h : c.Found g) {n : Node} (hn : n ∈ c.nodes) : n ∈ g.nodes := by
  obtain ⟨m, hm, rfl⟩ := mem_nodes.1 hn
  exact h.node_mem hm

theorem ids_subset (h : c.Found g) : c.ids ⊆ g.nodeIds := by
  intro id hid
  obtain ⟨m, hm, rfl⟩ := mem_ids.1 hid
  exact id_mem_nodeIds (h.node_mem hm)

/-- The place of a member is known by its identifier. -/
theorem index_of_id (h : c.Found g) (hids : g.nodeIds.Nodup) {m : Member} (hm : m ∈ c.members)
    {i : ℕ} {n : Node} (hn : g.nodes[i]? = some n) (hid : n.id = m.node.id) : i = m.index := by
  have hi : i < g.nodeIds.length := by
    rw [nodeIds, List.length_map]
    exact (List.getElem?_eq_some_iff.1 hn).1
  refine (List.getElem?_inj hi hids).1 ?_
  simp [nodeIds, List.getElem?_map, hn, h.place m hm, hid]

/-- The members have different identifiers. -/
theorem ids_nodup (h : c.Found g) (hids : g.nodeIds.Nodup) : c.ids.Nodup := by
  have hmap : c.ids = c.members.map fun m => m.node.id := by simp [ids, nodes]
  have hmembers : (c.members.map Member.index).Nodup := h.indices_nodup
  rw [hmap]
  refine List.Nodup.map_on (fun m hm k hk hid => ?_) hmembers.of_map
  have hindex := h.index_of_id hids hk (h.place m hm) hid
  exact List.inj_on_of_nodup_map hmembers hm hk hindex

/-- The nodes of the graph that the cycle holds are its members. -/
theorem mem_nodes_iff (h : c.Found g) (hids : g.nodeIds.Nodup) {n : Node} (hn : n ∈ g.nodes) :
    n ∈ c.nodes ↔ n.id ∈ c.ids := by
  constructor
  · intro hmem
    exact List.mem_map_of_mem hmem
  · intro hid
    obtain ⟨m, hm, hmid⟩ := mem_ids.1 hid
    rw [eq_of_id_eq hids hn (h.node_mem hm) hmid.symm]
    exact mem_nodes.2 ⟨m, hm, rfl⟩

/-- A node that is no task is outside. -/
theorem notMem_ids (h : c.Found g) (hids : g.nodeIds.Nodup) {n : Node} (hn : n ∈ g.nodes)
    (hkind : n.kind.isTask = false) : n.id ∉ c.ids := by
  intro hid
  obtain ⟨m, hm, rfl⟩ := mem_nodes.1 ((h.mem_nodes_iff hids hn).2 hid)
  cases hkind.symm.trans (h.task m hm)

/-- No member comes before the first one. -/
theorem split (h : c.Found g) (hids : g.nodeIds.Nodup) {m : Member} (hm : m ∈ c.members)
    (hfirst : ∀ k ∈ c.members, m.index ≤ k.index) :
    ∃ before after, g.nodes = before ++ m.node :: after ∧ before.length = m.index ∧
      ∀ n ∈ before, n.id ∉ c.ids := by
  obtain ⟨hlt, hget⟩ := List.getElem?_eq_some_iff.1 (h.place m hm)
  refine ⟨g.nodes.take m.index, g.nodes.drop (m.index + 1), ?_, ?_, ?_⟩
  · rw [← hget, ← List.drop_eq_getElem_cons hlt, List.take_append_drop]
  · rw [List.length_take, Nat.min_eq_left hlt.le]
  · intro n hn hid
    obtain ⟨i, hi, hni⟩ := List.mem_take_iff_getElem.1 hn
    obtain ⟨k, hk, hkid⟩ := mem_ids.1 hid
    have hplace : g.nodes[i]? = some n := List.getElem?_eq_some_iff.2 ⟨by omega, hni⟩
    have hindex := h.index_of_id hids hk hplace hkid.symm
    have := hfirst k hk
    omega

end Found

/-! ## The nodes around the sub-process -/

section
variable {c : Cycle} {sub : Node} {first index : ℕ}

theorem foldNodes_of_lt (h : first < index) (nodes : List Node) :
    c.foldNodes sub first index nodes = nodes.filter fun n => n.id ∉ c.ids := by
  induction nodes generalizing index with
  | nil => rfl
  | cons n rest ih =>
    rw [foldNodes, if_neg (by omega), ih (by omega)]
    by_cases hn : n.id ∈ c.ids
    · rw [if_pos (holds_iff.2 hn), List.filter_cons_of_neg (by simpa using hn)]
    · rw [if_neg (mt holds_iff.1 hn), List.filter_cons_of_pos (by simpa using hn)]

/-- **The sub-process takes the place of the first member**, and the other members
    disappear. -/
theorem foldNodes_split {before after : List Node} (hbefore : ∀ n ∈ before, n.id ∉ c.ids)
    (hfirst : first = index + before.length) (m : Node) :
    c.foldNodes sub first index (before ++ m :: after) =
      before ++ sub :: after.filter fun n => n.id ∉ c.ids := by
  induction before generalizing index with
  | nil =>
    rw [List.nil_append, List.nil_append, foldNodes, if_pos (by simpa using hfirst.symm),
      foldNodes_of_lt (by simp [hfirst])]
  | cons n rest ih =>
    obtain ⟨hn, hrest⟩ := List.forall_mem_cons.1 hbefore
    rw [List.length_cons] at hfirst
    rw [List.cons_append, foldNodes, if_neg (by omega), if_neg (mt holds_iff.1 hn),
      ih hrest (by omega), List.cons_append]

end

/-- **The nodes of a folded graph**: the sub-process takes the place of the first
    member, the other members disappear, and the other nodes stay as they are. -/
theorem Found.exists_foldNodes {c : Cycle} {g : Graph} (h : c.Found g) (hids : g.nodeIds.Nodup)
    (sub : Node) : ∃ before m after, m ∈ c.members ∧ (∀ k ∈ c.members, m.index ≤ k.index) ∧
      before.length = m.index ∧ (∀ n ∈ before, n.id ∉ c.ids) ∧
      g.nodes = before ++ m.node :: after ∧
      c.foldNodes sub c.firstIndex 0 g.nodes =
        before ++ sub :: after.filter fun n => n.id ∉ c.ids := by
  obtain ⟨m, hm, hindex, hfirst⟩ := c.exists_first
  obtain ⟨before, after, hsplit, hlength, hbefore⟩ := h.split hids hm hfirst
  refine ⟨before, m, after, hm, hfirst, hlength, hbefore, hsplit, ?_⟩
  rw [hsplit]
  exact foldNodes_split hbefore (by omega) m.node

/-! ## The nodes without their order -/

/-- The nodes of `g'` are those of `g` with the sub-process `sub` instead of the
    members of the cycle. -/
structure Replaced (c : Cycle) (g g' : Graph) (sub : Node) : Prop where
  kind : sub.kind = .subProcess
  free : sub.id ∉ g.nodeIds
  nodes_perm : g'.nodes.Perm (sub :: g.nodes.filter fun n => n.id ∉ c.ids)

/-- A first member that makes room for the sub-process. -/
theorem perm_of_split {c : Cycle} {sub : Node} {before after : List Node}
    (hbefore : ∀ n ∈ before, n.id ∉ c.ids) {m : Member} (hm : m ∈ c.members) :
    (before ++ sub :: after.filter fun n => n.id ∉ c.ids).Perm
      (sub :: (before ++ m.node :: after).filter fun n => n.id ∉ c.ids) := by
  have hkeep : before.filter (fun n => n.id ∉ c.ids) = before :=
    List.filter_eq_self.2 fun n hn => by simpa using hbefore n hn
  have hmember : m.node.id ∈ c.ids := mem_ids.2 ⟨m, hm, rfl⟩
  rw [List.filter_append, hkeep, List.filter_cons_of_neg (by simpa using hmember)]
  exact List.perm_middle

namespace Replaced

variable {c : Cycle} {g g' : Graph} {sub : Node}

theorem mem_nodes (h : c.Replaced g g' sub) {n : Node} :
    n ∈ g'.nodes ↔ n = sub ∨ n ∈ g.nodes ∧ n.id ∉ c.ids := by
  rw [h.nodes_perm.mem_iff, List.mem_cons, List.mem_filter, decide_eq_true_eq]

theorem mem_nodeIds (h : c.Replaced g g' sub) {id : String} :
    id ∈ g'.nodeIds ↔ id = sub.id ∨ id ∈ g.nodeIds ∧ id ∉ c.ids := by
  rw [Graph.mem_nodeIds, Graph.mem_nodeIds]
  constructor
  · rintro ⟨n, hn, rfl⟩
    rcases h.mem_nodes.1 hn with rfl | ⟨hn, hid⟩
    · exact Or.inl rfl
    · exact Or.inr ⟨⟨n, hn, rfl⟩, hid⟩
  · rintro (rfl | ⟨⟨n, hn, rfl⟩, hid⟩)
    · exact ⟨sub, h.mem_nodes.2 (Or.inl rfl), rfl⟩
    · exact ⟨n, h.mem_nodes.2 (Or.inr ⟨hn, hid⟩), rfl⟩

theorem nodeIds_nodup (h : c.Replaced g g' sub) (hids : g.nodeIds.Nodup) : g'.nodeIds.Nodup := by
  rw [nodeIds, (h.nodes_perm.map Node.id).nodup_iff, List.map_cons, List.nodup_cons]
  refine ⟨fun hmem => ?_, hids.sublist (List.filter_sublist.map _)⟩
  obtain ⟨n, hn, hid⟩ := List.mem_map.1 hmem
  exact h.free (Graph.mem_nodeIds.2 ⟨n, (List.mem_filter.1 hn).1, hid⟩)

end Replaced

end Swimlane.Cycle
