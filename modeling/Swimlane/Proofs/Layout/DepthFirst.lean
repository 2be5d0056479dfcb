/-
  Swimlane — the traversal is depth first.

  The walk keeps its open branches on a stack, and puts only unvisited nodes there.
  Depth-first order is said here by recursion instead: a node, what is found below it,
  then the nodes beside it.

  * `preorder`: what a visit of nodes finds, in the order in which it is entered.
  * `walk_eq_preorder`: a walk finds the same in the same order.
  * `mem_preorder_iff`: a visit finds what unvisited nodes lead to.
  * `Graph.Departures`: the flows that leave a node, in the order in which they are
    followed.
  * `Graph.DepthFirst`: the order of nodes that a traversal has to have.
    `Graph.traversal_depthFirst`: the traversal has it.
-/
import Swimlane.Proofs.Cycle.Reach
import Swimlane.Proofs.Layout.Order

namespace Swimlane

open Relation

/-! ## Visits -/

/-- The list without the nodes `found`. -/
def withoutAll (found ids : List String) : List String := ids.filter fun other => other ∉ found

section
variable {id : String} {found ids : List String}

theorem mem_withoutAll : id ∈ withoutAll found ids ↔ id ∈ ids ∧ id ∉ found := by
  simp [withoutAll]

theorem withoutAll_nil (ids : List String) : withoutAll [] ids = ids := by simp [withoutAll]

theorem withoutAll_cons (id : String) (found ids : List String) :
    withoutAll (id :: found) ids = withoutAll found (without id ids) := by
  rw [withoutAll, withoutAll, without, List.filter_filter]
  exact List.filter_congr fun other _ => by simp [Bool.and_comm]

theorem withoutAll_append (found found' ids : List String) :
    withoutAll (found ++ found') ids = withoutAll found' (withoutAll found ids) := by
  rw [withoutAll, withoutAll, withoutAll, List.filter_filter]
  exact List.filter_congr fun other _ => by simp [Bool.and_comm]

end

/-- What a visit of the nodes `ids`, one after the other, finds: each node that is still
    unvisited, followed by what a visit of its neighbours finds. -/
def preorder (next : String → List String) (unvisited : List String) : List String → List String
  | [] => []
  | id :: ids =>
    if id ∈ unvisited then
      let below := preorder next (without id unvisited) (next id)
      id :: below ++ preorder next (withoutAll below (without id unvisited)) ids
    else preorder next unvisited ids
termination_by ids => (unvisited.length, ids.length)
decreasing_by
  · rename_i h
    exact Prod.Lex.left _ _ (without_length_lt h)
  · rename_i h
    exact Prod.Lex.left _ _ ((List.length_filter_le ..).trans_lt (without_length_lt h))
  · exact Prod.Lex.right _ (Nat.lt_succ_self _)

section
variable {next : String → List String} {unvisited ids : List String} {id v : String}

theorem preorder_nil : preorder next unvisited [] = [] := by rw [preorder]

theorem preorder_cons_of_mem (h : id ∈ unvisited) :
    preorder next unvisited (id :: ids) = id :: preorder next (without id unvisited) (next id) ++
      preorder next (withoutAll (preorder next (without id unvisited) (next id))
        (without id unvisited)) ids := by
  rw [preorder, if_pos h]

theorem preorder_cons_of_notMem (h : id ∉ unvisited) :
    preorder next unvisited (id :: ids) = preorder next unvisited ids := by
  rw [preorder, if_neg h]

/-! ## The walk is a visit -/

/-- With the nodes `ids` on top of its stack the walk first does what a visit of them
    does.  It may have left some of them out, but none that is unvisited. -/
theorem walk_filter_append (keep : String → Bool) (stack : List String)
    (hkeep : ∀ other ∈ unvisited, keep other = true) :
    walk next unvisited (ids.filter keep ++ stack) = preorder next unvisited ids ++
      walk next (withoutAll (preorder next unvisited ids) unvisited) stack := by
  induction unvisited, ids using preorder.induct next generalizing keep stack with
  | case1 unvisited => simp [preorder_nil, withoutAll_nil]
  | case2 unvisited id ids hid below ihbelow ihids =>
    have hleft : ∀ other ∈ withoutAll below (without id unvisited), keep other = true := by
      intro other hother
      exact hkeep other (mem_without.1 (mem_withoutAll.1 hother).1).1
    rw [List.filter_cons_of_pos (hkeep id hid), List.cons_append, walk, if_pos hid,
      ihbelow _ _ fun other hother => List.contains_iff_mem.2 hother, ihids keep stack hleft,
      preorder_cons_of_mem hid, withoutAll_append, withoutAll_cons, List.cons_append,
      List.cons_append, List.append_assoc]
  | case3 unvisited id ids hid ih =>
    rw [preorder_cons_of_notMem hid, ← ih keep stack hkeep, List.filter_cons]
    split
    · rw [List.cons_append, walk, if_neg hid]
    · rfl

/-- **A walk finds what a visit finds**, in the same order. -/
theorem walk_eq_preorder (next : String → List String) (unvisited ids : List String) :
    walk next unvisited ids = preorder next unvisited ids := by
  have hwalk : walk next unvisited (ids.filter (fun _ => true) ++ []) =
      preorder next unvisited ids ++
        walk next (withoutAll (preorder next unvisited ids) unvisited) [] :=
    walk_filter_append (fun _ => true) [] fun _ _ => rfl
  rwa [List.filter_true, List.append_nil, walk, List.append_nil] at hwalk

/-! ## What a visit finds -/

/-- A visit finds the unvisited ones among its nodes. -/
theorem mem_preorder_of_mem (hids : v ∈ ids) (hv : v ∈ unvisited) :
    v ∈ preorder next unvisited ids := by
  induction unvisited, ids using preorder.induct next with
  | case1 unvisited => cases hids
  | case2 unvisited id ids hid below ihbelow ihids =>
    rw [preorder_cons_of_mem hid, List.cons_append, List.mem_cons, List.mem_append]
    by_cases heq : v = id
    · exact Or.inl heq
    · by_cases hbelow : v ∈ below
      · exact Or.inr (Or.inl hbelow)
      · refine Or.inr (Or.inr (ihids (List.mem_of_ne_of_mem heq hids) ?_))
        exact mem_withoutAll.2 ⟨mem_without.2 ⟨hv, heq⟩, hbelow⟩
  | case3 unvisited id ids hid ih =>
    rw [preorder_cons_of_notMem hid]
    refine ih (List.mem_of_ne_of_mem ?_ hids) hv
    rintro rfl
    exact hid hv

/-- What a visit finds, it also finds the unvisited neighbours of. -/
theorem mem_preorder_of_next {w : String} (hv : v ∈ preorder next unvisited ids)
    (hnext : w ∈ next v) (hw : w ∈ unvisited) : w ∈ preorder next unvisited ids := by
  induction unvisited, ids using preorder.induct next with
  | case1 unvisited =>
    rw [preorder_nil] at hv
    cases hv
  | case2 unvisited id ids hid below ihbelow ihids =>
    rw [preorder_cons_of_mem hid, List.cons_append, List.mem_cons, List.mem_append] at hv ⊢
    by_cases hwid : w = id
    · exact Or.inl hwid
    · have hw' : w ∈ without id unvisited := mem_without.2 ⟨hw, hwid⟩
      by_cases hbelow : w ∈ below
      · exact Or.inr (Or.inl hbelow)
      · rcases hv with rfl | hv | hv
        · exact Or.inr (Or.inl (mem_preorder_of_mem hnext hw'))
        · exact Or.inr (Or.inl (ihbelow hv hw'))
        · exact Or.inr (Or.inr (ihids hv (mem_withoutAll.2 ⟨hw', hbelow⟩)))
  | case3 unvisited id ids hid ih =>
    rw [preorder_cons_of_notMem hid] at hv ⊢
    exact ih hv hw

/-- What a visit finds is led to by one of its nodes. -/
theorem exists_leads_of_mem_preorder {known : List String} (hknown : unvisited ⊆ known)
    (hv : v ∈ preorder next unvisited ids) : ∃ id ∈ ids, id ∈ known ∧
      ReflTransGen (fun a b => b ∈ next a ∧ b ∈ known) id v := by
  induction unvisited, ids using preorder.induct next with
  | case1 unvisited =>
    rw [preorder_nil] at hv
    cases hv
  | case2 unvisited id ids hid below ihbelow ihids =>
    have hwithout : without id unvisited ⊆ known := fun other hother =>
      hknown (mem_without.1 hother).1
    rw [preorder_cons_of_mem hid, List.cons_append, List.mem_cons, List.mem_append] at hv
    rcases hv with rfl | hv | hv
    · exact ⟨v, List.mem_cons_self, hknown hid, .refl⟩
    · obtain ⟨first, hfirst, hmem, hpath⟩ := ihbelow hwithout hv
      exact ⟨id, List.mem_cons_self, hknown hid, hpath.head ⟨hfirst, hmem⟩⟩
    · obtain ⟨first, hfirst, hpath⟩ := ihids (fun other hother =>
        hwithout (mem_withoutAll.1 hother).1) hv
      exact ⟨first, List.mem_cons_of_mem _ hfirst, hpath⟩
  | case3 unvisited id ids hid ih =>
    rw [preorder_cons_of_notMem hid] at hv
    obtain ⟨first, hfirst, hpath⟩ := ih hknown hv
    exact ⟨first, List.mem_cons_of_mem _ hfirst, hpath⟩

/-- **A visit finds what unvisited nodes lead to.** -/
theorem mem_preorder_iff : v ∈ preorder next unvisited ids ↔ ∃ id ∈ ids, id ∈ unvisited ∧
    ReflTransGen (fun a b => b ∈ next a ∧ b ∈ unvisited) id v := by
  constructor
  · exact exists_leads_of_mem_preorder fun _ hid => hid
  · rintro ⟨id, hids, hid, hpath⟩
    induction hpath with
    | refl => exact mem_preorder_of_mem hids hid
    | tail _ hstep ih => exact mem_preorder_of_next ih hstep.1 hstep.2

end

/-! ## Flows in order -/

namespace Graph

/-- All flows that leave a node, in ascending order of their identifiers; flows with one
    identifier stay in the order in which they are listed. -/
structure Departures (g : Graph) (id : String) (flows : List Flow) : Prop where
  all : flows.Perm (g.outgoing id)
  ascending : flows.Pairwise fun f f' => f.id ≤ f'.id
  stable : ∀ key, flows.filter (fun f => f.id = key) =
    (g.outgoing id).filter fun f => f.id = key

/-- The neighbours of a node are where the flows lead that leave it. -/
theorem exists_departures (g : Graph) (id : String) :
    ∃ flows, g.Departures id flows ∧ g.successors id = flows.map Flow.target := by
  refine ⟨_, ⟨List.mergeSort_perm _ _, pairwise_mergeSort_textLe Flow.id _, fun key => ?_⟩, rfl⟩
  -- flows with one identifier are sorted already, so sorting keeps them in their order
  have hsorted : ((g.outgoing id).filter fun f => f.id = key).Pairwise
      fun f f' => textLe f.id f'.id = true := by
    refine List.pairwise_filter.2 (List.pairwise_of_forall fun f f' h h' => ?_)
    rw [decide_eq_true_eq] at h h'
    exact textLe_iff.2 (h.trans h'.symm).le
  have hkept : ((g.outgoing id).filter fun f => f.id = key).Sublist
      ((g.outgoing id).mergeSort fun f f' => textLe f.id f'.id) := by
    refine List.sublist_mergeSort ?_ ?_ hsorted List.filter_sublist
    · exact fun _ _ _ => textLe_trans
    · exact fun f f' => textLe_total f.id f'.id
  have hclass := hkept.filter fun f => f.id = key
  simp only [List.filter_filter, Bool.and_self] at hclass
  exact (hclass.eq_of_length ((List.mergeSort_perm _ _).filter _).length_eq.symm).symm

/-! ## The traversal -/

/-- The nodes `visited` followed by the nodes `rest` are the nodes of the graph in
    depth-first order. -/
structure DepthFirst (g : Graph) (visited rest : List String) : Prop where
  /-- From the first start node on the flows are followed as they depart, and a node is
      entered before what is below it. -/
  visit : visited = g.start?.elim [] fun start => preorder g.successors g.nodeIds [start.id]
  departures : ∀ id, ∃ flows, g.Departures id flows ∧ g.successors id = flows.map Flow.target
  /-- The remaining nodes come in ascending order and without repetitions. -/
  ascending : rest.Pairwise (· < ·)
  remaining : ∀ id, id ∈ rest ↔ id ∈ g.nodeIds ∧ id ∉ visited
  /-- No node comes twice. -/
  once : (visited ++ rest).Nodup
  /-- Exactly the nodes of the graph come. -/
  all : ∀ id, id ∈ visited ++ rest ↔ id ∈ g.nodeIds
  /-- The start leads to exactly the visited nodes, along flows between nodes. -/
  reached : ∀ id, id ∈ visited ↔ ∃ start, g.start? = some start ∧
    ReflTransGen (fun u v => g.Leads u v ∧ v ∈ g.nodeIds) start.id id

variable {g : Graph} {id : String}

theorem mem_successors_iff {v : String} : v ∈ g.successors id ↔ g.Leads id v := by
  simp only [successors, List.mem_map, List.mem_mergeSort, outgoing, List.mem_filter,
    decide_eq_true_eq, Leads, and_assoc]

theorem reached_eq (g : Graph) : g.reached =
    g.start?.elim [] fun start => preorder g.successors g.nodeIds [start.id] := by
  rw [reached]
  cases g.start? with
  | none => rfl
  | some start => exact walk_eq_preorder _ _ _

theorem mem_reached_iff : id ∈ g.reached ↔ ∃ start, g.start? = some start ∧
    ReflTransGen (fun u v => g.Leads u v ∧ v ∈ g.nodeIds) start.id id := by
  rw [reached_eq]
  cases hstart : g.start? with
  | none => simp
  | some start =>
    have hmem : start.id ∈ g.nodeIds := id_mem_nodeIds (List.mem_of_find?_eq_some hstart)
    simp only [Option.elim_some, mem_preorder_iff, mem_successors_iff, List.mem_singleton,
      exists_eq_left, hmem, true_and, Option.some.injEq, exists_eq_left']

theorem mem_unreached_iff : id ∈ g.unreached ↔ id ∈ g.nodeIds ∧ id ∉ g.reached := by
  simp [unreached]

/-- What the start does not reach comes in ascending order. -/
theorem pairwise_unreached (g : Graph) : g.unreached.Pairwise (· < ·) := by
  have hsorted : ((g.nodeIds.filter fun id => !g.reached.contains id).mergeSort textLe).Pairwise
      (· ≤ ·) := pairwise_mergeSort_textLe (fun key : String => key) _
  have hle : g.unreached.Pairwise (· ≤ ·) := hsorted.sublist (eraseDups_sublist _)
  exact (hle.and (nodup_eraseDups _)).imp fun ⟨hle, hne⟩ => lt_of_le_of_ne hle hne

/-- **The traversal is depth first.** -/
theorem traversal_depthFirst (g : Graph) :
    g.traversal = g.reached ++ g.unreached ∧ g.DepthFirst g.reached g.unreached := by
  refine ⟨rfl, g.reached_eq, g.exists_departures, g.pairwise_unreached, ?_, ?_, ?_, ?_⟩
  · exact fun id => mem_unreached_iff
  · exact g.nodup_traversal
  · exact fun id => mem_traversal
  · exact fun id => mem_reached_iff

end Graph

end Swimlane
