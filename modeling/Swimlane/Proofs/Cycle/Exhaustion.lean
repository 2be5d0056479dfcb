/-
  Swimlane — folding comes to an end.

  A fold takes four tasks into a sub-process, and the sub-process is no task itself.
  So the tasks of the graph are used up, four at a time.

  * `Cycle.Found.nodes_perm`: the nodes of a graph are the members of a cycle and the
    others.
  * `Absorbs g g'`: four tasks of `g` have given way to one sub-process of `g'`.
    `absorbs_foldCycle`: this is what a fold that changes the graph does, whatever
    the flows are.
  * `foldCycles_of_fixed`: a graph that a fold does not change is not changed by
    further ones.
  * `folding_stops`: after as many folds as there are four tasks, nothing changes
    any more.
-/
import Swimlane.Proofs.Process

namespace Swimlane

/-! ## The nodes of a cycle and the others -/

namespace Cycle

variable {c : Cycle} {g g' : Graph} {sub : Node}

/-- The nodes that the cycle holds are its members. -/
theorem Found.members_perm (h : c.Found g) (hids : g.nodeIds.Nodup) :
    (g.nodes.filter fun n => n.id ∈ c.ids).Perm c.nodes := by
  have hnodes : c.nodes.Nodup := (h.ids_nodup hids).of_map
  refine (List.perm_ext_iff_of_nodup (hids.of_map.filter _) hnodes).2 fun n => ?_
  rw [List.mem_filter, decide_eq_true_eq]
  constructor
  · rintro ⟨hn, hid⟩
    exact (h.mem_nodes_iff hids hn).2 hid
  · intro hn
    exact ⟨h.mem_of_mem_nodes hn, List.mem_map_of_mem hn⟩

/-- The nodes of the graph are the members and the others. -/
theorem Found.nodes_perm (h : c.Found g) (hids : g.nodeIds.Nodup) :
    g.nodes.Perm (c.nodes ++ g.nodes.filter fun n => n.id ∉ c.ids) := by
  have hsplit := List.filter_append_perm (fun n : Node => n.id ∈ c.ids) g.nodes
  simp only [← decide_not] at hsplit
  exact hsplit.symm.trans ((h.members_perm hids).append_right _)

theorem Found.isTask_of_mem (h : c.Found g) {n : Node} (hn : n ∈ c.nodes) :
    n.kind.isTask = true := by
  obtain ⟨m, hm, rfl⟩ := mem_nodes.1 hn
  exact h.task m hm

/-- A node of the graph disappears exactly if it is a member. -/
theorem Replaced.mem_nodeIds_iff (h : c.Replaced g g' sub) {n : Node} (hn : n ∈ g.nodes) :
    n.id ∈ g'.nodeIds ↔ n.id ∉ c.ids := by
  have hne : n.id ≠ sub.id := fun heq => h.free (heq ▸ Graph.id_mem_nodeIds hn)
  rw [h.mem_nodeIds]
  exact ⟨fun hmem => (hmem.resolve_left hne).2, fun hout => Or.inr ⟨Graph.id_mem_nodeIds hn, hout⟩⟩

end Cycle

namespace Graph

open Swimlane.Cycle

/-! ## Tasks that are absorbed -/

/-- The tasks of the graph, those inside sub-processes left out. -/
def tasks (g : Graph) : List Node := g.nodes.filter fun n => n.kind.isTask

/-- Four tasks of `g` have given way to one sub-process of `g'`. -/
structure Absorbs (g g' : Graph) : Prop where
  /-- Exactly four nodes disappear, and they are tasks. -/
  four : (g.nodes.filter fun n => n.id ∉ g'.nodeIds).length = 4
  removed : ∀ n ∈ g.nodes, n.id ∉ g'.nodeIds → n.kind.isTask = true
  /-- Exactly one node is new, and it is a sub-process. -/
  added : ∃ sub, sub.kind = .subProcess ∧ g'.nodes.filter (fun n => n.id ∉ g.nodeIds) = [sub]
  /-- The sub-processes that exist stay as they are, contents included. -/
  subProcesses : ∀ n ∈ g.nodes, n.kind = .subProcess → g'.node? n.id = some n
  tasks_subset : g'.tasks ⊆ g.tasks
  length_tasks : g'.tasks.length + 4 = g.tasks.length
  length_nodes : g'.nodes.length + 3 = g.nodes.length

section
variable {c : Cycle} {g g' : Graph} {sub : Node}

/-- **A cycle that gives way to a sub-process** is absorbed. -/
theorem absorbs_of_replaced (hfound : c.Found g) (hids : g.nodeIds.Nodup)
    (h : c.Replaced g g' sub) : g.Absorbs g' := by
  have hbefore := hfound.nodes_perm hids
  have hafter := h.nodes_perm
  have hsize : c.nodes.length = 4 := rfl
  have hmember : ∀ n ∈ g.nodes, n.id ∉ g'.nodeIds ↔ n.id ∈ c.ids := fun n hn => by
    rw [h.mem_nodeIds_iff hn, not_not]
  have hsub : sub.kind.isTask = false := by
    rw [h.kind]
    rfl
  exact {
    four := by
      have hgone : (g.nodes.filter fun n => n.id ∉ g'.nodeIds) =
          g.nodes.filter fun n => n.id ∈ c.ids :=
        List.filter_congr fun n hn => decide_eq_decide.2 (hmember n hn)
      rw [hgone, (hfound.members_perm hids).length_eq, hsize]
    removed := fun n hn hgone =>
      hfound.isTask_of_mem ((hfound.mem_nodes_iff hids hn).2 ((hmember n hn).1 hgone))
    added := by
      have hold : (g.nodes.filter fun n => n.id ∉ c.ids).filter (fun n => n.id ∉ g.nodeIds) = [] :=
        List.filter_eq_nil_iff.2 fun n hn => by
          simpa using id_mem_nodeIds (List.mem_filter.1 hn).1
      have hnew := hafter.filter fun n => n.id ∉ g.nodeIds
      rw [List.filter_cons_of_pos (by simpa using h.free), hold] at hnew
      exact ⟨sub, h.kind, List.perm_singleton.1 hnew⟩
    subProcesses := fun n hn hkind => by
      have hout : n.id ∉ c.ids := hfound.notMem_ids hids hn (hkind ▸ rfl)
      exact (node?_eq_some (h.nodeIds_nodup hids)).2 ⟨h.mem_nodes.2 (Or.inr ⟨hn, hout⟩), rfl⟩
    tasks_subset := fun n hn => by
      obtain ⟨hn, htask⟩ := List.mem_filter.1 hn
      rcases h.mem_nodes.1 hn with rfl | ⟨hn, -⟩
      · cases hsub.symm.trans htask
      · exact List.mem_filter.2 ⟨hn, htask⟩
    length_tasks := by
      have hmembers : c.nodes.filter (fun n => n.kind.isTask) = c.nodes :=
        List.filter_eq_self.2 fun n hn => hfound.isTask_of_mem hn
      have htasks := (hbefore.filter fun n => n.kind.isTask).length_eq
      have htasks' := (hafter.filter fun n => n.kind.isTask).length_eq
      rw [List.filter_append, hmembers, List.length_append] at htasks
      rw [List.filter_cons_of_neg (by simp [hsub])] at htasks'
      rw [tasks, tasks]
      omega
    length_nodes := by
      have hnodes := hbefore.length_eq
      have hnodes' := hafter.length_eq
      rw [List.length_append] at hnodes
      rw [List.length_cons] at hnodes'
      omega }

end

/-! ## Folding again and again -/

section
variable {g : Graph} {rules : RuleSet}

/-- **A fold that changes the graph** absorbs a cycle. -/
theorem absorbs_foldCycle (h : g.nodeIds.Nodup) (hne : g.foldCycle rules ≠ g) :
    g.Absorbs (g.foldCycle rules) := by
  rcases foldCycle_cases rules g with heq | ⟨c, hfound, heq⟩
  · exact absurd heq hne
  · rw [heq]
    exact absorbs_of_replaced hfound h (hfound.replaced_fold h rules)

theorem nodeIds_nodup_foldCycle (h : g.nodeIds.Nodup) (rules : RuleSet) :
    (g.foldCycle rules).nodeIds.Nodup := by
  rcases foldCycle_cases rules g with heq | ⟨c, hfound, heq⟩
  · rwa [heq]
  · rw [heq]
    exact (hfound.replaced_fold h rules).nodeIds_nodup h

theorem nodeIds_nodup_foldCycles (h : g.nodeIds.Nodup) (rules : List RuleSet) :
    (g.foldCycles rules).nodeIds.Nodup := by
  induction rules generalizing g with
  | nil => exact h
  | cons r rules ih => exact ih (nodeIds_nodup_foldCycle h r)

theorem foldCycles_replicate_succ (g : Graph) (rules : RuleSet) (k : ℕ) :
    g.foldCycles (.replicate (k + 1) rules) =
      (g.foldCycle rules).foldCycles (.replicate k rules) := rfl

/-- A graph that a fold does not change is not changed by further ones. -/
theorem foldCycles_of_fixed (h : g.foldCycle rules = g) (k : ℕ) :
    g.foldCycles (.replicate k rules) = g := by
  induction k with
  | zero => rfl
  | succ k ih => rw [foldCycles_replicate_succ, h, ih]

/-- As long as a fold changes the graph, it takes four of its tasks. -/
theorem fixed_of_length_tasks (h : g.nodeIds.Nodup) {k : ℕ} (hk : g.tasks.length / 4 ≤ k) :
    (g.foldCycles (.replicate k rules)).foldCycle rules = g.foldCycles (.replicate k rules) := by
  induction k generalizing g with
  | zero =>
    by_contra hne
    have htasks := (absorbs_foldCycle h hne).length_tasks
    omega
  | succ k ih =>
    by_cases hfixed : g.foldCycle rules = g
    · rw [foldCycles_of_fixed hfixed, hfixed]
    · have htasks := (absorbs_foldCycle h hfixed).length_tasks
      rw [foldCycles_replicate_succ]
      exact ih (nodeIds_nodup_foldCycle h rules) (by omega)

end

/-- **Folding comes to an end.**  After any folds, one that changes the graph absorbs
    four tasks; so after a quarter as many folds as there are tasks, no further one
    changes anything. -/
theorem folding_stops {g : Graph} (h : g.nodeIds.Nodup) :
    (∀ earlier rules, (g.foldCycles earlier).foldCycle rules ≠ g.foldCycles earlier →
      (g.foldCycles earlier).Absorbs ((g.foldCycles earlier).foldCycle rules)) ∧
    ∀ rules k, g.tasks.length / 4 ≤ k →
      (g.foldCycles (.replicate k rules)).foldCycle rules = g.foldCycles (.replicate k rules) :=
  ⟨fun earlier _ => absorbs_foldCycle (nodeIds_nodup_foldCycles h earlier),
    fun _ _ => fixed_of_length_tasks h⟩

/-- A process with two cycles, of which the members are listed in turn, a task that
    matches no role, and a sub-process that holds a task of its own. -/
def turns : Graph where
  name := "Turns"
  nodes :=
    [{ id := "s", kind := .start, label := "Begin" },
     { id := "p", kind := .userTask, label := "plan" },
     { id := "q", kind := .task, label := "plan" },
     { id := "x", kind := .userTask, label := "execute" },
     { id := "y", kind := .serviceTask, label := "execute" },
     { id := "n", kind := .userTask, label := "Note" },
     { id := "pdca_cycle", kind := .subProcess, label := "plan", loops := true
       children := some {
         name := "Inside"
         nodes := [{ id := "p", kind := .userTask, label := "plan" }]
         flows := [] } },
     { id := "c", kind := .userTask, label := "check" },
     { id := "d", kind := .businessRuleTask, label := "check" },
     { id := "a", kind := .userTask, label := "adjust" },
     { id := "b", kind := .userTask, label := "adjust" },
     { id := "e", kind := .finish, label := "End" }]
  flows :=
    [{ id := "1", source := "s", target := "p" },
     { id := "2", source := "a", target := "q" },
     { id := "3", source := "b", target := "n" },
     { id := "4", source := "n", target := "pdca_cycle" },
     { id := "5", source := "pdca_cycle", target := "e" }]

theorem changed_turns : turns.foldCycle {} ≠ turns ∧
    (turns.foldCycles [{}]).foldCycle {} ≠ turns.foldCycles [{}] := by
  have hlength : turns.nodes.length = 12 ∧ (turns.foldCycle {}).nodes.length = 9 ∧
      (turns.foldCycles [{}]).nodes.length = 9 ∧
      ((turns.foldCycles [{}]).foldCycle {}).nodes.length = 6 := by decide +kernel
  refine ⟨fun heq => ?_, fun heq => ?_⟩
  · rw [heq] at hlength
    omega
  · rw [heq] at hlength
    omega

theorem folding_stops_turns : turns.nodeIds.Nodup ∧ turns.tasks.length / 4 ≤ 2 ∧
    turns.Absorbs (turns.foldCycle {}) ∧
    (turns.foldCycles [{}]).Absorbs ((turns.foldCycles [{}]).foldCycle {}) ∧
    (turns.foldCycles (.replicate 2 {})).foldCycle {} = turns.foldCycles (.replicate 2 {}) := by
  have hids : turns.nodeIds.Nodup := by decide
  have htasks : turns.tasks.length / 4 ≤ 2 := by decide
  obtain ⟨habsorbs, hstops⟩ := folding_stops hids
  exact ⟨hids, htasks, habsorbs [] {} changed_turns.1, habsorbs [{}] {} changed_turns.2,
    hstops {} 2 htasks⟩

end Graph

end Swimlane
