/-
  Swimlane — reachability and folding.

  * `Graph.Reaches g u v`: zero or more flows of the graph lead from `u` to `v`.
  * `place c sub id`: where a node is when the cycle is in the sub-process `sub`.
  * `exists_of_mem_flows`: each flow is still there between the places of its
    ends, unless it leads from the cycle to a standard to which a common flow has
    been written already.  `origin_of_mem_foldFlows`: there are no other flows.
  * `reaches_fold`: so what is reached is still reached; `reaches_of_fold`: and
    nothing else is, if the members of the cycle reach each other within it.
  * `Graph.reachability_survives_folding` puts both together.

  Identifiers of flows play no part in this and may repeat.
-/
import Mathlib.Logic.Relation
import Swimlane.Proofs.Cycle.Fold

namespace Swimlane

/-! ## Paths -/

/-- A flow leads from `u` to `v`. -/
def Graph.Leads (g : Graph) (u v : String) : Prop := ∃ f ∈ g.flows, f.source = u ∧ f.target = v

/-- Zero or more flows lead from `u` to `v`. -/
def Graph.Reaches (g : Graph) : String → String → Prop := Relation.ReflTransGen g.Leads

namespace Cycle

open Identifier Relation Swimlane.Graph

/-- A flow within the cycle leads from `u` to `v`. -/
def LeadsWithin (c : Cycle) (g : Graph) (u v : String) : Prop :=
  ∃ f ∈ g.flows, f.source = u ∧ f.target = v ∧ u ∈ c.ids ∧ v ∈ c.ids

/-- The members of the cycle reach each other within it. -/
def Strong (c : Cycle) (g : Graph) : Prop :=
  ∀ u ∈ c.ids, ∀ v ∈ c.ids, ReflTransGen (c.LeadsWithin g) u v

/-- Where a node is when the cycle is in the sub-process `sub`. -/
def place (c : Cycle) (sub id : String) : String := if id ∈ c.ids then sub else id

section
variable {c : Cycle} {sub u v : String}

theorem place_of_mem (h : u ∈ c.ids) : c.place sub u = sub := if_pos h

theorem place_of_notMem (h : u ∉ c.ids) : c.place sub u = u := if_neg h

/-- Two nodes have one place only if they are the same or both members. -/
theorem eq_or_mem_of_place_eq (hu : u ≠ sub) (hv : v ≠ sub) (h : c.place sub u = c.place sub v) :
    u = v ∨ u ∈ c.ids ∧ v ∈ c.ids := by
  by_cases huin : u ∈ c.ids
  · by_cases hvin : v ∈ c.ids
    · exact Or.inr ⟨huin, hvin⟩
    · rw [place_of_mem huin, place_of_notMem hvin] at h
      exact absurd h.symm hv
  · by_cases hvin : v ∈ c.ids
    · rw [place_of_notMem huin, place_of_mem hvin] at h
      exact absurd h hu
    · rw [place_of_notMem huin, place_of_notMem hvin] at h
      exact Or.inl h

end

/-! ## Flows -/

section
variable {c : Cycle} {id : String} {standard : Option String} {exitLabel : String}
  {used : List String} {merged merged' : Bool} {f : Flow} {out : List Flow} {more : List String}

/-- What is written for a flow joins the places of its ends, which are not both in
    the cycle. -/
theorem Step.ends (h : Step c id standard exitLabel used merged f out more merged') {f' : Flow}
    (hf' : f' ∈ out) : f'.source = c.place id f.source ∧ f'.target = c.place id f.target ∧
      ¬ (f.source ∈ c.ids ∧ f.target ∈ c.ids) := by
  cases h <;> simp_all [place]

/-- A flow whose ends are not both in the cycle is written, unless the common flow
    has been written instead. -/
theorem Step.exists_of_open (h : Step c id standard exitLabel used merged f out more merged')
    (hopen : ¬ (f.source ∈ c.ids ∧ f.target ∈ c.ids)) : (∃ f', f' ∈ out) ∨
      merged = true ∧ f.source ∈ c.ids ∧ standard = some f.target := by
  cases h <;> simp_all

/-- The common flow comes with the first flow to its target. -/
theorem Step.exists_of_merged (h : Step c id standard exitLabel used false f out more true) :
    f.source ∈ c.ids ∧ standard = some f.target ∧ ∃ f', f' ∈ out := by
  cases h with
  | lead hs _ heq _ => exact ⟨hs, heq, _, List.mem_singleton_self _⟩

/-- **Each flow is still there** between the places of its ends, if these differ:
    itself, as another flow at the boundary, or as the common flow, which may have
    been written already. -/
theorem exists_of_mem_flows (used : List String) (merged : Bool) {flows : List Flow}
    (hf : f ∈ flows) (hopen : ¬ (f.source ∈ c.ids ∧ f.target ∈ c.ids)) :
    (∃ f' ∈ c.foldFlows id standard exitLabel used merged flows,
      f'.source = c.place id f.source ∧ f'.target = c.place id f.target) ∨
      merged = true ∧ f.source ∈ c.ids ∧ standard = some f.target := by
  induction flows generalizing used merged with
  | nil => cases hf
  | cons k rest ih =>
    obtain ⟨out, more, merged', hstep, hfold⟩ :=
      foldFlows_cons c id standard exitLabel used merged k rest
    rw [hfold]
    rcases List.mem_cons.1 hf with rfl | hf
    · rcases hstep.exists_of_open hopen with ⟨f', hf'⟩ | hfollow
      · obtain ⟨hs, ht, -⟩ := hstep.ends hf'
        exact Or.inl ⟨f', List.mem_append_left _ hf', hs, ht⟩
      · exact Or.inr hfollow
    · rcases ih (more ++ used) merged' hf with ⟨f', hf', hends⟩ | hfollow
      · exact Or.inl ⟨f', List.mem_append_right _ hf', hends⟩
      · obtain ⟨rfl, hs, ht⟩ := hfollow
        cases merged with
        | true => exact Or.inr ⟨rfl, hs, ht⟩
        | false =>
          -- `k` is the first flow to the standard, and the common flow comes with it
          obtain ⟨hks, hkt, f', hf'⟩ := hstep.exists_of_merged
          obtain ⟨hs', ht', -⟩ := hstep.ends hf'
          have htarget : k.target = f.target := Option.some.inj (hkt.symm.trans ht)
          refine Or.inl ⟨f', List.mem_append_left _ hf', ?_, htarget ▸ ht'⟩
          rw [hs', place_of_mem hks, place_of_mem hs]

/-- **There are no other flows** around the sub-process. -/
theorem origin_of_mem_foldFlows {flows : List Flow} {f' : Flow}
    (h : f' ∈ c.foldFlows id standard exitLabel used merged flows) :
    ∃ f ∈ flows, f'.source = c.place id f.source ∧ f'.target = c.place id f.target := by
  induction flows generalizing used merged with
  | nil => cases h
  | cons k rest ih =>
    obtain ⟨out, more, merged', hstep, hfold⟩ :=
      foldFlows_cons c id standard exitLabel used merged k rest
    rw [hfold] at h
    rcases List.mem_append.1 h with h | h
    · obtain ⟨hs, ht, -⟩ := hstep.ends h
      exact ⟨k, List.mem_cons_self, hs, ht⟩
    · obtain ⟨f, hf, hends⟩ := ih h
      exact ⟨f, List.mem_cons_of_mem _ hf, hends⟩

end

/-! ## Paths of the folded graph -/

section
variable {c : Cycle} {g : Graph} {u v : String} (rules : RuleSet)

theorem flows_fold : (c.fold rules g).flows =
    c.foldFlows (c.replacement rules g).id (c.standard? rules.standardizeKeywords g)
      rules.loopLabels.exit ((c.interior rules g).flowIds.reverse ++ g.flowIds) false g.flows := rfl

/-- A flow of the graph leads from place to place. -/
theorem reaches_of_leads (h : g.Leads u v) : (c.fold rules g).Reaches
    (c.place (c.replacement rules g).id u) (c.place (c.replacement rules g).id v) := by
  obtain ⟨f, hf, rfl, rfl⟩ := h
  by_cases hin : f.source ∈ c.ids ∧ f.target ∈ c.ids
  · rw [place_of_mem hin.1, place_of_mem hin.2]
    exact .refl
  · -- no common flow has been written before the first flow
    refine .single ?_
    rw [Graph.Leads, flows_fold]
    exact (exists_of_mem_flows _ _ hf hin).resolve_right fun h => by cases h.1

/-- **What is reached is still reached.** -/
theorem reaches_fold (h : g.Reaches u v) : (c.fold rules g).Reaches
    (c.place (c.replacement rules g).id u) (c.place (c.replacement rules g).id v) :=
  ReflTransGen.lift' (c.place _) (fun _ _ hlead => reaches_of_leads rules hlead) _ _ h

/-- In a graph where the members reach each other, nodes at one place do. -/
theorem reaches_of_place_eq (hstrong : c.Strong g) {sub : String} (hu : u ≠ sub) (hv : v ≠ sub)
    (h : c.place sub u = c.place sub v) : g.Reaches u v := by
  rcases eq_or_mem_of_place_eq hu hv h with rfl | ⟨hu, hv⟩
  · exact .refl
  · have hwithin : c.LeadsWithin g ≤ g.Leads := fun _ _ ⟨f, hf, hs, ht, _⟩ => ⟨f, hf, hs, ht⟩
    exact ReflTransGen.mono hwithin _ _ (hstrong u hu v hv)

/-- **Nothing else is reached**, if the members of the cycle reach each other
    within it: a path of the folded graph that runs through the sub-process is
    mended by a path within the cycle. -/
theorem reaches_of_fold (hends : ∀ f ∈ g.flows, f.source ∈ g.nodeIds ∧ f.target ∈ g.nodeIds)
    (hstrong : c.Strong g) (hu : u ∈ g.nodeIds) {x y : String} (h : (c.fold rules g).Reaches x y)
    (hx : x = c.place (c.replacement rules g).id u) (hv : v ∈ g.nodeIds)
    (hy : y = c.place (c.replacement rules g).id v) : g.Reaches u v := by
  have hfree : ∀ w ∈ g.nodeIds, w ≠ (c.replacement rules g).id := fun w hw hid =>
    fresh_notMem g.nodeIds baseId (show (c.replacement rules g).id ∈ g.nodeIds from hid ▸ hw)
  induction h generalizing v with
  | refl => exact reaches_of_place_eq hstrong (hfree u hu) (hfree v hv) (hx.symm.trans hy)
  | tail _ hlead ih =>
    obtain ⟨f', hf', rfl, rfl⟩ := hlead
    obtain ⟨f, hf, hs, ht⟩ := origin_of_mem_foldFlows hf'
    obtain ⟨hsource, htarget⟩ := hends f hf
    have hlast : g.Reaches f.target v :=
      reaches_of_place_eq hstrong (hfree _ htarget) (hfree v hv) (ht.symm.trans hy)
    have hstep : g.Leads f.source f.target := ⟨f, hf, rfl, rfl⟩
    exact ((ih hsource hs).tail hstep).trans hlast

/-- The sub-process is a node of the folded graph. -/
theorem replacement_mem_fold (h : c.Found g) (hids : g.nodeIds.Nodup) :
    c.replacement rules g ∈ (c.fold rules g).nodes :=
  (h.replaced_fold hids rules).mem_nodes.2 (Or.inl rfl)

end

/-- A cycle whose members lead to each other in turn is strong. -/
theorem strong_of_round {c : Cycle} {g : Graph}
    (hplan : c.LeadsWithin g c.plan.node.id c.execute.node.id)
    (hexecute : c.LeadsWithin g c.execute.node.id c.check.node.id)
    (hcheck : c.LeadsWithin g c.check.node.id c.act.node.id)
    (hact : c.LeadsWithin g c.act.node.id c.plan.node.id) : c.Strong g := by
  have hids : ∀ P : String → Prop, P c.plan.node.id → P c.execute.node.id → P c.check.node.id →
      P c.act.node.id → ∀ id ∈ c.ids, P id := by
    intro P hp hx hc ha
    simp [ids, nodes, members, hp, hx, hc, ha]
  have hfrom : ∀ v ∈ c.ids, ReflTransGen (c.LeadsWithin g) c.plan.node.id v :=
    hids _ .refl (.single hplan) (.tail (.single hplan) hexecute)
      (.tail (.tail (.single hplan) hexecute) hcheck)
  have hto : ∀ u ∈ c.ids, ReflTransGen (c.LeadsWithin g) u c.plan.node.id :=
    hids _ .refl (.head hexecute (.head hcheck (.single hact))) (.head hcheck (.single hact))
      (.single hact)
  exact fun u hu v hv => (hto u hu).trans (hfrom v hv)

end Cycle

namespace Graph

open Swimlane.Cycle

theorem exists_crossed_of_changed {rules : RuleSet} {g : Graph} (h : g.foldCycle rules ≠ g) :
    ∃ c, find? rules.loopRoles g = some c ∧ c.Crossed g := by
  cases hfind : find? rules.loopRoles g with
  | none => exact absurd (foldCycle_eq_self hfind) h
  | some c =>
    refine ⟨c, rfl, isOpen_iff.1 ?_⟩
    by_contra hclosed
    exact h (foldCycle_of_closed hfind (Bool.eq_false_iff.2 hclosed))

/-- Folding a cycle changes the graph, since the sub-process is new. -/
theorem changed_of_crossed {rules : RuleSet} {g : Graph} {c : Cycle} (hids : g.nodeIds.Nodup)
    (hfind : find? rules.loopRoles g = some c) (h : c.Crossed g) : g.foldCycle rules ≠ g := by
  intro hsame
  rw [foldCycle_of_crossed hfind h] at hsame
  have hmem := id_mem_nodeIds (replacement_mem_fold rules (found_of_find? hfind) hids)
  rw [hsame] at hmem
  exact Identifier.fresh_notMem g.nodeIds baseId hmem

/-- **Reachability survives folding.**  If folding changes the graph, then what is
    reached from a node is still reached from its place; and if the members of the
    cycle reach each other within it, the nodes outside reach no others than
    before. -/
theorem reachability_survives_folding {rules : RuleSet} {g : Graph} (hids : g.nodeIds.Nodup)
    (hends : ∀ f ∈ g.flows, f.source ∈ g.nodeIds ∧ f.target ∈ g.nodeIds)
    (hchanged : g.foldCycle rules ≠ g) :
    ∃ c sub, find? rules.loopRoles g = some c ∧
      (sub ∈ (g.foldCycle rules).nodes ∧ sub.kind = .subProcess ∧ sub.id ∉ g.nodeIds) ∧
      (∀ u v, g.Reaches u v →
        (g.foldCycle rules).Reaches (c.place sub.id u) (c.place sub.id v)) ∧
      (∀ s ∈ g.nodes, s.kind = .start → ∀ v, v ∉ c.ids → g.Reaches s.id v →
        (g.foldCycle rules).Reaches s.id v) ∧
      (c.Strong g → ∀ u ∈ g.nodeIds, ∀ v ∈ g.nodeIds, u ∉ c.ids → v ∉ c.ids →
        (g.foldCycle rules).Reaches u v → g.Reaches u v) := by
  obtain ⟨c, hfind, hcrossed⟩ := exists_crossed_of_changed hchanged
  have hfound := found_of_find? hfind
  rw [foldCycle_of_crossed hfind hcrossed]
  refine ⟨c, c.replacement rules g, hfind,
    ⟨replacement_mem_fold rules hfound hids, rfl, Identifier.fresh_notMem _ _⟩,
    fun u v h => reaches_fold rules h, fun s hs hkind v hv h => ?_,
    fun hstrong u hu v hv huout hvout h => ?_⟩
  · have hsout : s.id ∉ c.ids := hfound.notMem_ids hids hs (hkind ▸ rfl)
    have hplace := reaches_fold (c := c) rules h
    rwa [place_of_notMem hsout, place_of_notMem hv] at hplace
  · exact reaches_of_fold rules hends hstrong hu h (place_of_notMem huout).symm hv
      (place_of_notMem hvout).symm

/-- The process `revolving` with a flow back from the end of its cycle to the
    beginning. -/
def rounds : Graph :=
  { revolving with flows := { id := "9", source := "a", target := "p" } :: revolving.flows }

theorem find?_rounds : find? {} rounds = some revolution := by
  rw [← find?_revolving]
  simp only [find?, rounds]

theorem crossed_rounds : revolution.Crossed rounds := isOpen_iff.1 (by decide)

theorem strong_rounds : revolution.Strong rounds :=
  strong_of_round ⟨{ id := "2", source := "p", target := "x" }, by decide⟩
    ⟨{ id := "3", source := "x", target := "c" }, by decide⟩
    ⟨{ id := "5", source := "c", target := "a" }, by decide⟩
    ⟨{ id := "9", source := "a", target := "p" }, by decide⟩

theorem changed_rounds : rounds.foldCycle {} ≠ rounds :=
  changed_of_crossed (by decide) find?_rounds crossed_rounds

theorem reachability_of_rounds : rounds.foldCycle {} ≠ rounds ∧
    find? {} rounds = some revolution ∧ revolution.Strong rounds ∧
    ∃ c sub, find? {} rounds = some c ∧
      (sub ∈ (rounds.foldCycle {}).nodes ∧ sub.kind = .subProcess ∧ sub.id ∉ rounds.nodeIds) ∧
      (∀ u v, rounds.Reaches u v →
        (rounds.foldCycle {}).Reaches (c.place sub.id u) (c.place sub.id v)) ∧
      (∀ s ∈ rounds.nodes, s.kind = .start → ∀ v, v ∉ c.ids → rounds.Reaches s.id v →
        (rounds.foldCycle {}).Reaches s.id v) ∧
      (c.Strong rounds → ∀ u ∈ rounds.nodeIds, ∀ v ∈ rounds.nodeIds, u ∉ c.ids → v ∉ c.ids →
        (rounds.foldCycle {}).Reaches u v → rounds.Reaches u v) :=
  ⟨changed_rounds, find?_rounds, strong_rounds,
    reachability_survives_folding (by decide) (by decide) changed_rounds⟩

end Graph

end Swimlane
