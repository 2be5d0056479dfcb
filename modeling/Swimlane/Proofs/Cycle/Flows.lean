/-
  Swimlane — the flows around the sub-process of a cycle.

  * `Step`: what becomes of one flow, which names that takes into use, and
    whether the common flow to the standard has been written then.
    `foldFlows_cons`: the flows are treated one after the other by such steps.
  * `Redirected`: what becomes of one flow, without the state that the steps
    carry along.
  * `exists_image`: the flows around the sub-process are the images of the flows,
    in order; of the flows to the standard, only the first has one.
  * `exists_coined_of_mem_foldFlows`, `nodup_foldFlows`: their identifiers are old
    ones or free ones, and differ.
-/
import Swimlane.Proofs.Cycle.Members

namespace Swimlane.Cycle

open Identifier

/-! ## One flow -/

section
variable (c : Cycle) (id : String) (standard : Option String) (exitLabel : String)
  (used : List String) (merged : Bool) (f : Flow)

/-- What is written for one flow, with the names that are taken into use and the
    state of the common flow thereafter. -/
inductive Step : List Flow → List String → Bool → Prop
  | outside (hs : f.source ∉ c.ids) (ht : f.target ∉ c.ids) : Step [f] [] merged
  | inside (hs : f.source ∈ c.ids) (ht : f.target ∈ c.ids) : Step [] [] merged
  | inbound (hs : f.source ∉ c.ids) (ht : f.target ∈ c.ids) :
      Step [{ f with id := fresh used (f.id ++ "_loop"), target := id }]
        [fresh used (f.id ++ "_loop")] merged
  | outbound (hs : f.source ∈ c.ids) (ht : f.target ∉ c.ids) (hne : standard ≠ some f.target) :
      Step [{ f with source := id }] [] merged
  | lead (hs : f.source ∈ c.ids) (ht : f.target ∉ c.ids) (heq : standard = some f.target)
      (hmerged : merged = false) :
      Step [{ id := fresh used (id ++ "_out"), source := id, target := f.target,
              label := some exitLabel }]
        [fresh used (id ++ "_out")] true
  | follow (hs : f.source ∈ c.ids) (ht : f.target ∉ c.ids) (heq : standard = some f.target)
      (hmerged : merged = true) : Step [] [] merged

/-- **Flows are treated one after the other.** -/
theorem foldFlows_cons (rest : List Flow) : ∃ out more merged',
    Step c id standard exitLabel used merged f out more merged' ∧
      c.foldFlows id standard exitLabel used merged (f :: rest) =
        out ++ c.foldFlows id standard exitLabel (more ++ used) merged' rest := by
  by_cases hs : f.source ∈ c.ids
  · have hsource : c.holds f.source = true := holds_iff.2 hs
    by_cases ht : f.target ∈ c.ids
    · refine ⟨_, _, _, .inside hs ht, ?_⟩
      simp [foldFlows, enters, leaves, hsource, holds_iff.2 ht]
    · have htarget : c.holds f.target = false := holds_eq_false.2 ht
      by_cases heq : standard = some f.target
      · cases hmerged : merged with
        | false =>
          refine ⟨_, _, _, .lead hs ht heq rfl, ?_⟩
          simp [foldFlows, enters, leaves, hsource, htarget, heq]
        | true =>
          refine ⟨_, _, _, .follow hs ht heq rfl, ?_⟩
          simp [foldFlows, enters, leaves, hsource, htarget, heq]
      · refine ⟨_, _, _, .outbound hs ht heq, ?_⟩
        simp [foldFlows, enters, leaves, hsource, htarget, heq]
  · have hsource : c.holds f.source = false := holds_eq_false.2 hs
    by_cases ht : f.target ∈ c.ids
    · refine ⟨_, _, _, .inbound hs ht, ?_⟩
      simp [foldFlows, enters, hsource, holds_iff.2 ht]
    · have htarget : c.holds f.target = false := holds_eq_false.2 ht
      refine ⟨_, _, _, .outside hs ht, ?_⟩
      simp [foldFlows, enters, leaves, hsource, htarget]

end

section
variable {c : Cycle} {id : String} {standard : Option String} {exitLabel : String}
  {used : List String} {merged : Bool} {f : Flow} {out : List Flow} {more : List String}
  {merged' : Bool}

/-- What is written has the name of the flow or a name taken into use. -/
theorem Step.ids (h : Step c id standard exitLabel used merged f out more merged') :
    out.map Flow.id = more ∨ more = [] ∧ out.map Flow.id = [f.id] := by
  cases h <;> simp

/-- A name that is taken into use is free. -/
theorem Step.names (h : Step c id standard exitLabel used merged f out more merged') :
    more = [] ∨ ∃ name ∈ [f.id ++ "_loop", id ++ "_out"], more = [fresh used name] := by
  cases h <;> simp

end

/-! ## All flows -/

section
variable (c : Cycle) (id : String) (IsExit : String → Prop) (exitLabel : String)
  (used : List String) (f : Flow)

/-- What becomes of a flow around the sub-process `id`, when `used` are names in
    use and `IsExit` tells the node to which there is one common flow. -/
inductive Redirected : List Flow → Prop
  | outside (hs : f.source ∉ c.ids) (ht : f.target ∉ c.ids) : Redirected [f]
  | inside (hs : f.source ∈ c.ids) (ht : f.target ∈ c.ids) : Redirected []
  | inbound (hs : f.source ∉ c.ids) (ht : f.target ∈ c.ids) (flowId : String)
      (hfree : flowId ∉ used) : Redirected [{ f with id := flowId, target := id }]
  | outbound (hs : f.source ∈ c.ids) (ht : f.target ∉ c.ids) (hexit : ¬ IsExit f.target) :
      Redirected [{ f with source := id }]
  | lead (hs : f.source ∈ c.ids) (ht : f.target ∉ c.ids) (hexit : IsExit f.target)
      (flowId : String) (hfree : flowId ∉ used) :
      Redirected [{ id := flowId, source := id, target := f.target, label := some exitLabel }]
  | follow (hs : f.source ∈ c.ids) (ht : f.target ∉ c.ids) (hexit : IsExit f.target) :
      Redirected []

end

section
variable {c : Cycle} {id : String} {standard : Option String} {exitLabel : String}

theorem Redirected.of_step {used : List String} {merged merged' : Bool} {f : Flow}
    {out : List Flow} {more : List String}
    (h : Step c id standard exitLabel used merged f out more merged') :
    Redirected c id (fun t => standard = some t) exitLabel used f out := by
  cases h with
  | outside hs ht => exact .outside hs ht
  | inside hs ht => exact .inside hs ht
  | inbound hs ht => exact .inbound hs ht _ (fresh_notMem _ _)
  | outbound hs ht hne => exact .outbound hs ht hne
  | lead hs ht heq => exact .lead hs ht heq _ (fresh_notMem _ _)
  | follow hs ht heq => exact .follow hs ht heq

theorem Redirected.mono {IsExit : String → Prop} {used used' : List String} {f : Flow}
    {out : List Flow} (h : Redirected c id IsExit exitLabel used f out) (hused : used' ⊆ used) :
    Redirected c id IsExit exitLabel used' f out := by
  cases h with
  | outside hs ht => exact .outside hs ht
  | inside hs ht => exact .inside hs ht
  | inbound hs ht flowId hfree => exact .inbound hs ht flowId fun h => hfree (hused h)
  | outbound hs ht hexit => exact .outbound hs ht hexit
  | lead hs ht hexit flowId hfree => exact .lead hs ht hexit flowId fun h => hfree (hused h)
  | follow hs ht hexit => exact .follow hs ht hexit

/-- The common flow is written for the first flow that leads to its target. -/
theorem Step.merged_eq {used : List String} {merged merged' : Bool} {f : Flow}
    {out : List Flow} {more : List String}
    (h : Step c id standard exitLabel used merged f out more merged') :
    if f.source ∈ c.ids ∧ f.target ∉ c.ids ∧ standard = some f.target then
      merged' = true ∧ (out = [] ↔ merged = true)
    else merged' = merged := by
  cases h <;> simp_all

/-- **The flows around the sub-process** are the images of the flows, in order.
    Of the flows to the common target, the first has an image if none has been
    written before. -/
theorem exists_image (id exitLabel : String) (hstandard : ∀ t, standard = some t → t ∉ c.ids)
    (used : List String) (merged : Bool) {flows : List Flow} (hflows : flows.Nodup) :
    ∃ image : Flow → List Flow,
      c.foldFlows id standard exitLabel used merged flows = flows.flatMap image ∧
      (∀ f ∈ flows, Redirected c id (fun t => standard = some t) exitLabel used f (image f)) ∧
      ∀ f ∈ flows, f.source ∈ c.ids → standard = some f.target → (image f = [] ↔ merged = true ∨
        flows.find? (fun k => k.source ∈ c.ids ∧ k.target = f.target) ≠ some f) := by
  induction flows generalizing used merged with
  | nil => exact ⟨fun _ => [], rfl, by simp, by simp⟩
  | cons f rest ih =>
    obtain ⟨hf, hrest⟩ := List.nodup_cons.1 hflows
    obtain ⟨out, more, merged', hstep, hfold⟩ :=
      foldFlows_cons c id standard exitLabel used merged f rest
    obtain ⟨image, himage, hred, hfirst⟩ := ih (more ++ used) merged' hrest
    have hother : ∀ k ∈ rest, Function.update image f out k = image k := fun k hk =>
      Function.update_of_ne (fun h : k = f => hf (h ▸ hk)) _ _
    refine ⟨Function.update image f out, ?_, ?_, ?_⟩
    · rw [hfold, himage, List.flatMap_cons, Function.update_self, List.flatMap_congr hother]
    · refine List.forall_mem_cons.2 ⟨?_, fun k hk => ?_⟩
      · rw [Function.update_self]
        exact .of_step hstep
      · rw [hother k hk]
        exact (hred k hk).mono (List.subset_append_right _ _)
    · have hmerged := hstep.merged_eq
      refine List.forall_mem_cons.2 ⟨fun hs heq => ?_, fun k hk hs heq => ?_⟩
      · rw [if_pos ⟨hs, hstandard _ heq, heq⟩] at hmerged
        simp [Function.update_self, hmerged.2, hs]
      · rw [hother k hk, hfirst k hk hs heq]
        have hne : f ≠ k := fun h => hf (h ▸ hk)
        by_cases hjoin : f.source ∈ c.ids ∧ f.target = k.target
        · -- the flow at the front leads to the same target, so `k` is not the first
          obtain ⟨hfs, hft⟩ := hjoin
          have heqf : standard = some f.target := hft ▸ heq
          rw [if_pos ⟨hfs, hstandard _ heqf, heqf⟩] at hmerged
          simp [hmerged.1, hfs, hft, hne]
        · have hnot : ¬ (f.source ∈ c.ids ∧ f.target ∉ c.ids ∧ standard = some f.target) := by
            rintro ⟨hfs, -, hft⟩
            exact hjoin ⟨hfs, Option.some.inj (hft.symm.trans heq)⟩
          rw [if_neg hnot] at hmerged
          rw [hmerged, List.find?_cons_of_neg (by simpa using hjoin)]

end

/-! ## Identifiers -/

section
variable {c : Cycle} {id : String} {standard : Option String} {exitLabel : String}

/-- An identifier is that of a flow, or a free one made for a flow or for the
    sub-process. -/
theorem exists_coined_of_mem_foldFlows {used : List String} {merged : Bool} {flows : List Flow}
    {s : String}
    (h : s ∈ (c.foldFlows id standard exitLabel used merged flows).map Flow.id) :
    s ∈ flows.map Flow.id ∨ ∃ name, (name = id ++ "_out" ∨ ∃ f ∈ flows, name = f.id ++ "_loop") ∧
      Coined used flows.length name s := by
  induction flows generalizing used merged with
  | nil => cases h
  | cons f rest ih =>
    obtain ⟨out, more, merged', hstep, hfold⟩ :=
      foldFlows_cons c id standard exitLabel used merged f rest
    rw [hfold, List.map_append, List.mem_append] at h
    rcases h with h | h
    · rcases hstep.ids with hids | ⟨-, hids⟩
      · rw [hids] at h
        rcases hstep.names with rfl | ⟨name, hname, rfl⟩
        · cases h
        · refine Or.inr ⟨name, ?_, ?_⟩
          · simp only [List.mem_cons, List.not_mem_nil, or_false] at hname
            exact hname.symm.imp_right fun hname => ⟨f, List.mem_cons_self, hname⟩
          · rw [List.mem_singleton.1 h]
            exact coined_fresh used (by simp) name
      · exact Or.inl (by simpa [hids] using Or.inl h)
    · rcases ih h with h | ⟨name, hname, hcoined⟩
      · exact Or.inl (List.mem_cons_of_mem _ h)
      · refine Or.inr ⟨name, ?_, ?_⟩
        · exact hname.imp_right fun ⟨k, hk, hkname⟩ => ⟨k, List.mem_cons_of_mem _ hk, hkname⟩
        · refine (hcoined.of_append more).mono ?_
          rcases hstep.names with rfl | ⟨-, -, rfl⟩ <;> simp

/-- **The flows around the sub-process have different identifiers**, if those of
    the flows are different and in use. -/
theorem nodup_foldFlows {used : List String} {merged : Bool} {flows : List Flow}
    (hflows : (flows.map Flow.id).Nodup) (hused : flows.map Flow.id ⊆ used) :
    ((c.foldFlows id standard exitLabel used merged flows).map Flow.id).Nodup := by
  induction flows generalizing used merged with
  | nil => exact List.nodup_nil
  | cons f rest ih =>
    obtain ⟨out, more, merged', hstep, hfold⟩ :=
      foldFlows_cons c id standard exitLabel used merged f rest
    obtain ⟨hf, hrest⟩ := List.nodup_cons.1 hflows
    obtain ⟨hfused, hrestused⟩ := List.cons_subset.1 hused
    have hsub : rest.map Flow.id ⊆ more ++ used :=
      List.Subset.trans hrestused (List.subset_append_right _ _)
    rw [hfold, List.map_append, List.nodup_append]
    refine ⟨?_, ih hrest hsub, fun s hs t ht hst => ?_⟩
    · rcases hstep.ids with hids | ⟨-, hids⟩
      · rw [hids]
        rcases hstep.names with rfl | ⟨-, -, rfl⟩ <;> simp
      · simp [hids]
    · subst hst
      rcases exists_coined_of_mem_foldFlows ht with hlater | ⟨name, -, hcoined⟩
      · -- an identifier of a later flow: neither that of `f` nor a free one
        rcases hstep.ids with hids | ⟨-, hids⟩
        · rcases hstep.names with rfl | ⟨name, -, rfl⟩
          · simp [hids] at hs
          · rw [hids, List.mem_singleton] at hs
            exact fresh_notMem used name (hs ▸ hrestused hlater)
        · rw [hids, List.mem_singleton] at hs
          exact hf (hs ▸ hlater)
      · rcases hstep.ids with hids | ⟨-, hids⟩
        · exact hcoined.notMem (List.mem_append_left _ (hids ▸ hs))
        · rw [hids, List.mem_singleton] at hs
          exact hcoined.notMem (List.mem_append_right _ (hs ▸ hfused))

end

end Swimlane.Cycle
