/-
  Swimlane — no document identifier is given twice.

  * `Graph.bearers way g`: what the identifiers belong to that a graph has in a
    document, on all levels; `way` leads to the element that holds the graph.
  * `nodup_bearers`: nothing is listed twice.
  * `ids_perm`: the identifiers in a document are those of the bearers.
  * `nodup_ids_drawnRoot`: so they differ.
-/
import Mathlib.Data.List.Perm.Basic
import Swimlane.Proofs.Document.Identity
import Swimlane.Proofs.Document.Vocabulary
import Swimlane.Proofs.Xml.View

namespace Swimlane

open Document (Bearer Step Way Role text_element text_shown text_diagram text_plane)
open Swimlane.Graph (EachLevel Linked)
open Xml (Element Attribute named named_append)

/-! ## Steps -/

namespace Graph

variable {g : Graph}

/-- The step to the element of a node. -/
def nodeStep (g : Graph) (n : Node) : Step :=
  ⟨n.kind.idStem, toString (g.traversal.idxOf n.id + 1)⟩

/-- The step to the element of a flow. -/
def flowStep (g : Graph) (f : Flow) : Step := ⟨"Flow", toString (g.flowIds.idxOf f.id + 1)⟩

/-- The steps to the elements of a graph. -/
def steps (g : Graph) : List Step := g.nodes.map g.nodeStep ++ g.flows.map g.flowStep

theorem nodeName_eq (way : Way) (n : Node) :
    g.nodeName (Way.stem way) n = Bearer.text ⟨.element, way ++ [g.nodeStep n]⟩ := by
  rw [text_element]
  rfl

theorem flowName_eq (way : Way) (f : Flow) :
    g.flowName (Way.stem way) f = Bearer.text ⟨.element, way ++ [g.flowStep f]⟩ := by
  rw [text_element, flowName, show "Flow_" = "Flow" ++ "_" from rfl, ← String.append_assoc]
  rfl

theorem innerStem_eq (way : Way) (n : Node) :
    g.innerStem (Way.stem way) n = Way.stem (way ++ [g.nodeStep n]) := by
  rw [Way.stem_concat]
  rfl

/-- Different nodes are stepped to differently. -/
theorem nodup_nodeSteps (h : Linked g) : (g.nodes.map g.nodeStep).Nodup := by
  refine List.Nodup.map_on ?_ h.nodeIds_nodup.of_map
  intro n hn m hm hstep
  have hplace := toString_injective (congrArg Step.number hstep)
  have hmem : n.id ∈ g.traversal := mem_traversal.2 (id_mem_nodeIds hn)
  exact eq_of_id_eq h.nodeIds_nodup hn hm ((List.idxOf_inj hmem).1 (by omega))

theorem nodup_flowSteps (h : Linked g) : (g.flows.map g.flowStep).Nodup := by
  refine List.Nodup.map_on ?_ h.flowIds_nodup.of_map
  intro f hf f' hf' hstep
  have hplace := toString_injective (congrArg Step.number hstep)
  have hid : f.id = f'.id := (List.idxOf_inj (id_mem_flowIds hf)).1 (by omega)
  exact List.inj_on_of_nodup_map h.flowIds_nodup hf hf' hid

theorem nodup_steps (h : Linked g) : g.steps.Nodup := by
  refine List.nodup_append.2 ⟨nodup_nodeSteps h, nodup_flowSteps h, ?_⟩
  intro s hs t ht hst
  obtain ⟨n, -, rfl⟩ := List.mem_map.1 hs
  obtain ⟨f, -, rfl⟩ := List.mem_map.1 ht
  have hword : n.kind.idStem = "Flow" := congrArg Step.word hst
  cases hkind : n.kind <;> simp [hkind, NodeKind.idStem] at hword

/-! ## Bearers -/

/-- The diagram and the plane of a node with contents, at the end of the way. -/
def planeBearers (way : Way) (n : Node) : List Bearer :=
  if n.children.isSome then [⟨.diagram, way⟩, ⟨.plane, way⟩] else []

/-- What has an identifier on the first level of a graph. -/
def ownBearers (way : Way) (g : Graph) : List Bearer :=
  (g.steps.map fun s => ⟨.element, way ++ [s]⟩) ++ (g.steps.map fun s => ⟨.shown, way ++ [s]⟩) ++
    g.nodes.flatMap fun n => planeBearers (way ++ [g.nodeStep n]) n

mutual

/-- What has an identifier on all levels of a graph. -/
def bearers (way : Way) : Graph → List Bearer
  | ⟨name, nodes, flows⟩ =>
    ownBearers way ⟨name, nodes, flows⟩ ++
      nodeBearers (fun n => way ++ [nodeStep ⟨name, nodes, flows⟩ n]) nodes

/-- What has an identifier inside nodes; `ways` leads to the nodes. -/
def nodeBearers (ways : Node → Way) : List Node → List Bearer
  | [] => []
  | ⟨id, kind, label, lane, some children, loops⟩ :: rest =>
    children.bearers (ways ⟨id, kind, label, lane, some children, loops⟩) ++ nodeBearers ways rest
  | ⟨_, _, _, _, none, _⟩ :: rest => nodeBearers ways rest

end

/-- What has an identifier inside a node. -/
def insideBearers (way : Way) (n : Node) : List Bearer :=
  match n.children with
  | some inner => inner.bearers way
  | none => []

theorem bearers_eq (way : Way) (g : Graph) : g.bearers way =
    g.ownBearers way ++ g.nodes.flatMap fun n => insideBearers (way ++ [g.nodeStep n]) n := by
  have hnodes : ∀ (ways : Node → Way) (nodes : List Node),
      nodeBearers ways nodes = nodes.flatMap fun n => insideBearers (ways n) n := by
    intro ways nodes
    induction nodes with
    | nil => rfl
    | cons n rest ih =>
      obtain ⟨id, kind, label, lane, children, loops⟩ := n
      cases children <;> simp [nodeBearers, insideBearers, ih]
  cases g
  rw [bearers, hnodes]

theorem mem_planeBearers {way : Way} {n : Node} {b : Bearer} (h : b ∈ planeBearers way n) :
    b.way = way ∧ (b.role = .diagram ∨ b.role = .plane) := by
  unfold planeBearers at h
  split at h
  · simp only [List.mem_cons, List.not_mem_nil, or_false] at h
    rcases h with rfl | rfl
    · exact ⟨rfl, Or.inl rfl⟩
    · exact ⟨rfl, Or.inr rfl⟩
  · cases h

/-- On the first level one step is made. -/
theorem way_ownBearers {way : Way} {b : Bearer} (h : b ∈ g.ownBearers way) :
    ∃ s ∈ g.steps, b.way = way ++ [s] := by
  simp only [ownBearers, List.mem_append, List.mem_map, List.mem_flatMap] at h
  rcases h with (⟨s, hs, rfl⟩ | ⟨s, hs, rfl⟩) | ⟨n, hn, h⟩
  · exact ⟨s, hs, rfl⟩
  · exact ⟨s, hs, rfl⟩
  · have hstep : g.nodeStep n ∈ g.steps := List.mem_append_left _ (List.mem_map_of_mem hn)
    exact ⟨_, hstep, (mem_planeBearers h).1⟩

/-- **What is inside a graph** is reached by a step of the graph. -/
theorem way_bearers {way : Way} {b : Bearer} (h : b ∈ g.bearers way) :
    ∃ s ∈ g.steps, ∃ rest, b.way = way ++ s :: rest := by
  induction g using levels_induction generalizing way with
  | step g ih =>
    rw [bearers_eq] at h
    rcases List.mem_append.1 h with h | h
    · obtain ⟨s, hs, hway⟩ := way_ownBearers h
      exact ⟨s, hs, [], hway⟩
    · obtain ⟨n, hn, h⟩ := List.mem_flatMap.1 h
      unfold insideBearers at h
      cases hinner : n.children with
      | none =>
        rw [hinner] at h
        cases h
      | some inner =>
        rw [hinner] at h
        obtain ⟨s, -, rest, hway⟩ := ih n hn inner hinner h
        refine ⟨_, List.mem_append_left _ (List.mem_map_of_mem hn), s :: rest, ?_⟩
        rw [hway, List.append_assoc]
        rfl

theorem way_insideBearers {way : Way} {n : Node} {b : Bearer} (h : b ∈ insideBearers way n) :
    ∃ s rest, b.way = way ++ s :: rest := by
  unfold insideBearers at h
  split at h
  · obtain ⟨s, -, rest, hway⟩ := way_bearers h
    exact ⟨s, rest, hway⟩
  · cases h

/-- What belongs to different nodes differs, if it lies at the end of a way that
    begins with the step to the node. -/
theorem nodup_flatMap_nodes (h : Linked g) (way : Way) {f : Node → List Bearer}
    (hf : ∀ n ∈ g.nodes, (f n).Nodup)
    (hway : ∀ n, ∀ b ∈ f n, ∃ rest, b.way = way ++ g.nodeStep n :: rest) :
    (g.nodes.flatMap f).Nodup := by
  refine List.nodup_flatMap.2 ⟨hf, (List.pairwise_map.1 (nodup_nodeSteps h)).imp ?_⟩
  intro n m hne b hb hb'
  obtain ⟨rest, hrest⟩ := hway n b hb
  obtain ⟨rest', hrest'⟩ := hway m b hb'
  rw [hrest, List.append_cancel_left_eq, List.cons.injEq] at hrest'
  exact hne hrest'.1

theorem nodup_ownBearers (h : Linked g) (way : Way) : (g.ownBearers way).Nodup := by
  have hsteps : ∀ role : Role, (g.steps.map fun s => (⟨role, way ++ [s]⟩ : Bearer)).Nodup := by
    intro role
    refine (nodup_steps h).map fun s t hst => ?_
    simpa using congrArg Bearer.way hst
  have hplanes : (g.nodes.flatMap fun n => planeBearers (way ++ [g.nodeStep n]) n).Nodup := by
    refine nodup_flatMap_nodes h way (fun n _ => ?_) fun n b hb => ?_
    · unfold planeBearers
      split <;> simp
    · exact ⟨[], (mem_planeBearers hb).1⟩
  refine List.nodup_append.2 ⟨List.nodup_append.2 ⟨hsteps _, hsteps _, ?_⟩, hplanes, ?_⟩
  · rintro b hb c hc rfl
    obtain ⟨s, -, rfl⟩ := List.mem_map.1 hb
    obtain ⟨t, -, ht⟩ := List.mem_map.1 hc
    cases congrArg Bearer.role ht
  · rintro b hb c hc rfl
    obtain ⟨n, -, hc⟩ := List.mem_flatMap.1 hc
    obtain ⟨-, hrole⟩ := mem_planeBearers hc
    simp only [List.mem_append, List.mem_map] at hb
    rcases hb with ⟨s, -, rfl⟩ | ⟨s, -, rfl⟩ <;> simp at hrole

/-- **No identifier belongs to two things.** -/
theorem nodup_bearers (h : EachLevel Linked g) (way : Way) : (g.bearers way).Nodup := by
  induction h generalizing way with
  | @intro g here inside ih =>
    have hinside : (g.nodes.flatMap fun n => insideBearers (way ++ [g.nodeStep n]) n).Nodup := by
      refine nodup_flatMap_nodes here way (fun n hn => ?_) fun n b hb => ?_
      · unfold insideBearers
        cases hinner : n.children with
        | none => exact List.nodup_nil
        | some inner => exact ih n hn inner hinner _
      · obtain ⟨s, rest, hway⟩ := way_insideBearers hb
        exact ⟨s :: rest, by rw [hway, List.append_assoc]; rfl⟩
    rw [bearers_eq]
    refine List.nodup_append.2 ⟨nodup_ownBearers here way, hinside, ?_⟩
    rintro b hb c hc rfl
    -- on the first level one step is made, and inside the nodes more
    obtain ⟨s, -, hway⟩ := way_ownBearers hb
    obtain ⟨n, -, hc⟩ := List.mem_flatMap.1 hc
    obtain ⟨t, rest, hway'⟩ := way_insideBearers hc
    have hlength := congrArg List.length (hway.symm.trans hway')
    simp at hlength

/-! ## Words of identifiers -/

/-- A word without underscores that is not the word of diagrams or planes. -/
def PlainWord (w : String) : Prop := '_' ∉ w.toList ∧ w ≠ "BPMNDiagram" ∧ w ≠ "BPMNPlane"

instance (w : String) : Decidable (PlainWord w) := inferInstanceAs (Decidable (_ ∧ _))

theorem plainWord_toString (k : ℕ) : PlainWord (toString k) := by
  refine ⟨fun h => ?_, fun h => ?_, fun h => ?_⟩
  · exact absurd (isDigit_of_mem_toString h) (by decide)
  · have hletter : 'B' ∈ (toString k).toList := by rw [h]; decide
    exact absurd (isDigit_of_mem_toString hletter) (by decide)
  · have hletter : 'B' ∈ (toString k).toList := by rw [h]; decide
    exact absurd (isDigit_of_mem_toString hletter) (by decide)

theorem plainWord_steps {s : Step} (hs : s ∈ g.steps) : ∀ w ∈ s.words, PlainWord w := by
  have hkind : ∀ kind : NodeKind, PlainWord kind.idStem := by
    intro kind
    cases kind <;> decide
  have hflow : PlainWord "Flow" := by decide
  simp only [steps, List.mem_append, List.mem_map] at hs
  rcases hs with ⟨n, -, rfl⟩ | ⟨f, -, rfl⟩
  · exact List.forall_mem_cons.2 ⟨hkind _, List.forall_mem_singleton.2 (plainWord_toString _)⟩
  · exact List.forall_mem_cons.2 ⟨hflow, List.forall_mem_singleton.2 (plainWord_toString _)⟩

/-- The words of steps to elements of a graph. -/
def stepWords : List String := "Flow" :: NodeKind.all.map NodeKind.idStem

theorem word_mem_stepWords {s : Step} (hs : s ∈ g.steps) : s.word ∈ stepWords := by
  simp only [steps, List.mem_append, List.mem_map] at hs
  rcases hs with ⟨n, -, rfl⟩ | ⟨f, -, rfl⟩
  · refine List.mem_cons_of_mem _ (List.mem_map_of_mem ?_)
    cases n.kind <;> decide
  · exact List.mem_cons_self

theorem plainWord_concat {way : Way} {s : Step} (hway : ∀ w ∈ Way.words way, PlainWord w)
    (hs : s ∈ g.steps) : ∀ w ∈ Way.words (way ++ [s]), PlainWord w := by
  rw [Document.words_concat]
  intro w hw
  rcases List.mem_append.1 hw with hw | hw
  · exact hway w hw
  · exact plainWord_steps hs w hw

/-- **The bearers of a graph are plain**, so their identifiers tell them apart. -/
theorem plain_bearers {way : Way} (hway : ∀ w ∈ Way.words way, PlainWord w) :
    ∀ b ∈ g.bearers way, b.Plain := by
  induction g using levels_induction generalizing way with
  | step g ih =>
    rw [bearers_eq]
    intro b hb
    rcases List.mem_append.1 hb with hb | hb
    · obtain ⟨s, hs, heq⟩ := way_ownBearers hb
      have hwords := plainWord_concat hway hs
      rw [← heq] at hwords
      exact ⟨by simp [heq], fun w hw => (hwords w hw).1, fun _ w hw => (hwords w hw).2⟩
    · obtain ⟨n, hn, hb⟩ := List.mem_flatMap.1 hb
      unfold insideBearers at hb
      cases hinner : n.children with
      | none =>
        rw [hinner] at hb
        cases hb
      | some inner =>
        rw [hinner] at hb
        have hstep : g.nodeStep n ∈ g.steps := List.mem_append_left _ (List.mem_map_of_mem hn)
        exact ih n hn inner hinner (plainWord_concat hway hstep) b hb

end Graph

/-! ## Identifiers in a document -/

/-- The identifiers in an element. -/
def Xml.Element.ids (e : Element) : List String := (e.marked ["id"]).map Prod.snd

open Xml.Element (ids)

section
variable {tag content : String} {attributes : List Attribute} {es : List Element}

theorem ids_block : (Element.block tag attributes es).ids =
    (named ["id"] attributes).map Prod.snd ++ es.flatMap ids := by
  rw [ids, Xml.Element.marked_block, List.map_append, List.map_flatMap]
  rfl

end

theorem ids_collaboration (name : String) :
    (Document.collaboration name).ids = ["Collaboration_1", "Participant_1"] := by
  simp [Document.collaboration, ids, named, Document.collaborationId, Document.participantId]

theorem ids_laneElement (b : LaneBand Float32) :
    (Document.laneElement b).ids = [b.lane.elementId] := by
  simp [Document.laneElement, ids, named]

theorem ids_process (name : String) (lanes : List (LaneBand Float32)) (es : List Element) :
    (Document.process name lanes es).ids = "Process_1" :: "LaneSet_1" ::
      ((lanes.map fun b => b.lane.elementId) ++ es.flatMap ids) := by
  simp only [Document.process, ids_block, List.flatMap_cons, List.flatMap_map, ids_laneElement,
    ← List.map_eq_flatMap]
  simp [named, Document.processId]

theorem ids_element {α : Type} (p : Placement α) (id label : String) (loops : Bool)
    (refs : List FlowRef) (es : List Element) :
    (p.element id label loops refs es).ids = p.renderedId :: es.flatMap ids := by
  have hnamed : named ["id"] [("id", p.renderedId), ("name", label)] = [("id", p.renderedId)] := by
    simp [named]
  cases loops <;> simp [Placement.element, ids, hnamed, List.map_flatMap] <;> rfl

theorem ids_drawnFlow {α : Type} [Inhabited α] (l : GraphLayout α) (f : Flow) :
    (l.drawnFlow f).ids = [(l.edgeAt f.id).renderedId] := by
  cases hlabel : f.label <;> simp [GraphLayout.drawnFlow, ids, named, hlabel]

/-- A shape has the identifier of what it shows, with an ending. -/
theorem ids_shape (elementId : String) {as : List Attribute} (has : named ["id"] as = [])
    (b : Box Float32) : (shape elementId as b).ids = [elementId ++ "_di"] := by
  have hbox : b.element.ids = [] := by simp [Box.element, ids, named]
  have hnamed : named ["id"] [("id", elementId ++ "_di"), ("bpmnElement", elementId)] =
      [("id", elementId ++ "_di")] := by
    simp [named]
  rw [shape, ids_block, named_append, hnamed, has, List.flatMap_singleton, hbox]
  rfl

theorem ids_laneShape {theme : Theme} (b : LaneBand Float32) :
    (b.shape theme).ids = [b.lane.elementId ++ "_di"] := by
  refine ids_shape _ ?_ _
  cases theme.laneColor? b.lane <;> simp [named, horizontal, colorAttributes]

theorem ids_nodeShape {theme : Theme} (p : Placement Float32) (n : Node) :
    (p.shape theme n).ids = [p.renderedId ++ "_di"] := by
  have hcolors : named ["id"] (p.colors theme n.loops) = [] := by
    unfold Placement.colors
    split <;> simp [named, colorAttributes]
  refine ids_shape _ ?_ _
  rw [named_append, hcolors]
  split <;> simp [named]

theorem ids_edge (e : EdgeRoute Float32) : e.drawn.ids = [e.renderedId ++ "_di"] := by
  simp [EdgeRoute.drawn, Point.element, ids, named, List.flatMap_map]

theorem ids_diagram (suffix elementId : String) (es : List Element) :
    (diagram suffix elementId es).ids =
      ["BPMNDiagram_" ++ suffix, "BPMNPlane_" ++ suffix] ++ es.flatMap ids := by
  simp [diagram, ids_block, named]

/-! ## Identifiers of a graph -/

section
variable {theme : Theme} {grid : Grid Float32} {banding : Banding} {way : Way} {g : Graph}

theorem ids_drawnElements (hg : Linked g) :
    (g.drawnElements (g.layoutWith grid banding (Way.stem way))).flatMap ids =
      (g.nodes.flatMap fun n => [Bearer.text ⟨.element, way ++ [g.nodeStep n]⟩] ++
        (n.drawnInside (g.layoutWith grid banding (Way.stem way))).flatMap ids) ++
      g.flows.map fun f => Bearer.text ⟨.element, way ++ [g.flowStep f]⟩ := by
  rw [drawnElements_eq, List.flatMap_append, List.flatMap_map, List.flatMap_map]
  congr 1
  · refine List.flatMap_congr fun n hn => ?_
    rw [Node.drawnElement, ids_element, renderedId_nodeAt hg hn, Graph.nodeName_eq]
    rfl
  · rw [List.map_eq_flatMap]
    refine List.flatMap_congr fun f hf => ?_
    rw [ids_drawnFlow, renderedId_edgeAt hg hf, Graph.flowName_eq]

theorem ids_drawnPlane (hg : Linked g) :
    (g.drawnPlane theme (g.layoutWith grid banding (Way.stem way))).flatMap ids =
      g.steps.map fun s => Bearer.text ⟨.shown, way ++ [s]⟩ := by
  rw [Graph.drawnPlane, List.flatMap_append, List.flatMap_map, List.flatMap_map, Graph.steps,
    List.map_append, List.map_map, List.map_map, List.map_eq_flatMap, List.map_eq_flatMap]
  congr 1
  · refine List.flatMap_congr fun n hn => ?_
    rw [ids_nodeShape, renderedId_nodeAt hg hn, Graph.nodeName_eq, ← text_shown]
    rfl
  · refine List.flatMap_congr fun f hf => ?_
    rw [ids_edge, renderedId_edgeAt hg hf, Graph.flowName_eq, ← text_shown]
    rfl

/-- The identifiers in the plane of a node and in the diagrams inside it. -/
def innerPlaneIds (theme : Theme) (l : GraphLayout Float32) (n : Node) : List String :=
  match n.children with
  | some inner => (inner.drawnPlane theme (l.innerAt n.id)).flatMap ids ++
      (inner.drawnDiagrams theme (l.innerAt n.id)).flatMap ids
  | none => []

theorem ids_drawnDiagrams (hg : Linked g) :
    (g.drawnDiagrams theme (g.layoutWith grid banding (Way.stem way))).flatMap ids =
      g.nodes.flatMap fun n => (Graph.planeBearers (way ++ [g.nodeStep n]) n).map Bearer.text ++
        innerPlaneIds theme (g.layoutWith grid banding (Way.stem way)) n := by
  rw [drawnDiagrams_eq, List.flatMap_assoc]
  refine List.flatMap_congr fun n hn => ?_
  unfold Node.drawnDiagrams Graph.planeBearers innerPlaneIds
  cases hinner : n.children with
  | none => rfl
  | some inner =>
    dsimp only
    rw [List.flatMap_cons, ids_diagram, renderedId_nodeAt hg hn, Graph.nodeName_eq, ← text_diagram,
      ← text_plane, List.append_assoc]
    rfl

/-- **The identifiers of a graph** are those of its bearers. -/
theorem ids_perm (grid : Grid Float32) (banding : Banding) (way : Way) (hg : EachLevel Linked g) :
    ((g.drawnElements (g.layoutWith grid banding (Way.stem way))).flatMap ids ++
      ((g.drawnPlane theme (g.layoutWith grid banding (Way.stem way))).flatMap ids ++
        (g.drawnDiagrams theme (g.layoutWith grid banding (Way.stem way))).flatMap ids)).Perm
      ((g.bearers way).map Bearer.text) := by
  induction hg generalizing banding way with
  | @intro g here inside ih =>
    have hinside : ∀ n ∈ g.nodes,
        ((n.drawnInside (g.layoutWith grid banding (Way.stem way))).flatMap ids ++
          innerPlaneIds theme (g.layoutWith grid banding (Way.stem way)) n).Perm
          ((Graph.insideBearers (way ++ [g.nodeStep n]) n).map Bearer.text) := by
      intro n hn
      unfold Node.drawnInside innerPlaneIds Graph.insideBearers
      cases hinner : n.children with
      | none => exact .nil
      | some inner =>
        dsimp only
        rw [innerAt_layoutWith here hn hinner, Graph.innerStem_eq]
        exact ih n hn inner hinner .single _
    -- the parts of the nodes are gathered, and those inside the nodes put together
    have helements := List.flatMap_append_perm g.nodes
      (fun n => [Bearer.text ⟨.element, way ++ [g.nodeStep n]⟩])
      (fun n => (n.drawnInside (g.layoutWith grid banding (Way.stem way))).flatMap ids)
    have hdiagrams := List.flatMap_append_perm g.nodes
      (fun n => (Graph.planeBearers (way ++ [g.nodeStep n]) n).map Bearer.text)
      (innerPlaneIds theme (g.layoutWith grid banding (Way.stem way)))
    have hinner := (List.flatMap_append_perm g.nodes
      (fun n => (n.drawnInside (g.layoutWith grid banding (Way.stem way))).flatMap ids)
      (innerPlaneIds theme (g.layoutWith grid banding (Way.stem way)))).trans
      (List.Perm.flatMap_left _ hinside)
    rw [ids_drawnElements here, ids_drawnPlane here, ids_drawnDiagrams here, Graph.bearers_eq,
      Graph.ownBearers]
    simp only [List.map_append, List.map_flatMap, List.map_map, Graph.steps, Function.comp_def]
    rw [← List.map_eq_flatMap] at helements
    rw [List.perm_iff_count] at helements hdiagrams hinner ⊢
    intro id
    have h1 := helements id
    have h2 := hdiagrams id
    have h3 := hinner id
    simp only [List.count_append] at h1 h2 h3 ⊢
    omega

end

/-! ## Identifiers of a document -/

namespace Document

/-- The step to a lane. -/
def laneStep (lane : Lane) : Step := ⟨"Lane", lane.title⟩

theorem elementId_eq (lane : Lane) : lane.elementId = Bearer.text ⟨.element, [laneStep lane]⟩ := by
  cases lane <;> decide

/-- The steps to the elements that every document has.  The diagram of the
    process and its plane are called like elements. -/
def fixedSteps : List Step :=
  [⟨"Definitions", "1"⟩, ⟨"Collaboration", "1"⟩, ⟨"Participant", "1"⟩, ⟨"Process", "1"⟩,
   ⟨"LaneSet", "1"⟩, ⟨"BPMNDiagram", "1"⟩, ⟨"BPMNPlane", "1"⟩] ++ Lane.all.map laneStep

/-- The steps to the elements that the first plane of every document shows. -/
def fixedShownSteps : List Step := ⟨"Participant", "1"⟩ :: Lane.all.map laneStep

/-- What has an identifier in every document. -/
def fixedBearers : List Bearer :=
  (fixedSteps.map fun s => ⟨.element, [s]⟩) ++ fixedShownSteps.map fun s => ⟨.shown, [s]⟩

theorem nodup_fixedBearers : fixedBearers.Nodup := by decide

theorem plain_fixedBearers : ∀ b ∈ fixedBearers, b.Plain := by
  have hwords : ∀ b ∈ fixedBearers, b.way ≠ [] ∧ (∀ w ∈ Way.words b.way, '_' ∉ w.toList) ∧
      (b.role = .shown → ∀ w ∈ Way.words b.way, w ≠ "BPMNDiagram" ∧ w ≠ "BPMNPlane") := by
    decide
  intro b hb
  obtain ⟨hne, hunderscore, hshown⟩ := hwords b hb
  exact ⟨hne, hunderscore, hshown⟩

/-- What every document has is not part of a graph. -/
theorem disjoint_fixedBearers (g : Graph) : fixedBearers.Disjoint (g.bearers []) := by
  have hfixed : ∀ b ∈ fixedBearers, ∀ s ∈ b.way.head?, s.word ∉ Graph.stepWords := by decide
  intro b hb hb'
  obtain ⟨s, hs, rest, hway⟩ := Graph.way_bearers hb'
  exact hfixed b hb s (by simp [hway]) (Graph.word_mem_stepWords hs)

/-- Bearers with the same identifier are the same. -/
theorem nodup_text {bs : List Bearer} (h : bs.Nodup) (hplain : ∀ b ∈ bs, b.Plain) :
    (bs.map Bearer.text).Nodup :=
  h.map_on fun b hb c hc => Bearer.text_injective (hplain b hb) (hplain c hc)

section
variable {theme : Theme} {grid : Grid Float32} {g : Graph}

/-- **The identifiers of a document** are those of its bearers. -/
theorem ids_drawnRoot_perm (hg : EachLevel Linked g) (info : Meta) (pool : Box Float32) :
    (drawnRoot theme info g (g.layout grid) pool).ids.Perm
      ((fixedBearers ++ g.bearers []).map Bearer.text) := by
  have hroot : (named ["id"] (rootAttributes theme info)).map Prod.snd = ["Definitions_1"] := by
    unfold rootAttributes namespaces colorNamespace
    cases theme.usesColor <;> simp [named]
  have hlanes : (g.layout grid).lanes.map (fun b => b.lane.elementId) =
      Lane.all.map fun lane => Bearer.text ⟨.element, [laneStep lane]⟩ := by
    rw [← map_lane_layout grid g, List.map_map]
    exact List.map_congr_left fun b _ => elementId_eq b.lane
  have hshapes : (g.layout grid).lanes.flatMap (fun b => (b.shape theme).ids) =
      Lane.all.map fun lane => Bearer.text ⟨.shown, [laneStep lane]⟩ := by
    simp only [ids_laneShape, ← List.map_eq_flatMap]
    rw [← map_lane_layout grid g, List.map_map]
    refine List.map_congr_left fun b _ => ?_
    rw [elementId_eq]
    exact (text_shown [] (laneStep b.lane)).symm
  have hpool : (shape participantId [horizontal] pool).ids = ["Participant_1_di"] :=
    ids_shape _ (by simp [named, horizontal]) _
  have hmain : (mainDiagram theme pool (g.layout grid).lanes (g.drawnPlane theme (g.layout grid))).ids =
      ["BPMNDiagram_1", "BPMNPlane_1", "Participant_1_di"] ++
        (Lane.all.map (fun lane => Bearer.text ⟨.shown, [laneStep lane]⟩) ++
          (g.drawnPlane theme (g.layout grid)).flatMap ids) := by
    rw [mainDiagram, ids_diagram, List.flatMap_cons, hpool, List.flatMap_append, List.flatMap_map,
      hshapes]
    rfl
  have hgraph : ((g.drawnElements (g.layout grid)).flatMap ids ++
      ((g.drawnPlane theme (g.layout grid)).flatMap ids ++
        (g.drawnDiagrams theme (g.layout grid)).flatMap ids)).Perm
      ((g.bearers []).map Bearer.text) := ids_perm grid .lanes [] hg
  have hfixed : fixedBearers.map Bearer.text =
      ["Definitions_1", "Collaboration_1", "Participant_1", "Process_1", "LaneSet_1",
       "BPMNDiagram_1", "BPMNPlane_1"] ++
        Lane.all.map (fun lane => Bearer.text ⟨.element, [laneStep lane]⟩) ++
        "Participant_1_di" :: Lane.all.map fun lane => Bearer.text ⟨.shown, [laneStep lane]⟩ := by
    rfl
  rw [drawnRoot, ids_block, hroot, List.flatMap_append, List.map_append, hfixed]
  simp only [List.flatMap_cons, List.flatMap_nil, ids_collaboration, ids_process, hlanes, hmain]
  rw [List.perm_iff_count] at hgraph ⊢
  intro id
  have hid := hgraph id
  simp only [List.count_append, List.count_cons, List.count_nil] at hid ⊢
  omega

/-- **No identifier of a document is given twice.** -/
theorem nodup_ids_drawnRoot (hg : EachLevel Linked g) (info : Meta) (pool : Box Float32) :
    (drawnRoot theme info g (g.layout grid) pool).ids.Nodup := by
  rw [(ids_drawnRoot_perm hg info pool).nodup_iff]
  refine nodup_text ?_ ?_
  · exact List.nodup_append'.2
      ⟨nodup_fixedBearers, Graph.nodup_bearers hg [], disjoint_fixedBearers g⟩
  · intro b hb
    rcases List.mem_append.1 hb with hb | hb
    · exact plain_fixedBearers b hb
    · exact Graph.plain_bearers (fun w hw => by cases hw) b hb

end

end Document

end Swimlane
