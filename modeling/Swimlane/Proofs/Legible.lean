/-
  Swimlane — legible documents of drafts.

  A document says what the draft says, what a folded cycle adds, and the colours
  of the theme.  The last two are legible, but the texts of a draft are any texts:
  a control character goes unchanged from the candidate into the document, where
  it must not stand.

  * `mem_labels_fold`: a folded graph says what the graph says and what the cycle
    adds.  `label_mem_fold`: all nodes keep their labels.
  * `Theme.IsLegible.texts`: the texts of a document are legible if those of the
    graph are.
  * `compile_legible`: the document of an accepted draft is legible exactly if the
    texts of its graph are, so that it is if the texts of the draft are.
    `not_legible_controlled` is a candidate whose document is not.
-/
import Mathlib.Data.String.Basic
import Swimlane.Json.Printer
import Swimlane.Proofs.Compile
import Swimlane.Proofs.Document.Legible
import Swimlane.Proofs.Draft.Resubmission

namespace Swimlane

open Xml (Attribute Legible)

/-! ## Texts of a graph -/

section
variable {g : Graph} {a : Attribute}

theorem mem_labels : a ∈ g.labels ↔
    (∃ n ∈ g.nodes, a = ("name", n.label) ∨ a ∈ n.innerLabels) ∨ ∃ f ∈ g.flows, a ∈ f.labels := by
  simp only [labels_eq, List.mem_append, List.mem_flatMap, List.mem_cons]

theorem label_mem_labels {n : Node} (hn : n ∈ g.nodes) : ("name", n.label) ∈ g.labels :=
  mem_labels.2 (Or.inl ⟨n, hn, Or.inl rfl⟩)

theorem mem_flowLabels {f : Flow} :
    a ∈ f.labels ↔ ∃ label, f.label = some label ∧ a = ("name", label) := by
  simp [Flow.labels, eq_comm]

/-- The process of a draft says what the draft says. -/
theorem mem_texts_of_ofDraft {rules : RuleSet} {d : Draft}
    (h : a ∈ (Graph.ofDraft rules d).labels) : a.2 ∈ d.texts := by
  rcases mem_labels.1 h with ⟨n, hn, ha⟩ | ⟨f, hf, ha⟩
  · obtain ⟨m, hm, rfl⟩ := List.mem_map.1 hn
    rw [Node.innerLabels, Graph.children_ofDraft, Node.ofDraft_label] at ha
    obtain rfl := ha.resolve_right List.not_mem_nil
    exact List.mem_append_left _ (List.mem_cons_of_mem _ (List.mem_map_of_mem hm))
  · obtain ⟨label, hlabel, rfl⟩ := mem_flowLabels.1 ha
    exact List.mem_append_right _ (List.mem_filterMap.2 ⟨f, hf, hlabel⟩)

end

/-! ## Texts of a folded cycle -/

/-- What a folded cycle adds to the texts. -/
def LoopLabels.texts (labels : LoopLabels) : List String :=
  [labels.subprocess, labels.start, labels.finish, labels.gateway, labels.goalMet,
    labels.goalNotMet, labels.exit]

namespace Cycle

open Swimlane.Graph

section
variable {c : Cycle} {labels : LoopLabels} {id : String} {usedNodes usedFlows : List String}

/-- A node of the sub-process is a member or says what is added. -/
theorem mem_nodes_or_label_mem_texts {n : Node}
    (h : n ∈ (c.contents labels id usedNodes usedFlows).nodes) :
    n ∈ c.nodes ∨ n.label ∈ labels.texts ∧ n.innerLabels = [] := by
  simp only [contents, List.mem_cons, List.not_mem_nil, or_false] at h
  rcases h with rfl | rfl | rfl | rfl | rfl | rfl | rfl <;>
    simp [nodes, members, LoopLabels.texts, Node.innerLabels]

/-- The flows in the sub-process say what is added. -/
theorem label_mem_texts_of_contents {f : Flow} {label : String}
    (h : f ∈ (c.contents labels id usedNodes usedFlows).flows) (hlabel : f.label = some label) :
    label ∈ labels.texts := by
  simp only [contents, ← List.map_uncurry_zip_eq_zipWith, List.mem_map] at h
  obtain ⟨⟨flowId, step⟩, hstep, rfl⟩ := h
  replace hstep := (List.of_mem_zip hstep).2
  simp only [List.mem_cons, List.not_mem_nil, or_false] at hstep
  rcases hstep with rfl | rfl | rfl | rfl | rfl | rfl | rfl <;>
    simp_all [LoopLabels.texts]

end

/-- A redirected flow keeps its text, but for the common flow to the exit. -/
theorem Redirected.label_eq {c : Cycle} {id : String} {IsExit : String → Prop} {exitLabel : String}
    {used : List String} {f f' : Flow} {out : List Flow}
    (h : Redirected c id IsExit exitLabel used f out) (hf' : f' ∈ out) :
    f'.label = f.label ∨ f'.label = some exitLabel := by
  cases h <;> simp_all

section
variable {c : Cycle} {g : Graph} {rules : RuleSet} {a : Attribute}

theorem mem_labels_of_interior (hfound : c.Found g) (h : a ∈ (c.interior rules g).labels) :
    a ∈ g.labels ∨ a.2 ∈ rules.loopLabels.texts := by
  rcases mem_labels.1 h with ⟨n, hn, ha⟩ | ⟨f, hf, ha⟩
  · rcases mem_nodes_or_label_mem_texts hn with hn | ⟨htext, hinner⟩
    · exact Or.inl (mem_labels.2 (Or.inl ⟨n, hfound.mem_of_mem_nodes hn, ha⟩))
    · rw [hinner] at ha
      obtain rfl := ha.resolve_right List.not_mem_nil
      exact Or.inr htext
  · obtain ⟨label, hlabel, rfl⟩ := mem_flowLabels.1 ha
    exact Or.inr (label_mem_texts_of_contents hf hlabel)

/-- **A folded graph says nothing new** but what the cycle adds. -/
theorem mem_labels_fold (hfound : c.Found g) (hids : g.nodeIds.Nodup) (hflows : g.flowIds.Nodup)
    (h : a ∈ (c.fold rules g).labels) : a ∈ g.labels ∨ a.2 ∈ rules.loopLabels.texts := by
  obtain ⟨image, hfolded⟩ := folded_fold rules hfound hids hflows
  rcases mem_labels.1 h with ⟨n, hn, ha⟩ | ⟨f', hf', ha⟩
  · rcases hfolded.mem_nodes.1 hn with rfl | ⟨hn, -⟩
    · rcases ha with rfl | ha
      · exact Or.inr List.mem_cons_self
      · exact mem_labels_of_interior hfound ha
    · exact Or.inl (mem_labels.2 (Or.inl ⟨n, hn, ha⟩))
  · rw [hfolded.flows] at hf'
    obtain ⟨f, hf, hf'⟩ := List.mem_flatMap.1 hf'
    obtain ⟨label, hlabel, rfl⟩ := mem_flowLabels.1 ha
    rcases (hfolded.redirected f hf).label_eq hf' with heq | heq
    · exact Or.inl (mem_labels.2 (Or.inr ⟨f, hf, mem_flowLabels.2 ⟨label, heq ▸ hlabel, rfl⟩⟩))
    · obtain rfl := Option.some.inj (heq.symm.trans hlabel)
      exact Or.inr (by simp [LoopLabels.texts])

/-- All nodes keep their labels, the members inside the sub-process. -/
theorem label_mem_fold (rules : RuleSet) (hfound : c.Found g) (hids : g.nodeIds.Nodup)
    (hflows : g.flowIds.Nodup) {n : Node} (hn : n ∈ g.nodes) :
    ("name", n.label) ∈ (c.fold rules g).labels := by
  obtain ⟨image, hfolded⟩ := folded_fold rules hfound hids hflows
  by_cases hmember : n.id ∈ c.ids
  · have hinside : ("name", n.label) ∈ (c.interior rules g).labels :=
      label_mem_labels (nodes_subset_contents _ _ _ _ _ ((hfound.mem_nodes_iff hids hn).2 hmember))
    exact mem_labels.2 (Or.inl ⟨_, hfolded.mem_nodes.2 (Or.inl rfl), Or.inr hinside⟩)
  · exact label_mem_labels (hfolded.mem_nodes.2 (Or.inr ⟨hn, hmember⟩))

end

end Cycle

section
variable {rules : RuleSet} {d : Draft}

/-- The graph of a draft is its process, or that with a cycle folded. -/
theorem toGraph_cases (rules : RuleSet) (d : Draft) : d.toGraph rules = Graph.ofDraft rules d ∨
    ∃ c : Cycle, c.Found (Graph.ofDraft rules d) ∧
      d.toGraph rules = c.fold rules (Graph.ofDraft rules d) :=
  Graph.foldCycle_cases rules (Graph.ofDraft rules d)

theorem name_toGraph (rules : RuleSet) (d : Draft) : (d.toGraph rules).name = d.name := by
  rcases toGraph_cases rules d with heq | ⟨c, -, heq⟩ <;>
    · rw [heq]
      rfl

/-- The graph of a draft says what the draft says, and what a cycle adds. -/
theorem mem_texts_of_toGraph (h : d.Coherent) {a : Attribute} (ha : a ∈ (d.toGraph rules).labels) :
    a.2 ∈ d.texts ∨ a.2 ∈ rules.loopLabels.texts := by
  have hlinked : (Graph.ofDraft rules d).Linked := Graph.linked_ofDraft h
  rcases toGraph_cases rules d with heq | ⟨c, hfound, heq⟩
  · rw [heq] at ha
    exact Or.inl (mem_texts_of_ofDraft ha)
  · rw [heq] at ha
    exact (Cycle.mem_labels_fold hfound hlinked.nodeIds_nodup hlinked.flowIds_nodup ha).imp_left
      mem_texts_of_ofDraft

/-- The graph of a draft has all labels of nodes. -/
theorem label_mem_toGraph (h : d.Coherent) (rules : RuleSet) {n : Draft.Node} (hn : n ∈ d.nodes) :
    ("name", n.label) ∈ (d.toGraph rules).labels := by
  have hlinked : (Graph.ofDraft rules d).Linked := Graph.linked_ofDraft h
  have hmem : Node.ofDraft rules n ∈ (Graph.ofDraft rules d).nodes := List.mem_map_of_mem hn
  rw [← Node.ofDraft_label rules n]
  rcases toGraph_cases rules d with heq | ⟨c, hfound, heq⟩
  · rw [heq]
    exact label_mem_labels hmem
  · rw [heq]
    exact Cycle.label_mem_fold rules hfound hlinked.nodeIds_nodup hlinked.flowIds_nodup hmem

end

/-! ## Texts of a theme -/

namespace Theme

/-- All colours of the theme are legible. -/
structure IsLegible (theme : Theme) : Prop where
  lane : ∀ lane c, theme.laneColor? lane = some c → Legible c.fill.toList ∧ Legible c.stroke.toList
  loop : ∀ fill, theme.loopFill = some fill → Legible fill.toList

theorem isLegible_lanes : lanes.IsLegible where
  lane lane c h := by
    cases h
    cases lane <;> decide
  loop fill h := by
    cases h
    decide

section
variable {theme : Theme} {a : Attribute}

theorem legible_colorAttributes {fill stroke : String} (hfill : Legible fill.toList)
    (hstroke : Legible stroke.toList) (ha : a ∈ colorAttributes fill stroke) :
    Legible a.2.toList := by
  rcases List.mem_pair.1 ha with rfl | rfl
  · exact hfill
  · exact hstroke

theorem IsLegible.laneTexts (h : theme.IsLegible) {lane : Lane} (ha : a ∈ theme.laneTexts lane) :
    Legible a.2.toList := by
  unfold Theme.laneTexts at ha
  cases hcolor : theme.laneColor? lane with
  | none =>
    rw [hcolor] at ha
    cases ha
  | some c =>
    rw [hcolor] at ha
    exact legible_colorAttributes (h.lane lane c hcolor).1 (h.lane lane c hcolor).2 ha

theorem IsLegible.nodeTexts (h : theme.IsLegible) {lane : Option Lane} {n : Node}
    (ha : a ∈ theme.nodeTexts lane n) : Legible a.2.toList := by
  unfold Theme.nodeTexts at ha
  split at ha
  · rename_i fill _ hloop
    refine legible_colorAttributes (h.loop fill hloop) ?_ ha
    -- outside the lanes, the border has the colour of the inside
    cases hcolor : lane.bind theme.laneColor? with
    | none => exact h.loop fill hloop
    | some c =>
      obtain ⟨l, -, hlane⟩ := Option.bind_eq_some_iff.1 hcolor
      exact (h.lane l c hlane).2
  · cases ha

theorem IsLegible.planeTexts (h : theme.IsLegible) {banding : Banding} {g : Graph}
    (ha : a ∈ g.planeTexts theme banding) : Legible a.2.toList := by
  obtain ⟨n, -, ha⟩ := List.mem_flatMap.1 ha
  exact h.nodeTexts ha

theorem IsLegible.innerTexts (h : theme.IsLegible) {g : Graph} (ha : a ∈ g.innerTexts theme) :
    Legible a.2.toList := by
  induction g using Graph.levels_induction with
  | step g ih =>
    rw [innerTexts_eq] at ha
    obtain ⟨n, hn, ha⟩ := List.mem_flatMap.1 ha
    unfold Node.innerTexts at ha
    cases hinner : n.children with
    | none =>
      rw [hinner] at ha
      cases ha
    | some inner =>
      rw [hinner] at ha
      rcases List.mem_append.1 ha with ha | ha
      · exact h.planeTexts ha
      · exact ih n hn inner hinner ha

/-- **The texts of a document are legible** exactly if those of the graph are. -/
theorem IsLegible.texts (h : theme.IsLegible) (g : Graph) :
    (∀ a ∈ Document.texts theme {} g, Legible a.2.toList) ↔
      Legible g.name.toList ∧ ∀ a ∈ g.labels, Legible a.2.toList := by
  have hexporter : ∀ a ∈ [("exporter", ({} : Document.Meta).exporter),
      ("exporterVersion", ({} : Document.Meta).exporterVersion)], Legible a.2.toList := by decide
  have hlanes : ∀ a ∈ Lane.all.map fun lane => ("name", lane.displayName), Legible a.2.toList := by
    decide
  have hcolors : ∀ a ∈ Lane.all.flatMap theme.laneTexts, Legible a.2.toList := by
    intro a ha
    obtain ⟨lane, -, ha⟩ := List.mem_flatMap.1 ha
    exact h.laneTexts ha
  have hplane : ∀ a ∈ g.planeTexts theme .lanes, Legible a.2.toList := fun a => h.planeTexts
  have hinner : ∀ a ∈ g.innerTexts theme, Legible a.2.toList := fun a => h.innerTexts
  have hname : (∀ a ∈ [("name", g.name), ("name", g.name)], Legible a.2.toList) ↔
      Legible g.name.toList := by simp
  simp only [Document.texts, List.forall_mem_append, hname]
  tauto

end

end Theme

/-! ## Documents of drafts -/

theorem legible_loopLabels : ∀ s ∈ ({} : LoopLabels).texts, Legible s.toList := by decide

/-- **A document is legible exactly if what it says is.**  A text that is read and
    accepted is compiled, and the document is legible exactly if the name and all texts
    of the graph are.  So it is if all texts of the draft are legible, and it is not if
    the name or the label of a node is not. -/
theorem compile_legible {raw : String} {v : Json} {d : Draft} (hread : readCandidate {} raw = .ok v)
    (h : Draft.validate {} v = .ok d) :
    ∃ c : Compiled, compileText {} raw = .ok c ∧ c.draft = d ∧
      (Legible c.xml.toList ↔ Legible d.name.toList ∧ ∀ a ∈ c.graph.labels, Legible a.2.toList) ∧
      ((∀ s ∈ d.texts, Legible s.toList) → Legible c.xml.toList) ∧
      (Legible c.xml.toList → Legible d.name.toList ∧ ∀ n ∈ d.nodes, Legible n.label.toList) := by
  have hcoherent := Draft.coherent_of_validate h
  obtain ⟨xml, hxml, hiff⟩ := render_legible (eachLevel_linked_toGraph hcoherent {})
    ({} : Config).grid .lanes {}
  rw [Theme.isLegible_lanes.texts, name_toGraph] at hiff
  have hcompile : d.compile {} =
      .ok ⟨d, d.toGraph {}, (d.toGraph {}).layout ({} : Config).grid, xml⟩ := by
    unfold Draft.compile
    simp only [hxml]
  have hchecked : compileChecked {} v = d.compile {} := by
    unfold compileChecked
    rw [h]
  refine ⟨⟨d, d.toGraph {}, (d.toGraph {}).layout ({} : Config).grid, xml⟩, ?_, rfl, hiff,
    fun htexts => ?_, fun hlegible => ?_⟩
  · rw [compileText_eq, hread, compileRead, check_default]
    exact hchecked.trans hcompile
  · -- the converse fails: a fold drops the texts of flows within the cycle
    refine hiff.2 ⟨htexts _ List.mem_cons_self, fun a ha => ?_⟩
    rcases mem_texts_of_toGraph hcoherent ha with hs | hs
    · exact htexts _ hs
    · exact legible_loopLabels _ hs
  · obtain ⟨hname, hlabels⟩ := hiff.1 hlegible
    exact ⟨hname, fun n hn => hlabels _ (label_mem_toGraph hcoherent {} hn)⟩

/-! ## A control character -/

/-- A candidate with a control character in its name. -/
def controlled : Json :=
  .obj [("processName", .str "a\u0001b"),
    ("nodes", .arr [
      .obj [("id", .str "s"), ("type", .str "start"), ("label", .str "Begin")],
      .obj [("id", .str "t"), ("type", .str "task"), ("label", .str "Work")],
      .obj [("id", .str "e"), ("type", .str "end"), ("label", .str "End")]]),
    ("flows", .arr [
      .obj [("id", .str "f"), ("source", .str "s"), ("target", .str "t")],
      .obj [("id", .str "g"), ("source", .str "t"), ("target", .str "e")]])]

/-- The draft of `controlled`. -/
def controlledDraft : Draft where
  name := "a\u0001b"
  nodes := [⟨"s", .start, "Begin"⟩, ⟨"t", .task, "Work"⟩, ⟨"e", .finish, "End"⟩]
  flows := [⟨"f", "s", "t", none⟩, ⟨"g", "t", "e", none⟩]

theorem validate_controlled : Draft.validate {} controlled = .ok controlledDraft := by
  decide +kernel

/-- The control character is escaped in JSON, and reading takes the escape for it. -/
theorem readCandidate_compact_controlled :
    readCandidate {} controlled.compact = .ok controlled := by
  have htrim : Text.trim controlled.compactChars = controlled.compactChars := by decide +kernel
  have hunfence : Text.unfence controlled.compactChars = controlled.compactChars := by
    decide +kernel
  have hsize : ¬ ({} : Limits).maxResponseBytes < String.utf8Len controlled.compactChars := by
    decide +kernel
  have hempty : (String.ofList controlled.compactChars).isEmpty = false := by
    simp [controlled, Json.compactChars]
  have hread : Json.read (String.ofList controlled.compactChars) = .ok controlled :=
    Draft.read_compact_toJson controlledDraft
  simp only [readCandidate, Json.compact, Text.trimString, Text.unfenceString, String.toList_ofList,
    htrim, hunfence, String.utf8ByteSize_ofList, if_neg hsize, hempty, hread, Bool.false_eq_true,
    if_false]

/-- **A control character in a name gets into the document.** -/
theorem not_legible_controlled :
    readCandidate {} controlled.compact = .ok controlled ∧
      Draft.validate {} controlled = .ok controlledDraft ∧
      ∃ c : Compiled, compileText {} controlled.compact = .ok c ∧
        c.draft = controlledDraft ∧ ¬ Legible c.xml.toList := by
  obtain ⟨c, hcompile, hdraft, -, -, hlegible⟩ :=
    compile_legible readCandidate_compact_controlled validate_controlled
  refine ⟨readCandidate_compact_controlled, validate_controlled, c, hcompile, hdraft, fun h => ?_⟩
  exact absurd (hlegible h).1 (by decide)

end Swimlane
