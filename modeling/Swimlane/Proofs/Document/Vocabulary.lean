/-
  Swimlane — the names in documents.

  Documents are written with a fixed vocabulary; three names more are used in
  documents with colours.  All qualifiers of names are declared.

  * `Document.vocabulary theme`: the names in the documents with a theme.
  * `uses_drawnRoot`: no other names are used.
  * `render_readsAs`: so the text of a document can be read.
-/
import Swimlane.Proofs.Document.Rendering
import Swimlane.Proofs.Layout.Naming
import Swimlane.Proofs.Xml.Written

namespace Swimlane

open Swimlane.Graph (EachLevel Linked)
open Xml (Element Attribute Proper)

/-! ## Names -/

namespace Document

/-- The names in all documents. -/
def names : List String :=
  ["bpmn:definitions", "bpmn:collaboration", "bpmn:participant", "bpmn:process", "bpmn:laneSet",
   "bpmn:lane", "bpmn:flowNodeRef", "bpmn:startEvent", "bpmn:endEvent", "bpmn:exclusiveGateway",
   "bpmn:task", "bpmn:userTask", "bpmn:serviceTask", "bpmn:businessRuleTask", "bpmn:subProcess",
   "bpmn:incoming", "bpmn:outgoing", "bpmn:standardLoopCharacteristics", "bpmn:sequenceFlow",
   "bpmndi:BPMNDiagram", "bpmndi:BPMNPlane", "bpmndi:BPMNShape", "bpmndi:BPMNEdge", "dc:Bounds",
   "di:waypoint", "xmlns:bpmn", "xmlns:bpmndi", "xmlns:dc", "xmlns:di", "id", "targetNamespace",
   "exporter", "exporterVersion", "name", "processRef", "isExecutable", "sourceRef", "targetRef",
   "bpmnElement", "isHorizontal", "isExpanded", "x", "y", "width", "height"]

/-- The names in documents with colours only. -/
def colorNames : List String := ["xmlns:color", "color:background-color", "color:border-color"]

/-- The names in the documents with a theme. -/
def vocabulary (theme : Theme) : List String :=
  names ++ if theme.usesColor then colorNames else []

theorem isName_of_vocabulary {theme : Theme} :
    ∀ name ∈ vocabulary theme, Xml.isName name.toList = true := by
  have hall : ∀ name ∈ names ++ colorNames, Xml.isName name.toList = true := by decide +kernel
  intro name hname
  refine hall name ?_
  unfold vocabulary at hname
  split at hname <;> simp_all

/-- The names of the attributes of a root. -/
def rootNames (colored : Bool) : List String :=
  ["xmlns:bpmn", "xmlns:bpmndi", "xmlns:dc", "xmlns:di"] ++
    (if colored then ["xmlns:color"] else []) ++
    ["id", "targetNamespace", "exporter", "exporterVersion"]

theorem map_fst_rootAttributes (theme : Theme) (info : Meta) :
    (rootAttributes theme info).map Prod.fst = rootNames theme.usesColor := by
  unfold rootAttributes
  cases theme.usesColor <;> rfl

/-- **All qualifiers are declared.** -/
theorem declares_rootAttributes {theme : Theme} {info : Meta} : ∀ name ∈ vocabulary theme,
    Xml.declares ((rootAttributes theme info).map Prod.fst) name = true := by
  rw [map_fst_rootAttributes, vocabulary]
  cases theme.usesColor <;> decide +kernel

/-- Names of all documents are names of those with a theme. -/
theorem proper {theme : Theme} {tag : String} {ns : List String} (h : Proper names tag ns) :
    Proper (vocabulary theme) tag ns where
  tag_mem := List.mem_append_left _ h.tag_mem
  names_mem := fun name hname => List.mem_append_left _ (h.names_mem name hname)
  distinct := h.distinct

end Document

open Document (names vocabulary proper)

section
variable {theme : Theme}

/-! ## The process -/

theorem uses_collaboration (name : String) :
    (Document.collaboration name).Uses (vocabulary theme) := by
  have houter : Proper names "bpmn:collaboration" ["id"] := by simp [Xml.proper_iff, names]
  have hinner : Proper names "bpmn:participant" ["id", "name", "processRef"] := by
    simp [Xml.proper_iff, names]
  refine .block (proper houter) (List.forall_mem_singleton.2 ?_)
  exact .leaf (proper hinner)

/-- What holds of texts with the same tag. -/
theorem uses_texts {tag : String} (h : Proper names tag []) (texts : List String) :
    ∀ e ∈ texts.map (Element.text tag), e.Uses (vocabulary theme) := by
  intro e he
  obtain ⟨content, -, rfl⟩ := List.mem_map.1 he
  exact .text (proper h)

theorem uses_laneElement (b : LaneBand Float32) :
    (Document.laneElement b).Uses (vocabulary theme) := by
  have houter : Proper names "bpmn:lane" ["id", "name"] := by simp [Xml.proper_iff, names]
  have hinner : Proper names "bpmn:flowNodeRef" [] := by simp [Xml.proper_iff, names]
  exact .block (proper houter) (uses_texts hinner _)

theorem uses_process (name : String) (lanes : List (LaneBand Float32)) {elements : List Element}
    (h : ∀ e ∈ elements, e.Uses (vocabulary theme)) :
    (Document.process name lanes elements).Uses (vocabulary theme) := by
  have houter : Proper names "bpmn:process" ["id", "name", "isExecutable"] := by
    simp [Xml.proper_iff, names]
  have hlanes : Proper names "bpmn:laneSet" ["id"] := by simp [Xml.proper_iff, names]
  refine .block (proper houter) (List.forall_mem_cons.2 ⟨.block (proper hlanes) ?_, h⟩)
  intro e he
  obtain ⟨b, -, rfl⟩ := List.mem_map.1 he
  exact uses_laneElement b

theorem uses_drawnFlow {α : Type} [Inhabited α] (l : GraphLayout α) (f : Flow) :
    (l.drawnFlow f).Uses (vocabulary theme) := by
  have hplain : Proper names "bpmn:sequenceFlow" ["id", "sourceRef", "targetRef"] := by
    simp [Xml.proper_iff, names]
  have hnamed : Proper names "bpmn:sequenceFlow" ["id", "sourceRef", "targetRef", "name"] := by
    simp [Xml.proper_iff, names]
  refine .leaf ?_
  cases f.label with
  | none => exact proper hplain
  | some label => exact proper hnamed

/-- The element of a node whose tag is that of a kind. -/
theorem uses_element {α : Type} {p : Placement α} (kind : NodeKind) (hp : p.tag = kind.tag)
    (id label : String) (loops : Bool) (refs : List FlowRef) {contents : List Element}
    (h : ∀ e ∈ contents, e.Uses (vocabulary theme)) :
    (p.element id label loops refs contents).Uses (vocabulary theme) := by
  have htag : Proper names p.tag ["id", "name"] := by
    rw [hp]
    cases kind <;> simp [Xml.proper_iff, names, NodeKind.tag]
  have hincoming : Proper names "bpmn:incoming" [] := by simp [Xml.proper_iff, names]
  have houtgoing : Proper names "bpmn:outgoing" [] := by simp [Xml.proper_iff, names]
  have hloops : Proper names "bpmn:standardLoopCharacteristics" [] := by
    simp [Xml.proper_iff, names]
  refine .block (proper htag) fun e he => ?_
  simp only [List.mem_append, List.mem_map] at he
  rcases he with ((⟨r, -, rfl⟩ | ⟨r, -, rfl⟩) | he) | he
  · exact .text (proper hincoming)
  · exact .text (proper houtgoing)
  · cases loops with
    | false => cases he
    | true =>
      rw [List.mem_singleton.1 he]
      exact .leaf (proper hloops)
  · exact h e he

/-- **The elements of a graph** use the names of documents. -/
theorem uses_drawnElements {α : Type} [Scalar α] [Inhabited α] {grid : Grid α} {banding : Banding}
    {stem : String} {g : Graph} (hg : EachLevel Linked g) :
    ∀ e ∈ g.drawnElements (g.layoutWith grid banding stem), e.Uses (vocabulary theme) := by
  induction hg generalizing banding stem with
  | @intro g here inside ih =>
    rw [drawnElements_eq]
    intro e he
    rcases List.mem_append.1 he with he | he
    · obtain ⟨n, hn, rfl⟩ := List.mem_map.1 he
      refine uses_element n.kind (by rw [nodeAt_layoutWith here hn]; rfl) _ _ _ _ ?_
      unfold Node.drawnInside
      cases hinner : n.children with
      | none => exact fun e he => by cases he
      | some inner =>
        dsimp only
        rw [innerAt_layoutWith here hn hinner]
        exact ih n hn inner hinner
    · obtain ⟨f, -, rfl⟩ := List.mem_map.1 he
      exact uses_drawnFlow _ f

/-! ## The diagrams -/

theorem uses_box (b : Box Float32) : b.element.Uses (vocabulary theme) := by
  have hbounds : Proper names "dc:Bounds" ["x", "y", "width", "height"] := by
    simp [Xml.proper_iff, names]
  exact .leaf (proper hbounds)

/-- The attributes are the colours of a theme, if there are any. -/
def Colors (theme : Theme) (attributes : List Attribute) : Prop :=
  attributes = [] ∨ theme.usesColor = true ∧ ∃ fill stroke, attributes = colorAttributes fill stroke

/-- A shape with at most one attribute of its own, and colours. -/
theorem uses_shape {colors : List Attribute} (flags : List Attribute) (elementId : String)
    (b : Box Float32) (hflags : flags.map Prod.fst ∈ [[], ["isHorizontal"], ["isExpanded"]])
    (hcolors : Colors theme colors) :
    (shape elementId (flags ++ colors) b).Uses (vocabulary theme) := by
  have hplain : ∀ ns ∈ [[], ["isHorizontal"], ["isExpanded"]],
      Proper names "bpmndi:BPMNShape" (["id", "bpmnElement"] ++ ns) := by
    simp [Xml.proper_iff, names]
  have hcolored : ∀ ns ∈ [[], ["isHorizontal"], ["isExpanded"]],
      Proper (names ++ Document.colorNames) "bpmndi:BPMNShape" (["id", "bpmnElement"] ++ (ns ++
        ["color:background-color", "color:border-color"])) := by
    simp [Xml.proper_iff, names, Document.colorNames]
  refine .block ?_ (List.forall_mem_singleton.2 (uses_box b))
  rcases hcolors with rfl | ⟨huses, fill, stroke, rfl⟩
  · rw [List.append_nil, List.map_append]
    exact proper (hplain _ hflags)
  · rw [List.map_append, List.map_append, vocabulary, huses]
    exact hcolored _ hflags

theorem colors_laneColor (lane : Lane) : Colors theme
    (match theme.laneColor? lane with
      | some c => colorAttributes c.fill c.stroke
      | none => []) := by
  cases hc : theme.laneColor? lane with
  | none => exact Or.inl rfl
  | some c =>
    refine Or.inr ⟨?_, c.fill, c.stroke, rfl⟩
    obtain ⟨f, hf, -⟩ := Option.map_eq_some_iff.1 hc
    simp [Theme.usesColor, hf]

theorem colors_placement (p : Placement Float32) (loops : Bool) :
    Colors theme (p.colors theme loops) := by
  unfold Placement.colors
  split
  · rename_i fill hfill
    refine Or.inr ⟨?_, fill, _, rfl⟩
    simp [Theme.usesColor, hfill]
  · exact Or.inl rfl

theorem uses_edge (e : EdgeRoute Float32) : e.drawn.Uses (vocabulary theme) := by
  have hedge : Proper names "bpmndi:BPMNEdge" ["id", "bpmnElement"] := by
    simp [Xml.proper_iff, names]
  have hpoint : Proper names "di:waypoint" ["x", "y"] := by simp [Xml.proper_iff, names]
  refine .block (proper hedge) fun e he => ?_
  obtain ⟨p, -, rfl⟩ := List.mem_map.1 he
  exact .leaf (proper hpoint)

theorem uses_drawnPlane (l : GraphLayout Float32) (g : Graph) :
    ∀ e ∈ g.drawnPlane theme l, e.Uses (vocabulary theme) := by
  intro e he
  rcases List.mem_append.1 he with he | he
  · obtain ⟨n, -, rfl⟩ := List.mem_map.1 he
    refine uses_shape _ _ _ ?_ (colors_placement _ _)
    split <;> simp
  · obtain ⟨f, -, rfl⟩ := List.mem_map.1 he
    exact uses_edge _

theorem uses_diagram (suffix elementId : String) {contents : List Element}
    (h : ∀ e ∈ contents, e.Uses (vocabulary theme)) :
    (diagram suffix elementId contents).Uses (vocabulary theme) := by
  have hdiagram : Proper names "bpmndi:BPMNDiagram" ["id"] := by simp [Xml.proper_iff, names]
  have hplane : Proper names "bpmndi:BPMNPlane" ["id", "bpmnElement"] := by
    simp [Xml.proper_iff, names]
  exact .block (proper hdiagram) (List.forall_mem_singleton.2 (.block (proper hplane) h))

/-- **The diagrams of sub-processes** use the names of documents. -/
theorem uses_drawnDiagrams (l : GraphLayout Float32) (g : Graph) :
    ∀ e ∈ g.drawnDiagrams theme l, e.Uses (vocabulary theme) := by
  induction g using Graph.levels_induction generalizing l with
  | step g ih =>
    rw [drawnDiagrams_eq]
    intro e he
    obtain ⟨n, hn, he⟩ := List.mem_flatMap.1 he
    unfold Node.drawnDiagrams at he
    cases hinner : n.children with
    | none =>
      rw [hinner] at he
      cases he
    | some inner =>
      rw [hinner] at he
      rcases List.mem_cons.1 he with rfl | he
      · exact uses_diagram _ _ (uses_drawnPlane _ inner)
      · exact ih n hn inner hinner _ e he

/-! ## Documents -/

/-- **A document uses the names of documents.** -/
theorem uses_drawnRoot {g : Graph} (hg : EachLevel Linked g) (grid : Grid Float32)
    (theme : Theme) (info : Document.Meta) (pool : Box Float32) :
    (Document.drawnRoot theme info g (g.layout grid) pool).Uses (vocabulary theme) := by
  have hroot : Proper names "bpmn:definitions" ["id"] := by simp [Xml.proper_iff, names]
  have hnames : (Document.rootNames theme.usesColor).Nodup ∧
      ∀ name ∈ Document.rootNames theme.usesColor, name ∈ vocabulary theme := by
    unfold vocabulary Document.rootNames
    cases theme.usesColor <;> simp [names, Document.colorNames]
  refine .block ⟨(proper hroot).tag_mem, ?_, ?_⟩ ?_
  · rw [Document.map_fst_rootAttributes]
    exact hnames.2
  · rw [Document.map_fst_rootAttributes]
    exact hnames.1
  · intro e he
    rcases List.mem_append.1 he with he | he
    · simp only [List.mem_cons, List.not_mem_nil, or_false] at he
      rcases he with rfl | rfl | rfl
      · exact uses_collaboration g.name
      · exact uses_process g.name _ (uses_drawnElements hg)
      · refine uses_diagram _ _ (List.forall_mem_cons.2 ⟨?_, fun e he => ?_⟩)
        · exact uses_shape [horizontal] _ _ (by simp [horizontal]) (Or.inl rfl)
        · rcases List.mem_append.1 he with he | he
          · obtain ⟨b, -, rfl⟩ := List.mem_map.1 he
            exact uses_shape [horizontal] _ _ (by simp [horizontal])
              (colors_laneColor b.lane)
          · exact uses_drawnPlane _ g e he
    · exact uses_drawnDiagrams _ g e he

end

/-- **The document of a layout is read as the tree of its root.** -/
theorem render_readsAs {g : Graph} (hg : EachLevel Linked g) {grid : Grid Float32}
    {pool : Box Float32} (hpool : (g.layout grid).pool = some pool) (theme : Theme)
    (info : Document.Meta) : ∃ xml, Document.render theme info g (g.layout grid) = .ok xml ∧
      Xml.ReadsAs xml (Document.drawnRoot theme info g (g.layout grid) pool).tree := by
  have hdocument := Xml.isDocument_documentText (uses_drawnRoot hg grid theme info pool)
    Document.isName_of_vocabulary Document.declares_rootAttributes
  exact ⟨_, render_layout_eq hg hpool theme info, hdocument.readsAs⟩

end Swimlane
