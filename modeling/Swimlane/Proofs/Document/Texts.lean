/-
  Swimlane — texts in documents.

  The texts of a process, a theme and an exporter stand in attributes of the
  document.  They can be read back, and nothing else depends on them.

  * `Document.textNames`: the attributes with texts.
  * `Document.texts`: the texts, in the order in which a document has them.
  * `marked_drawnRoot`: those attributes of a document hold these texts.
  * `blank_drawnRoot`: apart from them, a document is that of empty texts.
  * `render_readable`: a document is read as a tree, with both properties.
-/
import Swimlane.Proofs.Document.Vocabulary
import Swimlane.Proofs.Layout.Blank
import Swimlane.Proofs.Xml.View

namespace Swimlane

open Swimlane.Graph (EachLevel Linked)
open Xml (Element Attribute Tree named blankAttribute tree_block)

/-! ## Texts of a process -/

/-- The text of a flow, if it has one. -/
def Flow.labels (f : Flow) : List Attribute := f.label.toList.map fun label => ("name", label)

mutual

/-- The texts of a graph: each node with what is inside it, then the flows. -/
def Graph.labels : Graph → List Attribute
  | ⟨_, nodes, flows⟩ => nodeLabels nodes ++ flows.flatMap Flow.labels

/-- The texts of nodes. -/
def nodeLabels : List Node → List Attribute
  | [] => []
  | ⟨_, _, label, _, some children, _⟩ :: rest =>
    ("name", label) :: (children.labels ++ nodeLabels rest)
  | ⟨_, _, label, _, none, _⟩ :: rest => ("name", label) :: nodeLabels rest

end

/-- The texts inside a node. -/
def Node.innerLabels (n : Node) : List Attribute :=
  match n.children with
  | some inner => inner.labels
  | none => []

theorem labels_eq (g : Graph) : g.labels =
    (g.nodes.flatMap fun n => ("name", n.label) :: n.innerLabels) ++ g.flows.flatMap Flow.labels := by
  obtain ⟨name, nodes, flows⟩ := g
  rw [Graph.labels]
  congr 1
  induction nodes with
  | nil => rfl
  | cons n rest ih =>
    obtain ⟨id, kind, label, lane, children, loops⟩ := n
    cases children <;> simp [nodeLabels, Node.innerLabels, ih]

/-! ## Texts of a theme -/

/-- The colours of a lane. -/
def Theme.laneTexts (theme : Theme) (lane : Lane) : List Attribute :=
  match theme.laneColor? lane with
  | some c => colorAttributes c.fill c.stroke
  | none => []

/-- The colours of a node that is drawn in a lane. -/
def Theme.nodeTexts (theme : Theme) (lane : Option Lane) (n : Node) : List Attribute :=
  match n.loops, theme.loopFill with
  | true, some fill =>
    colorAttributes fill (((lane.bind theme.laneColor?).map LaneColor.stroke).getD fill)
  | _, _ => []

/-- The colours of the nodes of a graph. -/
def Graph.planeTexts (theme : Theme) (banding : Banding) (g : Graph) : List Attribute :=
  g.nodes.flatMap fun n => theme.nodeTexts (g.drawnLane? banding n.id) n

mutual

/-- The colours of the nodes inside nodes. -/
def Graph.innerTexts (theme : Theme) : Graph → List Attribute
  | ⟨_, nodes, _⟩ => nodeInnerTexts theme nodes

/-- The colours of what is inside nodes. -/
def nodeInnerTexts (theme : Theme) : List Node → List Attribute
  | [] => []
  | ⟨_, _, _, _, some children, _⟩ :: rest =>
    children.planeTexts theme .single ++ (children.innerTexts theme ++ nodeInnerTexts theme rest)
  | ⟨_, _, _, _, none, _⟩ :: rest => nodeInnerTexts theme rest

end

/-- The colours of what is inside a node. -/
def Node.innerTexts (theme : Theme) (n : Node) : List Attribute :=
  match n.children with
  | some inner => inner.planeTexts theme .single ++ inner.innerTexts theme
  | none => []

theorem innerTexts_eq (theme : Theme) (g : Graph) :
    g.innerTexts theme = g.nodes.flatMap (Node.innerTexts theme) := by
  obtain ⟨name, nodes, flows⟩ := g
  rw [Graph.innerTexts]
  induction nodes with
  | nil => rfl
  | cons n rest ih =>
    obtain ⟨id, kind, label, lane, children, loops⟩ := n
    cases children <;> simp [nodeInnerTexts, Node.innerTexts, ih]

/-! ## Texts of a document -/

namespace Document

/-- The attributes that hold texts of the process, the theme or the exporter. -/
def textNames : List String :=
  ["name", "exporter", "exporterVersion", "color:background-color", "color:border-color"]

/-- The texts of a document: those of the exporter, the name of the process for
    the pool and for the process, the names of the lanes and of the nodes and
    flows, and the colours. -/
def texts (theme : Theme) (info : Meta) (g : Graph) : List Attribute :=
  [("exporter", info.exporter), ("exporterVersion", info.exporterVersion)] ++
    [("name", g.name), ("name", g.name)] ++
    (Lane.all.map fun lane => ("name", lane.displayName)) ++ g.labels ++
    Lane.all.flatMap theme.laneTexts ++ g.planeTexts theme .lanes ++ g.innerTexts theme

end Document

open Document (textNames)

/-! ## Texts are in the document -/

section
variable {theme : Theme}

theorem marked_collaboration (name : String) :
    (Document.collaboration name).marked textNames = [("name", name)] := by
  simp [Document.collaboration, named, textNames]

theorem marked_laneElement (b : LaneBand Float32) :
    (Document.laneElement b).marked textNames = [("name", b.lane.displayName)] := by
  simp [Document.laneElement, named, textNames]

theorem marked_process (name : String) (lanes : List (LaneBand Float32)) (elements : List Element) :
    (Document.process name lanes elements).marked textNames = ("name", name) ::
      ((lanes.map fun b => ("name", b.lane.displayName)) ++
        elements.flatMap (Element.marked textNames)) := by
  rw [Document.process, Element.marked_block, List.flatMap_cons, Element.marked_block,
    List.flatMap_map]
  simp only [marked_laneElement, ← List.map_eq_flatMap]
  simp [named, textNames]

section
variable {α : Type}

theorem marked_element (p : Placement α) (id label : String) (loops : Bool) (refs : List FlowRef)
    (contents : List Element) : (p.element id label loops refs contents).marked textNames =
      ("name", label) :: contents.flatMap (Element.marked textNames) := by
  have hnamed : named textNames [("id", p.renderedId), ("name", label)] = [("name", label)] := by
    simp [named, textNames]
  cases loops <;> simp [Placement.element, hnamed]

variable [Inhabited α]

theorem marked_drawnFlow (l : GraphLayout α) (f : Flow) :
    (l.drawnFlow f).marked textNames = f.labels := by
  cases hlabel : f.label <;>
    simp [GraphLayout.drawnFlow, Flow.labels, hlabel, named, textNames]

/-- **The elements of a graph hold its texts**, whatever the layout. -/
theorem marked_drawnElements (l : GraphLayout α) (g : Graph) :
    (g.drawnElements l).flatMap (Element.marked textNames) = g.labels := by
  induction g using Graph.levels_induction generalizing l with
  | step g ih =>
    have hnode : ∀ n ∈ g.nodes, (n.drawnElement l (l.drawnRefs g.flows)).marked textNames =
        ("name", n.label) :: n.innerLabels := by
      intro n hn
      rw [Node.drawnElement, marked_element]
      unfold Node.drawnInside Node.innerLabels
      cases hinner : n.children with
      | none => rfl
      | some inner => rw [ih n hn inner hinner]
    rw [drawnElements_eq, labels_eq, List.flatMap_append, List.flatMap_map, List.flatMap_map]
    congr 1
    · exact List.flatMap_congr hnode
    · simp only [marked_drawnFlow]

end

/-- A shape holds the texts of its own attributes. -/
theorem marked_shape (elementId : String) (attributes : List Attribute) (b : Box Float32) :
    (shape elementId attributes b).marked textNames = named textNames attributes := by
  simp [shape, Box.element, named, textNames]

theorem named_colorAttributes (fill stroke : String) :
    named textNames (colorAttributes fill stroke) = colorAttributes fill stroke := by
  simp [colorAttributes, named, textNames]

theorem marked_laneShape (b : LaneBand Float32) :
    (b.shape theme).marked textNames = theme.laneTexts b.lane := by
  rw [LaneBand.shape, marked_shape, Theme.laneTexts]
  cases theme.laneColor? b.lane <;> simp [named, textNames, horizontal, colorAttributes]

theorem marked_nodeShape (p : Placement Float32) (n : Node) :
    (p.shape theme n).marked textNames = theme.nodeTexts p.lane n := by
  have hcolors : named textNames (p.colors theme n.loops) = theme.nodeTexts p.lane n := by
    unfold Placement.colors Theme.nodeTexts
    cases n.loops with
    | false => rfl
    | true =>
      cases theme.loopFill with
      | none => rfl
      | some fill =>
        dsimp only
        rw [named_colorAttributes]
        cases p.lane.bind theme.laneColor? <;> rfl
  rw [Placement.shape, marked_shape, ← hcolors]
  split <;> simp [named, textNames]

theorem marked_edge (e : EdgeRoute Float32) : e.drawn.marked textNames = [] := by
  simp [EdgeRoute.drawn, Point.element, named, textNames, List.flatMap_map]

theorem marked_diagram (suffix elementId : String) (contents : List Element) :
    (diagram suffix elementId contents).marked textNames =
      contents.flatMap (Element.marked textNames) := by
  simp [diagram, named, textNames]

variable {grid : Grid Float32} {banding : Banding} {stem : String}

theorem marked_drawnPlane {g : Graph} (hg : Linked g) :
    (g.drawnPlane theme (g.layoutWith grid banding stem)).flatMap (Element.marked textNames) =
      g.planeTexts theme banding := by
  have hnode : ∀ n ∈ g.nodes, (((g.layoutWith grid banding stem).nodeAt n.id).shape theme n).marked
      textNames = theme.nodeTexts (g.drawnLane? banding n.id) n := by
    intro n hn
    rw [marked_nodeShape, nodeAt_layoutWith hg hn]
    rfl
  rw [Graph.drawnPlane, List.flatMap_append, List.flatMap_map, List.flatMap_map, Graph.planeTexts,
    List.flatMap_congr hnode]
  simp [marked_edge]

/-- **The diagrams of sub-processes hold their colours.** -/
theorem marked_drawnDiagrams {g : Graph} (hg : EachLevel Linked g) :
    (g.drawnDiagrams theme (g.layoutWith grid banding stem)).flatMap (Element.marked textNames) =
      g.innerTexts theme := by
  induction hg generalizing banding stem with
  | @intro g here inside ih =>
    rw [drawnDiagrams_eq, innerTexts_eq, List.flatMap_assoc]
    refine List.flatMap_congr fun n hn => ?_
    unfold Node.drawnDiagrams Node.innerTexts
    cases hinner : n.children with
    | none => rfl
    | some inner =>
      dsimp only
      rw [List.flatMap_cons, marked_diagram, innerAt_layoutWith here hn hinner,
        marked_drawnPlane (inside n hn inner hinner).here, ih n hn inner hinner]

/-- **A document holds its texts**, in order. -/
theorem marked_drawnRoot {g : Graph} (hg : EachLevel Linked g) (info : Document.Meta)
    (pool : Box Float32) :
    (Document.drawnRoot theme info g (g.layout grid) pool).marked textNames =
      Document.texts theme info g := by
  have hroot : named textNames (Document.rootAttributes theme info) =
      [("exporter", info.exporter), ("exporterVersion", info.exporterVersion)] := by
    unfold Document.rootAttributes Document.namespaces Document.colorNamespace
    cases theme.usesColor <;> simp [named, textNames]
  have hlanes : ((g.layout grid).lanes.map fun b => ("name", b.lane.displayName)) =
      Lane.all.map fun lane => ("name", lane.displayName) := by
    rw [← map_lane_layout grid g, List.map_map]
    rfl
  have hcolors : (g.layout grid).lanes.flatMap (fun b => (b.shape theme).marked textNames) =
      Lane.all.flatMap theme.laneTexts := by
    simp only [marked_laneShape]
    rw [← map_lane_layout grid g, List.flatMap_map]
  have hpool : (shape Document.participantId [horizontal] pool).marked textNames = [] := by
    rw [marked_shape]
    simp [named, textNames, horizontal]
  have hlabels := marked_drawnElements (g.layout grid) g
  have hplane : (g.drawnPlane theme (g.layout grid)).flatMap (Element.marked textNames) =
    g.planeTexts theme .lanes := marked_drawnPlane hg.here
  have hinner : (g.drawnDiagrams theme (g.layout grid)).flatMap (Element.marked textNames) =
    g.innerTexts theme := marked_drawnDiagrams hg
  simp only [Document.drawnRoot, Document.mainDiagram, Document.texts, Element.marked_block, hroot,
    List.cons_append, List.nil_append, List.append_assoc, List.flatMap_cons, List.flatMap_append,
    List.flatMap_map, marked_collaboration, marked_process, marked_diagram, hlanes, hlabels, hpool,
    hcolors, hplane, hinner]

end

/-! ## Nothing else depends on texts -/

/-- The theme with empty texts for its colours. -/
def Theme.blank (theme : Theme) : Theme where
  laneColors := theme.laneColors.map fun _ _ => ⟨"", ""⟩
  loopFill := theme.loopFill.map fun _ => ""

/-- The exporter with empty texts. -/
def Document.Meta.blank (_ : Document.Meta) : Document.Meta := ⟨"", ""⟩

theorem blankAttribute_name (value : String) :
    blankAttribute textNames ("name", value) = ("name", "") := by
  simp [blankAttribute, textNames]

theorem blank_collaboration (name : String) :
    (Document.collaboration name).blank textNames = (Document.collaboration "").blank textNames := by
  simp only [Document.collaboration, Element.blank_block, Element.blank_leaf, List.map_cons,
    blankAttribute_name]

theorem blank_process (name : String) (lanes : List (LaneBand Float32)) {es es' : List Element}
    (h : es.map (Element.blank textNames) = es'.map (Element.blank textNames)) :
    (Document.process name lanes es).blank textNames =
      (Document.process "" lanes es').blank textNames := by
  simp only [Document.process, Element.blank_block, List.map_cons, blankAttribute_name, h]

section
variable {α : Type}

/-- The element of a node depends on the ends and identifiers of flows only. -/
theorem blank_element (p : Placement α) (id label : String) (loops : Bool) (refs : List FlowRef)
    {es es' : List Element} (h : es.map (Element.blank textNames) = es'.map (Element.blank textNames)) :
    (p.element id label loops refs es).blank textNames =
      (p.element id "" loops (refs.map fun r => (r.1.blank, r.2)) es').blank textNames := by
  simp only [Placement.element, Element.blank_block, List.map_cons, blankAttribute_name,
    List.map_append, h, List.filter_map, List.map_map]
  rfl

theorem drawnRefs_blank (l : GraphLayout α) (flows : List Flow) :
    l.drawnRefs (flows.map Flow.blank) = (l.drawnRefs flows).map fun r => (r.1.blank, r.2) := by
  simp only [GraphLayout.drawnRefs, List.map_map]
  rfl

variable [Inhabited α]

theorem blank_drawnFlow (l : GraphLayout α) (f : Flow) :
    (l.drawnFlow f).blank textNames = (l.drawnFlow f.blank).blank textNames := by
  cases hlabel : f.label <;>
    simp [GraphLayout.drawnFlow, Flow.blank, hlabel, blankAttribute_name]

/-- **The elements of a graph** depend on its texts in attributes with texts only. -/
theorem blank_drawnElements (l : GraphLayout α) (g : Graph) :
    (g.drawnElements l).map (Element.blank textNames) =
      (g.blank.drawnElements l).map (Element.blank textNames) := by
  induction g using Graph.levels_induction generalizing l with
  | step g ih =>
    rw [drawnElements_eq, drawnElements_eq, Graph.blank_nodes, Graph.blank_flows, drawnRefs_blank,
      List.map_append, List.map_append, List.map_map, List.map_map, List.map_map, List.map_map,
      List.map_map, List.map_map]
    congr 1
    · refine List.map_congr_left fun n hn => blank_element _ _ _ _ _ ?_
      unfold Node.drawnInside Node.blank
      cases hinner : n.children with
      | none => rfl
      | some inner => exact ih n hn inner hinner _
    · exact List.map_congr_left fun f _ => blank_drawnFlow l f

end

section
variable {theme : Theme}

theorem blank_shape (elementId : String) (b : Box Float32) {as as' : List Attribute}
    (h : as.map (blankAttribute textNames) = as'.map (blankAttribute textNames)) :
    (shape elementId as b).blank textNames = (shape elementId as' b).blank textNames := by
  simp only [shape, Element.blank_block, List.map_append, h]

theorem blank_colorAttributes (fill stroke : String) :
    (colorAttributes fill stroke).map (blankAttribute textNames) =
      [("color:background-color", ""), ("color:border-color", "")] := by
  simp [colorAttributes, blankAttribute, textNames]

theorem blank_laneShape (b : LaneBand Float32) :
    (b.shape theme).blank textNames = (b.shape theme.blank).blank textNames := by
  refine blank_shape _ _ ?_
  obtain ⟨colors, fill⟩ := theme
  cases colors with
  | none => rfl
  | some f =>
    simp only [Theme.laneColor?, Theme.blank, Option.map_some, List.map_cons, blank_colorAttributes]

theorem blank_nodeShape (p : Placement Float32) (n : Node) :
    (p.shape theme n).blank textNames = (p.shape theme.blank n.blank).blank textNames := by
  have hcolors : (p.colors theme n.loops).map (blankAttribute textNames) =
      (p.colors theme.blank n.loops).map (blankAttribute textNames) := by
    unfold Placement.colors
    cases n.loops with
    | false => rfl
    | true =>
      cases hfill : theme.loopFill with
      | none => simp only [Theme.blank, hfill, Option.map_none]
      | some fill => simp only [Theme.blank, hfill, Option.map_some, blank_colorAttributes]
  refine blank_shape _ _ ?_
  rw [List.map_append, List.map_append, hcolors]
  rfl

theorem blank_drawnPlane (l : GraphLayout Float32) (g : Graph) :
    (g.drawnPlane theme l).map (Element.blank textNames) =
      (g.blank.drawnPlane theme.blank l).map (Element.blank textNames) := by
  simp only [Graph.drawnPlane, Graph.blank_nodes, Graph.blank_flows, List.map_append, List.map_map]
  congr 1
  exact List.map_congr_left fun n _ => blank_nodeShape _ n

theorem blank_diagram (suffix elementId : String) {es es' : List Element}
    (h : es.map (Element.blank textNames) = es'.map (Element.blank textNames)) :
    (diagram suffix elementId es).blank textNames =
      (diagram suffix elementId es').blank textNames := by
  simp only [diagram, Element.blank_block, List.map_cons, h]

/-- **The diagrams of sub-processes** depend on texts in attributes with texts
    only. -/
theorem blank_drawnDiagrams (l : GraphLayout Float32) (g : Graph) :
    (g.drawnDiagrams theme l).map (Element.blank textNames) =
      (g.blank.drawnDiagrams theme.blank l).map (Element.blank textNames) := by
  induction g using Graph.levels_induction generalizing l with
  | step g ih =>
    rw [drawnDiagrams_eq, drawnDiagrams_eq, Graph.blank_nodes, List.flatMap_map, List.map_flatMap,
      List.map_flatMap]
    refine List.flatMap_congr fun n hn => ?_
    unfold Node.drawnDiagrams Node.blank
    cases hinner : n.children with
    | none => rfl
    | some inner =>
      dsimp only [Option.map_some]
      rw [List.map_cons, List.map_cons, ih n hn inner hinner,
        blank_diagram _ _ (blank_drawnPlane _ inner)]

/-- **A document depends on texts in attributes with texts only.** -/
theorem blank_drawnRoot (info : Document.Meta) (g : Graph) (l : GraphLayout Float32)
    (pool : Box Float32) : (Document.drawnRoot theme info g l pool).blank textNames =
      (Document.drawnRoot theme.blank info.blank g.blank l pool).blank textNames := by
  have hcolors : theme.blank.usesColor = theme.usesColor := by
    simp [Theme.usesColor, Theme.blank]
  have hattributes : (Document.rootAttributes theme info).map (blankAttribute textNames) =
      (Document.rootAttributes theme.blank info.blank).map (blankAttribute textNames) := by
    simp only [Document.rootAttributes, hcolors, List.map_append]
    simp [blankAttribute, textNames]
  have hmain : (Document.mainDiagram theme pool l.lanes (g.drawnPlane theme l)).blank textNames =
      (Document.mainDiagram theme.blank pool l.lanes (g.blank.drawnPlane theme.blank l)).blank
        textNames := by
    refine blank_diagram _ _ ?_
    rw [List.map_cons, List.map_append, List.map_map, List.map_cons, List.map_append, List.map_map,
      blank_drawnPlane]
    congr 2
    exact List.map_congr_left fun b _ => blank_laneShape b
  rw [Document.drawnRoot, Document.drawnRoot, Element.blank_block, Element.blank_block, hattributes,
    List.map_append, List.map_append, blank_drawnDiagrams, Graph.blank_name]
  simp only [List.map_cons, List.map_nil]
  rw [blank_collaboration, blank_process _ _ (blank_drawnElements l g), hmain]

end

/-! ## Documents -/

/-- **Texts can be read back and change nothing else.**  The document of a linked
    graph is read as one tree, a definitions element.  The attributes with texts
    hold the texts of the process, the theme and the exporter, in order; and
    documents that differ in texts only have trees that differ in these attributes
    only. -/
theorem render_readable {g : Graph} (hg : EachLevel Linked g) (grid : Grid Float32) (theme : Theme)
    (info : Document.Meta) :
    ∃ xml t, Document.render theme info g (g.layout grid) = .ok xml ∧ Xml.ReadsAs xml t ∧
      t.tag = "bpmn:definitions" ∧ t.marked textNames = Document.texts theme info g ∧
      ∀ (theme' : Theme) (info' : Document.Meta) (g' : Graph), theme'.blank = theme.blank →
        g'.blank = g.blank → ∀ xml' t', Document.render theme' info' g' (g'.layout grid) = .ok xml' →
          Xml.ReadsAs xml' t' → t'.blank textNames = t.blank textNames := by
  obtain ⟨pool, hpool⟩ := g.pool_layout grid
  obtain ⟨xml, hxml, hreads⟩ := render_readsAs hg hpool theme info
  refine ⟨xml, _, hxml, hreads, ?_, marked_drawnRoot hg info pool, ?_⟩
  · rw [Document.drawnRoot, tree_block]
    rfl
  · intro theme' info' g' htheme hblank xml' t' hxml' hreads'
    have hlayout : g'.layout grid = g.layout grid := by
      rw [← layout_blank, hblank, layout_blank]
    have hg' : EachLevel Linked g' := by
      rwa [← eachLevel_linked_blank_iff, hblank, eachLevel_linked_blank_iff]
    obtain ⟨xml'', hxml'', hreads''⟩ := render_readsAs hg' (hlayout ▸ hpool) theme' info'
    cases hxml'.symm.trans hxml''
    have htrees : (Document.drawnRoot theme' info' g' (g'.layout grid) pool).blank textNames =
        (Document.drawnRoot theme info g (g.layout grid) pool).blank textNames := by
      rw [blank_drawnRoot, blank_drawnRoot info, hlayout, htheme, hblank]
      rfl
    rw [hreads'.unique hreads'']
    exact htrees

/-- The texts of `enclosing`, with all characters that have a meaning of their
    own, are read back; a name that looks like a tag changes nothing else. -/
theorem readable_enclosing :
    ∃ xml t, Document.render .lanes {} Graph.enclosing (Graph.enclosing.layout .standard) = .ok xml ∧
      Xml.ReadsAs xml t ∧
      t.marked textNames =
        [("exporter", "bpmn-drafter"), ("exporterVersion", "0.1.0"), ("name", "Buy & <sell>"),
         ("name", "Buy & <sell>"), ("name", "Operacional"), ("name", "Automação"),
         ("name", "Gestão"), ("name", "Executivo"), ("name", "Begin"), ("name", "Work \"hard\""),
         ("name", "Begin"), ("name", "It's done"), ("name", "<go>"), ("name", "End"),
         ("name", "a > b"), ("color:background-color", "#F4F8FF"),
         ("color:border-color", "#7A8AA6"), ("color:background-color", "#F1FBF4"),
         ("color:border-color", "#5E9C72"), ("color:background-color", "#FFF9EC"),
         ("color:border-color", "#B8913A"), ("color:background-color", "#FDF1F1"),
         ("color:border-color", "#B55D5D"), ("color:background-color", "#EEF2F8"),
         ("color:border-color", "#B8913A")] ∧
      ∀ xml' t', Document.render .lanes {} { Graph.enclosing with name := "</bpmn:process>" }
          (Graph.layout .standard { Graph.enclosing with name := "</bpmn:process>" }) = .ok xml' →
        Xml.ReadsAs xml' t' → t'.blank textNames = t.blank textNames := by
  obtain ⟨xml, t, hxml, hreads, -, htexts, hblank⟩ :=
    render_readable Graph.linked_enclosing .standard .lanes {}
  refine ⟨xml, t, hxml, hreads, htexts.trans ?_, hblank .lanes {} _ rfl rfl⟩
  decide +kernel

end Swimlane
