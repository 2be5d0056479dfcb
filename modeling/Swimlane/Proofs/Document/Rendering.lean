/-
  Swimlane — which layouts can be drawn.

  * `checkStrays_eq_ok`: the layouts that hold nothing foreign.
  * `Graph.Draws g l`: all parts of a document succeed; `Draws.fits`,
    `Fits.draws`: they do exactly if the layout fits the graph.
  * `render_eq_ok_iff`: a document fails exactly if the layout has no pool or
    does not fit.
  * `exists_render_layout`: the layout of a linked graph can be drawn.
-/
import Swimlane.Proofs.Document.Drawing

namespace Swimlane

open Swimlane.Graph (EachLevel Linked node?_eq_some)
open Xml (Element)

/-! ## Strays -/

section
variable {α : Type} {g : Graph} {l : GraphLayout α}

theorem checkStrays_eq (g : Graph) (l : GraphLayout α) : g.checkStrays l =
    match g.strayNode? l.nodes with
    | some id => .error (.strayNode id)
    | none =>
      match g.strayFlow? l.edges with
      | some id => .error (.strayFlow id)
      | none => g.checkNested l.nested := by
  cases l
  unfold Graph.checkStrays
  rfl

theorem checkNested_eq_ok {entries : List (String × GraphLayout α)} :
    g.checkNested entries = .ok () ↔ ∀ e ∈ entries,
      ∃ inner, (g.node? e.1).bind Node.children = some inner ∧ inner.checkStrays e.2 = .ok () := by
  induction entries with
  | nil => simp [Graph.checkNested]
  | cons e rest ih =>
    obtain ⟨id, k⟩ := e
    rw [List.forall_mem_cons, ← ih, Graph.checkNested]
    cases hinner : (g.node? id).bind Node.children with
    | none => simp
    | some inner =>
      simp only [bind_eq_ok, Option.some.injEq, exists_eq_left']
      constructor
      · rintro ⟨⟨⟩, hcheck, hrest⟩
        exact ⟨hcheck, hrest⟩
      · rintro ⟨hcheck, hrest⟩
        exact ⟨(), hcheck, hrest⟩

/-- **What a layout may hold**: nodes, flows and sub-processes of the graph. -/
theorem checkStrays_eq_ok : g.checkStrays l = .ok () ↔
    (∀ id ∈ Keyed.keys l.nodes, id ∈ g.nodeIds) ∧
      (∀ id ∈ l.edges.map EdgeRoute.flowId, id ∈ g.flowIds) ∧
      ∀ e ∈ l.nested, ∃ inner, (g.node? e.1).bind Node.children = some inner ∧
        inner.checkStrays e.2 = .ok () := by
  have hnodes : g.strayNode? l.nodes = none ↔ ∀ id ∈ Keyed.keys l.nodes, id ∈ g.nodeIds := by
    simp [Graph.strayNode?]
  have hflows : g.strayFlow? l.edges = none ↔
      ∀ id ∈ l.edges.map EdgeRoute.flowId, id ∈ g.flowIds := by
    simp [Graph.strayFlow?]
  rw [← hnodes, ← hflows, ← checkNested_eq_ok, checkStrays_eq]
  cases g.strayNode? l.nodes with
  | some id => simp
  | none =>
    cases g.strayFlow? l.edges with
    | some id => simp
    | none => simp

end

/-! ## Parts that succeed -/

/-- Identifiers tell nodes apart. -/
def Graph.Distinct (g : Graph) : Prop := g.nodeIds.Nodup

/-- No part of a document fails. -/
structure Graph.Draws (theme : Theme) (g : Graph) (l : GraphLayout Float32) : Prop where
  strays : g.checkStrays l = .ok ()
  elements : ∃ es, g.elements l = .ok es
  plane : ∃ es, g.planeContents theme l = .ok es
  diagrams : ∃ es, g.innerDiagrams theme l = .ok es

section
variable {α : Type} {l : GraphLayout α} {id : String}

theorem requireNode_eq_ok {p : Placement α} : l.requireNode id = .ok p ↔ l.node? id = some p := by
  unfold GraphLayout.requireNode
  cases l.node? id <;> simp

theorem requireEdge_eq_ok {e : EdgeRoute α} : l.requireEdge id = .ok e ↔ l.edge? id = some e := by
  unfold GraphLayout.requireEdge
  cases l.edge? id <;> simp

theorem requireNested_eq_ok {k : GraphLayout α} :
    l.requireNested id = .ok k ↔ l.nested? id = some k := by
  unfold GraphLayout.requireNested
  cases l.nested? id <;> simp

theorem mem_keys_of_node? {p : Placement α} (h : l.node? id = some p) :
    id ∈ Keyed.keys l.nodes := by
  rw [← Keyed.get?_isSome_iff, ← GraphLayout.node?, h]
  rfl

theorem mem_keys_of_nested? {k : GraphLayout α} (h : l.nested? id = some k) :
    id ∈ Keyed.keys l.nested := by
  rw [← Keyed.get?_isSome_iff, ← GraphLayout.nested?, h]
  rfl

variable {g : Graph}

/-- The elements of a graph need its nodes, its flows with their ends, and its
    sub-processes. -/
theorem lookups_of_elements {es : List Element} (h : g.elements l = .ok es) :
    (∀ n ∈ g.nodes, n.id ∈ Keyed.keys l.nodes) ∧
      (∀ f ∈ g.flows, f.id ∈ l.edges.map EdgeRoute.flowId ∧
        f.source ∈ Keyed.keys l.nodes ∧ f.target ∈ Keyed.keys l.nodes) ∧
      ∀ n ∈ g.nodes, ∀ inner, n.children = some inner →
        ∃ k, l.nested? n.id = some k ∧ ∃ es, inner.elements k = .ok es := by
  rw [elements_eq] at h
  obtain ⟨refs, -, h⟩ := bind_eq_ok.1 h
  obtain ⟨nodes, hnodes, h⟩ := bind_eq_ok.1 h
  obtain ⟨flows, hflows, -⟩ := bind_eq_ok.1 h
  refine ⟨fun n hn => ?_, fun f hf => ?_, fun n hn inner hinner => ?_⟩
  · obtain ⟨e, he⟩ := exists_of_mapM_ok hnodes n hn
    obtain ⟨p, hp, -⟩ := bind_eq_ok.1 he
    exact mem_keys_of_node? (requireNode_eq_ok.1 hp)
  · obtain ⟨e, he⟩ := exists_of_mapM_ok hflows f hf
    obtain ⟨source, hsource, he⟩ := bind_eq_ok.1 he
    obtain ⟨target, htarget, he⟩ := bind_eq_ok.1 he
    obtain ⟨edge, hedge, -⟩ := bind_eq_ok.1 he
    refine ⟨edge?_isSome.1 ?_, mem_keys_of_node? (requireNode_eq_ok.1 hsource),
      mem_keys_of_node? (requireNode_eq_ok.1 htarget)⟩
    rw [requireEdge_eq_ok.1 hedge]
    rfl
  · obtain ⟨e, he⟩ := exists_of_mapM_ok hnodes n hn
    obtain ⟨p, -, he⟩ := bind_eq_ok.1 he
    obtain ⟨inside, hinside, -⟩ := bind_eq_ok.1 he
    rw [Node.inside, hinner] at hinside
    obtain ⟨k, hk, hinside⟩ := bind_eq_ok.1 hinside
    exact ⟨k, requireNested_eq_ok.1 hk, inside, hinside⟩

end

section
variable {theme : Theme} {g : Graph} {l : GraphLayout Float32}

/-- The edges of a graph need two points. -/
theorem length_points_of_planeContents {es : List Element}
    (h : g.planeContents theme l = .ok es) {f : Flow} (hf : f ∈ g.flows)
    {e : EdgeRoute Float32} (he : l.edge? f.id = some e) : 2 ≤ e.points.length := by
  obtain ⟨shapes, -, h⟩ := bind_eq_ok.1 h
  obtain ⟨edges, hedges, -⟩ := bind_eq_ok.1 h
  obtain ⟨element, helement⟩ := exists_of_mapM_ok hedges f hf
  obtain ⟨edge, hedge, helement⟩ := bind_eq_ok.1 helement
  obtain rfl := Option.some.inj (he.symm.trans (requireEdge_eq_ok.1 hedge))
  by_contra hfew
  rw [if_pos (by omega)] at helement
  cases helement

/-- The diagrams of a graph need the planes of its sub-processes. -/
theorem inner_of_innerDiagrams {es : List Element} (h : g.innerDiagrams theme l = .ok es)
    {n : Node} (hn : n ∈ g.nodes) {inner : Graph} (hinner : n.children = some inner)
    {k : GraphLayout Float32} (hk : l.nested? n.id = some k) :
    (∃ es, inner.planeContents theme k = .ok es) ∧
      ∃ es, inner.innerDiagrams theme k = .ok es := by
  rw [innerDiagrams_eq, map_eq_pure_bind] at h
  obtain ⟨nodes, hnodes, -⟩ := bind_eq_ok.1 h
  obtain ⟨ds, hds⟩ := exists_of_mapM_ok hnodes n hn
  rw [Node.diagrams, hinner] at hds
  obtain ⟨p, -, hds⟩ := bind_eq_ok.1 hds
  obtain ⟨k', hk', hds⟩ := bind_eq_ok.1 hds
  obtain rfl := Option.some.inj (hk.symm.trans (requireNested_eq_ok.1 hk'))
  obtain ⟨contents, hcontents, hds⟩ := bind_eq_ok.1 hds
  obtain ⟨deeper, hdeeper, -⟩ := bind_eq_ok.1 hds
  exact ⟨⟨contents, hcontents⟩, deeper, hdeeper⟩

/-- What is drawn with a layout, is drawn with it on all levels. -/
theorem Graph.Draws.inner (h : g.Draws theme l) (hg : g.Distinct) {n : Node} (hn : n ∈ g.nodes)
    {inner : Graph} (hinner : n.children = some inner) {k : GraphLayout Float32}
    (hk : l.nested? n.id = some k) : inner.Draws theme k := by
  obtain ⟨elements, helements⟩ := h.elements
  obtain ⟨diagrams, hdiagrams⟩ := h.diagrams
  obtain ⟨-, -, hnested⟩ := lookups_of_elements helements
  obtain ⟨hplane, hinnerDiagrams⟩ := inner_of_innerDiagrams hdiagrams hn hinner hk
  refine ⟨?_, ?_, hplane, hinnerDiagrams⟩
  · obtain ⟨inner', hinner', hstrays⟩ := (checkStrays_eq_ok.1 h.strays).2.2 _ (Keyed.mem_of_get? hk)
    rw [(node?_eq_some hg).2 ⟨hn, rfl⟩, Option.bind_some, hinner] at hinner'
    cases hinner'
    exact hstrays
  · obtain ⟨k', hk', hinnerElements⟩ := hnested n hn inner hinner
    obtain rfl := Option.some.inj (hk.symm.trans hk')
    exact hinnerElements

/-- **A layout with which the graph is drawn fits it.** -/
theorem Graph.Draws.fits (hg : EachLevel Graph.Distinct g) (h : g.Draws theme l) : Fits g l := by
  induction hg generalizing l with
  | @intro g here inside ih =>
    obtain ⟨elements, helements⟩ := h.elements
    obtain ⟨plane, hplane⟩ := h.plane
    obtain ⟨hplaced, hrouted, hnested⟩ := lookups_of_elements helements
    obtain ⟨hnodes, hflows, hinner⟩ := checkStrays_eq_ok.1 h.strays
    refine .intro ?_ ?_ ?_ ?_ ?_ ?_
    · intro id
      refine ⟨hnodes id, fun hid => ?_⟩
      obtain ⟨n, hn, rfl⟩ := Graph.mem_nodeIds.1 hid
      exact hplaced n hn
    · intro id
      refine ⟨hflows id, fun hid => ?_⟩
      obtain ⟨f, hf, rfl⟩ := List.mem_map.1 hid
      exact (hrouted f hf).1
    · intro f hf
      obtain ⟨-, hsource, htarget⟩ := hrouted f hf
      exact ⟨hnodes _ hsource, hnodes _ htarget⟩
    · intro f hf e he
      exact length_points_of_planeContents hplane hf he
    · intro id
      constructor
      · intro hid
        obtain ⟨e, he, rfl⟩ := List.mem_map.1 hid
        obtain ⟨inner, hchildren, -⟩ := hinner e he
        obtain ⟨n, hn, hchildren⟩ := Option.bind_eq_some_iff.1 hchildren
        obtain ⟨hmem, hid⟩ := (node?_eq_some here).1 hn
        exact ⟨n, hmem, hid, by rw [hchildren]; rfl⟩
      · rintro ⟨n, hn, rfl, hchildren⟩
        obtain ⟨inner, hinner⟩ := Option.isSome_iff_exists.1 hchildren
        obtain ⟨k, hk, -⟩ := hnested n hn inner hinner
        exact mem_keys_of_nested? hk
    · intro n hn inner hchildren k hk
      exact ih n hn inner hchildren (h.inner here hn hchildren hk)

/-- A layout that fits holds nothing else. -/
theorem Fits.checkStrays (hg : EachLevel Graph.Distinct g) (hl : l.Tabular) (h : Fits g l) :
    g.checkStrays l = .ok () := by
  induction hg generalizing l with
  | @intro g here inside ih =>
    obtain ⟨placed, routed, -, -, nested, hinside⟩ := h
    obtain ⟨hordered, htabular⟩ := hl
    refine checkStrays_eq_ok.2 ⟨fun id => (placed id).1, fun id => (routed id).1, ?_⟩
    rintro ⟨id, k⟩ hk
    obtain ⟨n, hn, rfl, hchildren⟩ := (nested id).1 (List.mem_map_of_mem hk)
    obtain ⟨inner, hinner⟩ := Option.isSome_iff_exists.1 hchildren
    refine ⟨inner, ?_, ?_⟩
    · rw [(node?_eq_some here).2 ⟨hn, rfl⟩, Option.bind_some, hinner]
    · exact ih n hn inner hinner (htabular _ hk)
        (hinside n hn inner hinner k (hordered.get?_eq_some.2 hk))

/-- **A graph is drawn with a layout that fits.** -/
theorem Fits.draws (hg : EachLevel Graph.Distinct g) (hl : l.Tabular) (h : Fits g l) :
    g.Draws theme l where
  strays := h.checkStrays hg hl
  elements := ⟨_, elements_eq_drawn h⟩
  plane := ⟨_, planeContents_eq_drawn h⟩
  diagrams := ⟨_, innerDiagrams_eq_drawn h⟩

/-! ## Documents -/

theorem exists_render {info : Document.Meta} :
    (∃ xml, Document.render theme info g l = .ok xml) ↔ l.pool.isSome ∧ g.Draws theme l := by
  have hroot : (∃ xml, Document.render theme info g l = .ok xml) ↔
      ∃ root, Document.root theme info g l = .ok root := by
    unfold Document.render
    cases Document.root theme info g l <;> simp [Except.map]
  rw [hroot, Document.root]
  cases l.pool with
  | none => simp
  | some pool =>
    constructor
    · rintro ⟨root, h⟩
      obtain ⟨⟨⟩, hstrays, h⟩ := bind_eq_ok.1 h
      obtain ⟨elements, helements, h⟩ := bind_eq_ok.1 h
      obtain ⟨plane, hplane, h⟩ := bind_eq_ok.1 h
      obtain ⟨diagrams, hdiagrams, -⟩ := bind_eq_ok.1 h
      exact ⟨rfl, hstrays, ⟨elements, helements⟩, ⟨plane, hplane⟩, diagrams, hdiagrams⟩
    · rintro ⟨-, hstrays, ⟨elements, helements⟩, ⟨plane, hplane⟩, diagrams, hdiagrams⟩
      simp only [hstrays, helements, hplane, hdiagrams, bind, Except.bind]
      exact ⟨_, rfl⟩

/-- The layout of a linked graph fits it. -/
theorem fits_layoutWith {α : Type} [Scalar α] {grid : Grid α} {banding : Banding} {stem : String}
    {g : Graph} (hg : EachLevel Linked g) : Fits g (g.layoutWith grid banding stem) :=
  (covers_layoutWith hg).fits hg

theorem Graph.pool_layout {α : Type} [Scalar α] (grid : Grid α) (g : Graph) :
    ∃ pool, (g.layout grid).pool = some pool := by
  rw [layout, layoutWith_eq]
  exact ⟨_, rfl⟩

theorem distinct_of_linked (hg : EachLevel Linked g) : EachLevel Graph.Distinct g := by
  induction hg with
  | intro here inside ih => exact .intro here.nodeIds_nodup ih

/-- The document of a linked graph and its layout. -/
theorem render_layout_eq (hg : EachLevel Linked g) {grid : Grid Float32} {pool : Box Float32}
    (hpool : (g.layout grid).pool = some pool) (theme : Theme) (info : Document.Meta) :
    Document.render theme info g (g.layout grid) =
      .ok (Xml.documentText (Document.drawnRoot theme info g (g.layout grid) pool)) := by
  have hfits : Fits g (g.layout grid) := fits_layoutWith hg
  have hstrays := hfits.checkStrays (distinct_of_linked hg) (tabular_layoutWith g)
  rw [Document.render, root_eq_drawn hfits hstrays hpool]
  rfl

/-- **The layout of a linked graph can be drawn.** -/
theorem exists_render_layout (hg : EachLevel Linked g) (grid : Grid Float32) (theme : Theme)
    (info : Document.Meta) : ∃ xml, Document.render theme info g (g.layout grid) = .ok xml := by
  obtain ⟨pool, hpool⟩ := g.pool_layout grid
  exact ⟨_, render_layout_eq hg hpool theme info⟩

/-- **A document fails exactly if the layout does not fit.**  Whatever the layout,
    a document is written if the layout has a pool and fits the graph, and a
    defect is reported in all other cases. -/
theorem render_eq_ok_iff (info : Document.Meta) (hg : EachLevel Graph.Distinct g)
    (hl : l.Tabular) :
    ((∃ xml, Document.render theme info g l = .ok xml) ↔ l.pool.isSome ∧ Fits g l) ∧
      ((∃ defect, Document.render theme info g l = .error defect) ↔
        ¬ (l.pool.isSome ∧ Fits g l)) := by
  have hok : (∃ xml, Document.render theme info g l = .ok xml) ↔ l.pool.isSome ∧ Fits g l := by
    rw [exists_render]
    exact and_congr_right fun _ => ⟨Graph.Draws.fits hg, Fits.draws hg hl⟩
  refine ⟨hok, ?_⟩
  rw [← hok]
  cases Document.render theme info g l <;> simp

end

/-- A document of `enclosing` is written with its own layout, and not with one
    that lacks the sub-process. -/
theorem render_enclosing :
    (∃ xml, Document.render .lanes {} Graph.enclosing (Graph.enclosing.layout .standard) =
      .ok xml) ∧
    ∃ defect, Document.render .lanes {} Graph.enclosing
      { Graph.enclosing.layout .standard with nested := [] } = .error defect := by
  have hlevels := distinct_of_linked Graph.linked_enclosing
  obtain ⟨pool, hpool⟩ := Graph.enclosing.pool_layout (.standard : Grid Float32)
  have htabular : (Graph.enclosing.layout (.standard : Grid Float32)).Tabular := tabular_layoutWith _
  have hempty : { Graph.enclosing.layout (.standard : Grid Float32) with nested := [] }.Tabular := by
    refine .intro ?_ fun e he => by cases he
    exact List.Pairwise.nil
  constructor
  · refine (render_eq_ok_iff {} hlevels htabular).1.2 ⟨by rw [hpool]; rfl, ?_⟩
    exact fits_layoutWith Graph.linked_enclosing
  · refine (render_eq_ok_iff {} hlevels hempty).2.2 ?_
    rintro ⟨-, -, -, -, -, nested, -⟩
    cases (nested "w").2 ⟨_, List.mem_cons_of_mem _ List.mem_cons_self, rfl, rfl⟩

end Swimlane
