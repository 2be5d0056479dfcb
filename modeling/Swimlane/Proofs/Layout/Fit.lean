/-
  Swimlane — a layout fits a graph.

  A layout may come from anywhere.  It fits a graph if it holds what a document
  of the graph needs, and nothing that the graph does not have.

  * `Fits g l`: the layout fits the graph, on all levels.
  * `Tabular l`: the tables of sub-processes are tables, on all levels.
  * `Covers.fits`, `tabular_layoutWith`: the layout of a graph is tabular and
    fits it.
-/
import Mathlib.Data.List.Perm.Basic
import Mathlib.Data.String.Basic
import Swimlane.Proofs.Layout.Coverage

namespace Swimlane

/-! ## Tables -/

namespace Keyed

variable {β : Type} {key : String} {value : β} {table : List (String × β)}

/-- The keys of the table ascend. -/
def Ordered (table : List (String × β)) : Prop := (keys table).Pairwise (· < ·)

theorem ordered_nil : Ordered ([] : List (String × β)) := List.Pairwise.nil

theorem mem_keys_insert {other : String} (h : other ∈ keys (insert key value table)) :
    other = key ∨ other ∈ keys table := by
  obtain ⟨entry, hentry, rfl⟩ := List.mem_map.1 h
  rcases mem_insert hentry with rfl | hentry
  · exact Or.inl rfl
  · exact Or.inr (List.mem_map_of_mem hentry)

/-- Setting a key keeps the order. -/
theorem Ordered.insert (h : Ordered table) (key : String) (value : β) :
    Ordered (Keyed.insert key value table) := by
  induction table with
  | nil => exact List.pairwise_singleton _ _
  | cons entry rest ih =>
    obtain ⟨k, v⟩ := entry
    obtain ⟨hk, hrest⟩ := List.pairwise_cons.1 h
    rw [Keyed.insert]
    split
    · rename_i heq
      subst heq
      exact h
    · rename_i hne
      split
      · rename_i hlt
        refine List.pairwise_cons.2 ⟨fun other hother => ?_, h⟩
        rcases List.mem_cons.1 hother with rfl | hother
        · exact hlt
        · exact hlt.trans (hk other hother)
      · rename_i hlt
        refine List.pairwise_cons.2 ⟨fun other hother => ?_, ih hrest⟩
        rcases mem_keys_insert hother with rfl | hother
        · exact lt_of_le_of_ne (not_lt.1 hlt) hne
        · exact hk other hother

/-- In a table with ascending keys each entry is found under its key. -/
theorem Ordered.get?_eq_some (h : Ordered table) :
    get? key table = some value ↔ (key, value) ∈ table := by
  refine ⟨mem_of_get?, fun hmem => ?_⟩
  induction table with
  | nil => cases hmem
  | cons entry rest ih =>
    obtain ⟨k, v⟩ := entry
    obtain ⟨hk, hrest⟩ := List.pairwise_cons.1 h
    rw [get?]
    rcases List.mem_cons.1 hmem with heq | hmem
    · cases heq
      rw [if_pos rfl]
    · have hne : k ≠ key := (hk key (List.mem_map_of_mem hmem)).ne
      rw [if_neg hne, ih hrest hmem]

/-- Tables in the order of their keys are told apart by what is found in them. -/
theorem Ordered.ext {t t' : List (String × β)} (h : Ordered t) (h' : Ordered t')
    (hget : ∀ key, get? key t = get? key t') : t = t' := by
  have hnodup : ∀ {s : List (String × β)}, Ordered s → s.Nodup := by
    intro s hs
    exact List.Nodup.of_map Prod.fst (hs.imp fun hlt => hlt.ne)
  refine List.Perm.eq_of_pairwise ?_ (List.pairwise_map.1 h) (List.pairwise_map.1 h') ?_
  · intro a b _ _ hab hba
    exact absurd (hab.trans hba) (lt_irrefl _)
  · refine (List.perm_ext_iff_of_nodup (hnodup h) (hnodup h')).2 ?_
    rintro ⟨key, value⟩
    rw [← h.get?_eq_some, ← h'.get?_eq_some, hget]

end Keyed

/-- The sub-processes of the layout stand in the order of their keys, on all
    levels. -/
inductive GraphLayout.Tabular {α : Type} : GraphLayout α → Prop
  | intro {l : GraphLayout α} (here : Keyed.Ordered l.nested)
      (inside : ∀ e ∈ l.nested, e.2.Tabular) : l.Tabular

/-! ## Fitting -/

/-- The layout places exactly the nodes of the graph and routes exactly its
    flows, all of which join nodes of the graph and run through two points at
    least; it holds a layout for exactly the nodes with contents, and each of
    these layouts fits the contents. -/
inductive Fits {α : Type} : Graph → GraphLayout α → Prop
  | intro {g : Graph} {l : GraphLayout α}
      (placed : ∀ id, id ∈ Keyed.keys l.nodes ↔ id ∈ g.nodeIds)
      (routed : ∀ id, id ∈ l.edges.map EdgeRoute.flowId ↔ id ∈ g.flowIds)
      (ends : ∀ f ∈ g.flows, f.source ∈ g.nodeIds ∧ f.target ∈ g.nodeIds)
      (drawn : ∀ f ∈ g.flows, ∀ e, l.edge? f.id = some e → 2 ≤ e.points.length)
      (nested : ∀ id, id ∈ Keyed.keys l.nested ↔ ∃ n ∈ g.nodes, n.id = id ∧ n.children.isSome)
      (inside : ∀ n ∈ g.nodes, ∀ inner, n.children = some inner →
        ∀ k, l.nested? n.id = some k → Fits inner k) :
      Fits g l

section
variable {α : Type} {g : Graph} {l : GraphLayout α}

theorem edge?_isSome {id : String} : (l.edge? id).isSome ↔ id ∈ l.edges.map EdgeRoute.flowId := by
  simp [GraphLayout.edge?, List.find?_isSome]

namespace Fits

theorem node?_isSome (h : Fits g l) {id : String} (hid : id ∈ g.nodeIds) : (l.node? id).isSome := by
  obtain ⟨placed, -, -, -, -, -⟩ := h
  exact Keyed.get?_isSome_iff.2 ((placed id).2 hid)

theorem exists_edge? (h : Fits g l) {f : Flow} (hf : f ∈ g.flows) :
    ∃ e, l.edge? f.id = some e ∧ 2 ≤ e.points.length := by
  obtain ⟨-, routed, -, drawn, -, -⟩ := h
  obtain ⟨e, he⟩ := Option.isSome_iff_exists.1
    (edge?_isSome.2 ((routed f.id).2 (Graph.id_mem_flowIds hf)))
  exact ⟨e, he, drawn f hf e he⟩

theorem source_mem (h : Fits g l) {f : Flow} (hf : f ∈ g.flows) : f.source ∈ g.nodeIds := by
  obtain ⟨-, -, ends, -, -, -⟩ := h
  exact (ends f hf).1

theorem target_mem (h : Fits g l) {f : Flow} (hf : f ∈ g.flows) : f.target ∈ g.nodeIds := by
  obtain ⟨-, -, ends, -, -, -⟩ := h
  exact (ends f hf).2

theorem exists_nested? (h : Fits g l) {n : Node} (hn : n ∈ g.nodes) {inner : Graph}
    (hinner : n.children = some inner) : ∃ k, l.nested? n.id = some k ∧ Fits inner k := by
  obtain ⟨-, -, -, -, nested, inside⟩ := h
  obtain ⟨k, hk⟩ := Option.isSome_iff_exists.1
    (Keyed.get?_isSome_iff.2 ((nested n.id).2 ⟨n, hn, rfl, by rw [hinner]; rfl⟩))
  exact ⟨k, hk, inside n hn inner hinner k hk⟩

end Fits

end

/-! ## Layouts of graphs -/

open Swimlane.Graph (EachLevel Linked)

/-- A layout that covers a linked graph fits it. -/
theorem Covers.fits {α : Type} {g : Graph} {l : GraphLayout α} (hg : EachLevel Linked g)
    (h : Covers g l) : Fits g l := by
  induction hg generalizing l with
  | @intro g here inside ih =>
    obtain ⟨placed, routed, drawn, nested, listed, hinside⟩ := h
    refine .intro ?_ ?_ here.ends ?_ ?_ ?_
    · intro id
      rw [← Keyed.get?_isSome_iff]
      exact placed id
    · intro id
      rw [routed]
    · intro f hf e he
      exact drawn e (List.mem_of_find?_eq_some he)
    · intro id
      constructor
      · intro hid
        obtain ⟨e, he, rfl⟩ := List.mem_map.1 hid
        exact listed e he
      · rintro ⟨n, hn, rfl, hchildren⟩
        exact Keyed.get?_isSome_iff.1 (nested n hn hchildren)
    · intro n hn inner hinner k hk
      exact ih n hn inner hinner (hinside n hn inner hinner k (Keyed.mem_of_get? hk))

section
variable {α : Type} [Scalar α] {grid : Grid α}

theorem ordered_nestedLayouts {placed : List (String × Placement α)}
    {table : List (String × GraphLayout α)} (h : Keyed.Ordered table) (nodes : List Node) :
    Keyed.Ordered (nestedLayouts grid placed table nodes) := by
  induction nodes generalizing table with
  | nil => exact h
  | cons n rest ih =>
    rw [nestedLayouts_cons]
    refine ih ?_
    split
    · exact h.insert _ _
    · exact h

theorem ordered_placeFrom {banding : Banding} {stem : String} (g : Graph) (count index : ℕ)
    (ids : List String) :
    Keyed.Ordered (g.placeFrom grid banding stem count index ids) := by
  induction ids generalizing index with
  | nil => exact Keyed.ordered_nil
  | cons id ids ih =>
    rw [Graph.placeFrom]
    split
    · exact (ih _).insert _ _
    · exact ih _

/-- **The layout of a graph is tabular.** -/
theorem tabular_layoutWith (g : Graph) {banding : Banding} {stem : String} :
    (g.layoutWith grid banding stem).Tabular := by
  induction g using Graph.levels_induction generalizing banding stem with
  | step g ih =>
    rw [layoutWith_eq]
    refine .intro ?_ fun e he => ?_
    · rw [layoutAround_nested]
      exact ordered_nestedLayouts Keyed.ordered_nil _
    · rw [layoutAround_nested] at he
      rcases exists_of_mem_nestedLayouts he with he | ⟨n, hn, inner, p, hinner, -, rfl⟩
      · cases he
      · exact ih n hn inner hinner

end

end Swimlane
