/-
  Swimlane — the node that a flow end names.

  A flow names its ends by text, and so does a node itself.  Both texts become
  slugs, but a slug goes to the first node that asks for it; a later node with
  the same slug is renamed.

  * `NamesOnly v key i j text`: an end of the `i`-th flow is written like the
    `j`-th node and like no other.
  * `not_attached_to_named`: this does not attach the end to that node, since
    nodes written differently may have the same slug.
  * `attached_of_validate`: the end is attached to that node unless an earlier
    one has its slug, and to the earlier one in that case.
-/
import Swimlane.Proofs.Draft.WellFormed

namespace Swimlane.Draft

open Identifier (slug)

/-! ## Written names -/

/-- The text in a field of an item of a candidate, trimmed. -/
def writtenAt? (part : Part) (i : ℕ) (key : Key) (v : Json) : Option String :=
  match v.get? part.name with
  | some (.arr items) =>
    match items[i]?.bind fun item => item.get? key.name with
    | some (.str s) => some (Text.trimString s)
    | _ => none
  | _ => none

/-- The end of the `i`-th flow is written like the `j`-th node, and like no other
    node. -/
def NamesOnly (v : Json) (key : Key) (i j : ℕ) (text : String) : Prop :=
  writtenAt? .flows i key v = some text ∧ ∀ k, writtenAt? .nodes k .id v = some text ↔ k = j

/-- The end goes to the node `n` at place `j`, or to a node before it that has the
    slug of the text already. -/
structure AttachedTo (d : Draft) (j : ℕ) (n : Node) (text finish : String) : Prop where
  taken : ∀ k < j, ∀ m, d.nodes[k]? = some m → m.id = slug "" text → finish = m.id
  free : (∀ k < j, ∀ m, d.nodes[k]? = some m → m.id ≠ slug "" text) → finish = n.id

/-! ## Reading -/

section
variable {v : Json} {part : Part} {items : List Json} {i : ℕ} {key : Key} {item : Json}
  {place : Place} {s text : String}

/-- A text that is read is the written one. -/
theorem eq_of_writtenAt? (hitems : v.get? part.name = some (.arr items))
    (hitem : items[i]? = some item) (hread : requireText place (item.get? key.name) = .ok s)
    (hwritten : writtenAt? part i key v = some text) : s = text := by
  obtain ⟨t, ht, -, rfl⟩ := requireText_eq_ok.1 hread
  simpa [writtenAt?, hitems, hitem, ht, Text.trimString] using hwritten

end

section
variable {limits : Limits} {v : Json} {d : Draft} {i j : ℕ} {f : Flow} {n : Node} {text : String}

/-- What was read for a node: its identifier was assigned when those of the
    earlier nodes were in use. -/
theorem id_of_validate (h : validate limits v = .ok d) (hn : d.nodes[j]? = some n)
    (hwritten : writtenAt? .nodes j .id v = some text) :
    n.id = Identifier.assign "node" ((d.nodes.take j).map Node.id).reverse j text := by
  obtain ⟨-, name, rawNodes, -, -, hrawNodes, -, -, -, hnodes, -⟩ := validate_eq_ok.1 h
  obtain ⟨item, hitem, hread⟩ := getElem?_of_readItems hnodes hn
  obtain ⟨-, -, id, -, -, -, hid, -, hassign, -⟩ := readNode_eq_ok.1 hread
  obtain rfl := eq_of_writtenAt? hrawNodes hitem hid hwritten
  simpa using hassign

/-- No node of an accepted draft has an empty identifier. -/
theorem id_ne_empty_of_validate (h : validate limits v = .ok d) (hn : n ∈ d.nodes) : n.id ≠ "" := by
  obtain ⟨-, name, rawNodes, -, -, -, -, -, -, hnodes, -⟩ := validate_eq_ok.1 h
  obtain ⟨used, k, item, -, -, hread⟩ := exists_read_of_mem hnodes hn
  obtain ⟨-, -, id, -, -, -, -, -, hassign, -⟩ := readNode_eq_ok.1 hread
  rw [hassign]
  exact Identifier.assign_ne_empty (by decide) _ _ _

/-- What was read for the two ends of a flow. -/
theorem ends_of_validate (h : validate limits v = .ok d) (hf : d.flows[i]? = some f) :
    (writtenAt? .flows i .source v = some text →
      f.source = slug "" text ∧ f.source ∈ d.nodes.map Node.id) ∧
    (writtenAt? .flows i .target v = some text →
      f.target = slug "" text ∧ f.target ∈ d.nodes.map Node.id) := by
  obtain ⟨-, name, -, rawFlows, -, -, hrawFlows, -, -, -, hflows, -⟩ := validate_eq_ok.1 h
  obtain ⟨item, hitem, hread⟩ := getElem?_of_readItems hflows hf
  obtain ⟨-, -, hsource, htarget, -, -⟩ := readFlow_eq_ok.1 hread
  constructor
  · intro hwritten
    obtain ⟨s, hs, hslug, hmem⟩ := readEnd_eq_ok.1 hsource
    obtain rfl := eq_of_writtenAt? hrawFlows hitem hs hwritten
    exact ⟨hslug, hmem⟩
  · intro hwritten
    obtain ⟨s, hs, hslug, hmem⟩ := readEnd_eq_ok.1 htarget
    obtain rfl := eq_of_writtenAt? hrawFlows hitem hs hwritten
    exact ⟨hslug, hmem⟩

/-- **A slug goes to the first node that asks for it.** -/
theorem attachedTo_of_slug (h : validate limits v = .ok d) (hn : d.nodes[j]? = some n)
    (hwritten : writtenAt? .nodes j .id v = some text)
    (hmem : slug "" text ∈ d.nodes.map Node.id) : AttachedTo d j n text (slug "" text) where
  taken k _ m _ hm := hm.symm
  free hfree := by
    obtain ⟨m, hm, hmid⟩ := List.mem_map.1 hmem
    have hchars : Identifier.slugChars text.toList ≠ [] := by
      intro hnil
      refine id_ne_empty_of_validate h hm ?_
      rw [hmid, slug, if_pos (by simp [hnil])]
    have hunused : slug "" text ∉ ((d.nodes.take j).map Node.id).reverse := by
      intro hused
      obtain ⟨m, hm, hmid⟩ := List.mem_map.1 (List.mem_reverse.1 hused)
      obtain ⟨k, hk⟩ := List.mem_iff_getElem?.1 hm
      have hkj : k < j := by
        by_contra hle
        rw [List.getElem?_take_eq_none (Nat.le_of_not_lt hle)] at hk
        cases hk
      exact hfree k hkj m (by rwa [List.getElem?_take_of_lt hkj] at hk) hmid
    rw [id_of_validate h hn hwritten, Identifier.assign_of_notMem hchars hunused]

/-! ## Ends -/

/-- **A flow end that names a node** is attached to it, unless an earlier node has
    the slug of its text; then it is attached to that one. -/
theorem attached_of_validate (h : validate limits v = .ok d) (hf : d.flows[i]? = some f)
    (hn : d.nodes[j]? = some n) :
    (NamesOnly v .source i j text → AttachedTo d j n text f.source) ∧
      (NamesOnly v .target i j text → AttachedTo d j n text f.target) := by
  constructor
  · rintro ⟨hwritten, hnamed⟩
    obtain ⟨hslug, hmem⟩ := (ends_of_validate h hf).1 hwritten
    rw [hslug] at hmem ⊢
    exact attachedTo_of_slug h hn ((hnamed j).2 rfl) hmem
  · rintro ⟨hwritten, hnamed⟩
    obtain ⟨hslug, hmem⟩ := (ends_of_validate h hf).2 hwritten
    rw [hslug] at hmem ⊢
    exact attachedTo_of_slug h hn ((hnamed j).2 rfl) hmem

end

/-! ## A slug that is taken -/

/-- A candidate with two nodes, `A` and `a`, that have the same slug.  The second
    flow starts at `a`. -/
def shadowing : Json :=
  .obj [("processName", .str "Shadow"),
    ("nodes", .arr [
      .obj [("id", .str "A"), ("type", .str "start"), ("label", .str "Begin")],
      .obj [("id", .str "a"), ("type", .str "task"), ("label", .str "Work")],
      .obj [("id", .str "b"), ("type", .str "end"), ("label", .str "Done")]]),
    ("flows", .arr [
      .obj [("id", .str "f"), ("source", .str "A"), ("target", .str "b")],
      .obj [("id", .str "g"), ("source", .str "a"), ("target", .str "b")]])]

/-- The draft of `shadowing`. -/
def shadowed : Draft :=
  { name := "Shadow"
    nodes := [⟨"a", .start, "Begin"⟩, ⟨"a_1", .task, "Work"⟩, ⟨"b", .finish, "Done"⟩]
    flows := [⟨"f", "a", "b", none⟩, ⟨"g", "a", "b", none⟩] }

theorem validate_shadowing : validate {} shadowing = .ok shadowed := by decide +kernel

theorem namesOnly_shadowing : NamesOnly shadowing .source 1 1 "a" := by
  refine ⟨by decide +kernel, fun k => ?_⟩
  match k with
  | 0 => decide +kernel
  | 1 => decide +kernel
  | 2 => decide +kernel
  | k + 3 =>
    have hnone : writtenAt? .nodes (k + 3) .id shadowing = none := rfl
    simp [hnone]

/-- **A flow end is not always attached to the node that it names**: the node may
    have lost its slug to an earlier one. -/
theorem not_attached_to_named : ¬ ∀ limits v d, validate limits v = .ok d →
    ∀ (i j : ℕ) f n text, d.flows[i]? = some f → d.nodes[j]? = some n →
      (NamesOnly v .source i j text → f.source = n.id) ∧
        (NamesOnly v .target i j text → f.target = n.id) := by
  intro hall
  have hsource := (hall {} shadowing shadowed validate_shadowing 1 1 _ _ "a" rfl rfl).1
  exact absurd (hsource namesOnly_shadowing) (by decide)

theorem attached_of_shadowing : validate {} shadowing = .ok shadowed ∧
    NamesOnly shadowing .source 1 1 "a" ∧
    AttachedTo shadowed 1 ⟨"a_1", .task, "Work"⟩ "a" "a" :=
  ⟨validate_shadowing, namesOnly_shadowing,
    (attached_of_validate (i := 1) (f := ⟨"g", "a", "b", none⟩) validate_shadowing rfl rfl).1
      namesOnly_shadowing⟩

end Swimlane.Draft
