/-
  Swimlane — the order of the nodes.

  The traversal of a graph lists its nodes in another order.  What the start does
  not reach is sorted by identifiers, so its order does not depend on how the nodes
  are listed.

  * `pairwise_mergeSort_textLe`: what is sorted by a text ascends.
    `mergeSort_eq_of_perm`: by a text that tells the items apart it is sorted in one
    way.  `find?_eq_of_perm`: what only one item satisfies is found in
    any order; `node?_of_perm`: so are the nodes of a graph.
  * `nodup_traversal`, `traversal_perm`: the traversal goes through every node,
    once.
  * `walk_congr`: a walk depends on which nodes are unvisited only.
-/
import Mathlib.Data.List.Perm.Basic
import Mathlib.Data.String.Basic
import Swimlane.Proofs.Layout.Coverage

namespace Swimlane

/-! ## Sorting and finding -/

theorem textLe_iff {a b : String} : textLe a b = true ↔ a ≤ b := by
  unfold textLe
  rw [Bool.not_eq_true', decide_eq_false_iff_not, not_lt]

theorem textLe_trans {a b c : String} (hab : textLe a b = true) (hbc : textLe b c = true) :
    textLe a c = true :=
  textLe_iff.2 ((textLe_iff.1 hab).trans (textLe_iff.1 hbc))

theorem textLe_total (a b : String) : (textLe a b || textLe b a) = true := by
  rw [Bool.or_eq_true, textLe_iff, textLe_iff]
  exact le_total _ _

/-- What is sorted by a text ascends. -/
theorem pairwise_mergeSort_textLe {α : Type} (key : α → String) (xs : List α) :
    (xs.mergeSort fun a b => textLe (key a) (key b)).Pairwise fun a b => key a ≤ key b := by
  have hsorted : (xs.mergeSort fun a b => textLe (key a) (key b)).Pairwise
      fun a b => textLe (key a) (key b) = true := by
    refine List.pairwise_mergeSort ?_ ?_ xs
    · exact fun _ _ _ => textLe_trans
    · exact fun a b => textLe_total (key a) (key b)
  exact hsorted.imp textLe_iff.1

/-- Induction over a list whose repetitions are dropped: after the first item it goes on
    without the repetitions of this item. -/
theorem eraseDups_induction {P : List String → Prop} (nil : P [])
    (cons : ∀ x xs, P (xs.filter fun y => !y == x) → P (x :: xs)) (xs : List String) : P xs := by
  -- what is left of the tail is shorter than the list, but no tail of it
  induction hlength : xs.length using Nat.strongRecOn generalizing xs with
  | ind n ih =>
    cases xs with
    | nil => exact nil
    | cons x xs =>
      have hshorter : (xs.filter fun y => !y == x).length < n := by
        rw [← hlength]
        exact Nat.lt_succ_of_le (List.length_filter_le ..)
      exact cons x xs (ih _ hshorter _ rfl)

/-- No text is listed twice after its repetitions are dropped. -/
theorem nodup_eraseDups (xs : List String) : xs.eraseDups.Nodup := by
  induction xs using eraseDups_induction with
  | nil => exact List.nodup_nil
  | cons x xs ih =>
    rw [List.eraseDups_cons, List.nodup_cons]
    exact ⟨by simp, ih⟩

/-- Dropping repetitions keeps the order. -/
theorem eraseDups_sublist (xs : List String) : xs.eraseDups.Sublist xs := by
  induction xs using eraseDups_induction with
  | nil => exact List.nil_sublist _
  | cons x xs ih =>
    rw [List.eraseDups_cons]
    exact (ih.trans List.filter_sublist).cons_cons x

/-- What is sorted by a text that tells its items apart, is sorted in one way. -/
theorem mergeSort_eq_of_perm {α : Type} {key : α → String} {xs ys : List α} (h : xs.Perm ys)
    (hkey : ∀ x ∈ xs, ∀ y ∈ xs, key x = key y → x = y) :
    (xs.mergeSort fun a b => textLe (key a) (key b)) =
      ys.mergeSort fun a b => textLe (key a) (key b) := by
  refine List.Perm.eq_of_pairwise (fun a b ha hb hab hba => ?_) (pairwise_mergeSort_textLe key xs)
    (pairwise_mergeSort_textLe key ys)
    ((List.mergeSort_perm xs _).trans (h.trans (List.mergeSort_perm ys _).symm))
  have ha' : a ∈ xs := List.mem_mergeSort.1 ha
  have hb' : b ∈ xs := h.mem_iff.2 (List.mem_mergeSort.1 hb)
  exact hkey a ha' b hb' (le_antisymm hab hba)

/-- What at most one item of a list satisfies is found wherever it stands. -/
theorem find?_eq_of_perm {α : Type} {p : α → Bool} {xs ys : List α} (h : xs.Perm ys)
    (hp : ∀ x ∈ xs, ∀ y ∈ xs, p x = true → p y = true → x = y) : xs.find? p = ys.find? p := by
  cases hxs : xs.find? p with
  | none =>
    refine (List.find?_eq_none.2 fun y hy => ?_).symm
    exact List.find?_eq_none.1 hxs y (h.mem_iff.2 hy)
  | some x =>
    have hx := List.mem_of_find?_eq_some hxs
    have hsome : (ys.find? p).isSome := List.find?_isSome.2 ⟨x, h.mem_iff.1 hx, List.find?_some hxs⟩
    obtain ⟨y, hys⟩ := Option.isSome_iff_exists.1 hsome
    have hy := h.mem_iff.2 (List.mem_of_find?_eq_some hys)
    rw [hys, hp x hx y hy (List.find?_some hxs) (List.find?_some hys)]

/-- Nodes are found by their identifiers, however they are listed. -/
theorem Graph.node?_of_perm {g : Graph} {nodes : List Node} (hperm : nodes.Perm g.nodes)
    (hids : g.nodeIds.Nodup) (id : String) : Graph.node? { g with nodes } id = g.node? id := by
  refine find?_eq_of_perm hperm fun n hn m hm hnid hmid => ?_
  rw [decide_eq_true_eq] at hnid hmid
  exact eq_of_id_eq hids (hperm.mem_iff.1 hn) (hperm.mem_iff.1 hm) (hnid.trans hmid.symm)

/-! ## The traversal -/

namespace Graph

variable {g : Graph}

theorem nodup_reached (g : Graph) : g.reached.Nodup := by
  unfold reached
  split
  · exact walk_nodup _ _ _
  · exact List.nodup_nil

/-- **The traversal goes through no node twice.** -/
theorem nodup_traversal (g : Graph) : g.traversal.Nodup := by
  refine List.nodup_append'.2 ⟨g.nodup_reached, nodup_eraseDups _, fun id hreached hunreached => ?_⟩
  rw [unreached, List.mem_eraseDups, List.mem_mergeSort, List.mem_filter] at hunreached
  simp [hreached] at hunreached

/-- The traversal goes through the nodes in another order. -/
theorem traversal_perm (h : g.nodeIds.Nodup) : g.traversal.Perm g.nodeIds :=
  (List.perm_ext_iff_of_nodup g.nodup_traversal h).2 fun _ => mem_traversal

end Graph

/-- The walk depends on which nodes are unvisited, not on their order. -/
theorem walk_congr (next : String → List String) {unvisited unvisited' : List String}
    (h : ∀ id, id ∈ unvisited ↔ id ∈ unvisited') (stack : List String) :
    walk next unvisited stack = walk next unvisited' stack := by
  induction unvisited, stack using walk.induct next generalizing unvisited' with
  | case1 unvisited => rw [walk, walk]
  | case2 unvisited id stack hid ih =>
    have hwithout : ∀ other, other ∈ without id unvisited ↔ other ∈ without id unvisited' := by
      intro other
      rw [mem_without, mem_without, h]
    have hcontains : ∀ other, (without id unvisited).contains other =
        (without id unvisited').contains other := by
      intro other
      rw [Bool.eq_iff_iff, List.contains_iff_mem, List.contains_iff_mem, hwithout]
    rw [walk, walk, if_pos hid, if_pos ((h id).1 hid), ih hwithout]
    simp only [hcontains]
  | case3 unvisited id stack hid ih =>
    rw [walk, walk, if_neg hid, if_neg fun hid' => hid ((h id).2 hid'), ih h]

end Swimlane
