/-
  Swimlane — the identifiers of a list.

  The nodes and the flows of a candidate are named one after the other: a written
  name becomes a slug, with a fallback that tells its place, and is then made to
  differ from the earlier identifiers.  A later name may ask for what an earlier
  one has been given; it is the later one that yields.

  * `Identifier.assignAll stem texts`: the identifiers of a list of written names.
    `ids_of_validate`: those of an accepted draft are assigned like that.
  * `nodup_assignFrom`, `take_assignFrom`: they differ, and those at the front do
    not depend on the later names.
  * `isIdentifier_of_mem_assignFrom`, `assignFrom_of_isIdentifier`: they have the
    shape of identifiers, and names that have it and differ stay as they are.
  * `identifiers_stable`: hence naming a list again changes nothing.
-/
import Swimlane.Proofs.Draft.Demands
import Swimlane.Proofs.Draft.WellFormed

namespace Swimlane

namespace Identifier

/-! ## Lists of identifiers -/

/-- The identifiers of written names from the `i`-th on, when `used` are those of
    the earlier ones. -/
def assignFrom (stem : String) (used : List String) (i : ℕ) : List String → List String
  | [] => []
  | text :: texts =>
    let id := assign stem used i text
    id :: assignFrom stem (id :: used) (i + 1) texts

/-- The identifiers of a list of written names. -/
def assignAll (stem : String) (texts : List String) : List String := assignFrom stem [] 0 texts

section
variable {stem : String} {used : List String} {i : ℕ} {texts ids : List String} {id : String}

/-- **The identifiers at the front** depend on the names at the front only. -/
theorem take_assignFrom (stem : String) (used : List String) (i : ℕ) (texts : List String) (k : ℕ) :
    (assignFrom stem used i texts).take k = assignFrom stem used i (texts.take k) := by
  induction texts generalizing used i k with
  | nil => rw [List.take_nil, assignFrom, List.take_nil]
  | cons text texts ih =>
    cases k with
    | zero => rfl
    | succ k => rw [assignFrom, List.take_succ_cons, ih, List.take_succ_cons, assignFrom]

theorem notMem_of_mem_assignFrom (h : id ∈ assignFrom stem used i texts) : id ∉ used := by
  induction texts generalizing used i with
  | nil => cases h
  | cons text texts ih =>
    rw [assignFrom] at h
    rcases List.mem_cons.1 h with rfl | h
    · exact assign_notMem _ _ _ _
    · exact fun hmem => ih h (List.mem_cons_of_mem _ hmem)

/-- **The identifiers differ.** -/
theorem nodup_assignFrom (stem : String) (used : List String) (i : ℕ) (texts : List String) :
    (assignFrom stem used i texts).Nodup := by
  induction texts generalizing used i with
  | nil => exact List.nodup_nil
  | cons text texts ih =>
    rw [assignFrom, List.nodup_cons]
    exact ⟨fun h => notMem_of_mem_assignFrom h List.mem_cons_self, ih _ _⟩

/-- **The identifiers have their shape**, as long as there are not too many of them
    for numerals to fit. -/
theorem isIdentifier_of_mem_assignFrom (hstem : Stem stem.toList) (hlen : stem.toList.length ≤ 4)
    (hused : used.length + texts.length ≤ maxNumeral) (hi : i + texts.length ≤ maxNumeral)
    (h : id ∈ assignFrom stem used i texts) : IsIdentifier id := by
  induction texts generalizing used i with
  | nil => cases h
  | cons text texts ih =>
    rw [List.length_cons] at hused hi
    rw [assignFrom] at h
    rcases List.mem_cons.1 h with rfl | h
    · exact isIdentifier_assign hstem hlen (by omega) (by omega) text
    · refine ih ?_ ?_ h
      · rw [List.length_cons]
        omega
      · omega

/-- **Identifiers that differ** are assigned to themselves. -/
theorem assignFrom_of_isIdentifier (hids : ∀ id ∈ ids, IsIdentifier id) (hnodup : ids.Nodup)
    (hfree : ∀ id ∈ ids, id ∉ used) : assignFrom stem used i ids = ids := by
  induction ids generalizing used i with
  | nil => rfl
  | cons id ids ih =>
    obtain ⟨hid, hids⟩ := List.forall_mem_cons.1 hids
    obtain ⟨hnotMem, hnodup⟩ := List.nodup_cons.1 hnodup
    obtain ⟨hidFree, hfree⟩ := List.forall_mem_cons.1 hfree
    rw [assignFrom, assign_of_isIdentifier hid hidFree, ih hids hnodup fun other hother => ?_]
    rw [List.mem_cons, not_or]
    exact ⟨fun heq => hnotMem (heq ▸ hother), hfree other hother⟩

end

end Identifier

namespace Draft

open Identifier (assignFrom assignAll)

/-! ## The identifiers of a draft -/

/-- The stem of the fallbacks in a list. -/
def Part.stem : Part → String
  | .nodes => "node"
  | .flows => "flow"

/-- The identifiers that are written in a list of a candidate, trimmed. -/
def writtenIds (part : Part) (v : Json) : List String :=
  (itemsOf (v.get? part.name)).map (fieldText .id)

theorem identifiersFrom_eq (stem : String) (used : List String) (i : ℕ) (items : List Json) :
    identifiersFrom stem used i items = assignFrom stem used i (items.map (fieldText .id)) := by
  induction items generalizing used i with
  | nil => rfl
  | cons item items ih => rw [identifiersFrom, List.map_cons, assignFrom, ih]

/-- The identifiers of an accepted draft. -/
theorem ids_of_validate {limits : Limits} {v : Json} {d : Draft} (h : validate limits v = .ok d) :
    d.nodes.map Node.id = assignAll Part.nodes.stem (writtenIds .nodes v) ∧
      d.flows.map Flow.id = assignAll Part.flows.stem (writtenIds .flows v) := by
  obtain ⟨-, name, rawNodes, rawFlows, -, hrawNodes, hrawFlows, -, -, hnodes, hflows, -⟩ :=
    validate_eq_ok.1 h
  constructor
  · rw [ids_of_readItems (fun _ _ _ _ hread => (key_of_readNode hread).1) hnodes,
      identifiersFrom_eq, writtenIds, Part.name, hrawNodes]
    rfl
  · rw [ids_of_readItems (fun _ _ _ _ hread => (keys_of_readFlow hread).1) hflows,
      identifiersFrom_eq, writtenIds, Part.name, hrawFlows]
    rfl

/-! ## Stability -/

theorem isIdentifier_of_mem_assignAll {part : Part} {texts : List String}
    (hlen : texts.length < UInt64.size) {id : String} (h : id ∈ assignAll part.stem texts) :
    Identifier.IsIdentifier id := by
  have hwords : UInt64.size ≤ Identifier.maxNumeral := by decide
  refine Identifier.isIdentifier_of_mem_assignFrom ?_ ?_ ?_ (by omega) h
  · cases part <;> decide
  · cases part <;> decide
  · rw [List.length_nil]
    omega

/-- **Identifiers are stable.**  Those of an accepted draft are assigned from the
    written ones, and for the list of nodes and the list of flows alike: assigned
    identifiers differ, each depends on the names up to its place only, and
    naming them again, be it as nodes or as flows, gives them back.  The names
    are in a memory of 64-bit addresses. -/
theorem identifiers_stable :
    (∀ limits v d, validate limits v = .ok d →
      d.nodes.map Node.id = assignAll Part.nodes.stem (writtenIds .nodes v) ∧
        d.flows.map Flow.id = assignAll Part.flows.stem (writtenIds .flows v)) ∧
    ∀ (part : Part) (texts : List String),
      (assignAll part.stem texts).Nodup ∧
      (∀ k, (assignAll part.stem texts).take k = assignAll part.stem (texts.take k)) ∧
      (texts.length < UInt64.size → ∀ other : Part,
        assignAll other.stem (assignAll part.stem texts) = assignAll part.stem texts) := by
  refine ⟨fun limits v d => ids_of_validate, fun part texts => ⟨?_, ?_, fun hlen other => ?_⟩⟩
  · exact Identifier.nodup_assignFrom _ _ _ _
  · exact Identifier.take_assignFrom _ _ _ _
  · refine Identifier.assignFrom_of_isIdentifier (fun id hid => ?_) ?_ fun _ _ => List.not_mem_nil
    · exact isIdentifier_of_mem_assignAll hlen hid
    · exact Identifier.nodup_assignFrom _ _ _ _

/-- Written names that ask for a fallback and for numbered names. -/
def rivals : List String := ["node_2", "?", "A!", "a", "A 1", "node_2_1"]

/-- Their identifiers. -/
def reconciled : List String := ["node_2", "node_2_1", "a", "a_1", "a_1_1", "node_2_1_1"]

theorem stable_rivals :
    collided.nodes.map Node.id = assignAll "node" ["a", "A!", "_"] ∧
    rivals.length < UInt64.size ∧ assignAll "node" rivals = reconciled ∧
    assignAll "node" (rivals.take 4) = reconciled.take 4 ∧
    assignAll "flow" reconciled = reconciled := by
  obtain ⟨hdraft, hlists⟩ := identifiers_stable
  obtain ⟨-, hfront, hagain⟩ := hlists .nodes rivals
  have hassigned : assignAll "node" rivals = reconciled := by decide +kernel
  have hsize : rivals.length < UInt64.size := by decide
  refine ⟨(hdraft _ _ _ validate_colliding).1, hsize, hassigned, ?_, ?_⟩
  · rw [← hassigned]
    exact (hfront 4).symm
  · rw [← hassigned]
    exact hagain hsize .flows

end Draft

end Swimlane
