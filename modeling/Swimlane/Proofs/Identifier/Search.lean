/-
  Swimlane — the search for a free name.

  A free name is searched for by proposals: the cut name, then its numbered forms
  one after the other, until one is not in use.  The search itself has no bound;
  that it ends is due to the names in use being finitely many.

  * `Search`: the search from a proposal on.  `Search.unique`: it has at most one
    outcome.
  * `search_of_taken`: it passes over the numbered forms that are in use.
  * `FirstFree used name id`: the cut name, or its first numbered form that is
    free.
  * `search_ends`: the search rejects at most one proposal more than there are
    names in use, and finds the first free name.
-/
import Swimlane.Proofs.Identifier

namespace Swimlane.Identifier

/-! ## The search -/

/-- The search from the proposal `next` on, when `k` is the numeral of the proposal
    after it: it rejects `rejected` proposals, finds `id`, and leaves the names
    `after` in use. -/
inductive Search (used : List String) (base : List Char) :
    (next : String) → (k rejected : ℕ) → (id : String) → (after : List String) → Prop
  /-- A proposal that is free is taken into use. -/
  | free {next : String} {k : ℕ} (h : next ∉ used) : Search used base next k 0 next (next :: used)
  /-- A proposal that is in use is rejected. -/
  | taken {next : String} {k rejected : ℕ} {id : String} {after : List String} (h : next ∈ used)
      (rest : Search used base (numbered base k) (k + 1) rejected id after) :
      Search used base next k (rejected + 1) id after

/-- The search for a free name for `name`. -/
def Finds (used : List String) (name : String) (rejected : ℕ) (id : String)
    (after : List String) : Prop :=
  Search used (cut maxLength name.toList) (String.ofList (cut maxLength name.toList)) 1
    rejected id after

section
variable {used : List String} {base : List Char}

/-- **A search has one outcome.** -/
theorem Search.unique {next : String} {k r r' : ℕ} {id id' : String} {after after' : List String}
    (h : Search used base next k r id after) (h' : Search used base next k r' id' after') :
    r = r' ∧ id = id' ∧ after = after' := by
  induction h generalizing r' with
  | free hfree =>
    cases h' with
    | free => exact ⟨rfl, rfl, rfl⟩
    | taken htaken => exact absurd htaken hfree
  | taken htaken _ ih =>
    cases h' with
    | free hfree => exact absurd htaken hfree
    | taken _ rest =>
      obtain ⟨hr, hid, hafter⟩ := ih rest
      exact ⟨congrArg (· + 1) hr, hid, hafter⟩

/-- **Numbered forms that are in use** are rejected one after the other. -/
theorem search_of_taken {k r : ℕ} (htaken : ∀ j, k ≤ j → j < k + r → numbered base j ∈ used)
    (hfree : numbered base (k + r) ∉ used) :
    Search used base (numbered base k) (k + 1) r (numbered base (k + r))
      (numbered base (k + r) :: used) := by
  induction r generalizing k with
  | zero => exact .free hfree
  | succ r ih =>
    have hshift : k + (r + 1) = k + 1 + r := by omega
    rw [hshift] at htaken hfree ⊢
    refine .taken (htaken k le_rfl (by omega)) (ih (fun j hj hjr => ?_) hfree)
    exact htaken j (by omega) hjr

end

/-- The search ends with the fresh name. -/
theorem exists_finds (used : List String) (name : String) :
    ∃ rejected ≤ used.toFinset.card + 1,
      Finds used name rejected (fresh used name) (fresh used name :: used) := by
  rcases fresh_spec used name with ⟨hfresh, hfree⟩ | ⟨hplain, k, hk, hle, hfresh, hfree, hleast⟩
  · rw [hfresh] at hfree ⊢
    exact ⟨0, Nat.zero_le _, .free hfree⟩
  · obtain ⟨r, rfl⟩ : ∃ r, k = 1 + r := ⟨k - 1, by omega⟩
    rw [hfresh] at hfree ⊢
    refine ⟨r + 1, by omega, .taken hplain (search_of_taken (fun j hj hjr => ?_) hfree)⟩
    exact hleast j hj hjr

/-! ## The first free name -/

/-- The name that is tried first if it is free, otherwise the numbered one with the
    least numeral that is free. -/
structure FirstFree (used : List String) (name id : String) : Prop where
  free : id ∉ used
  length_le : id.toList.length ≤ 40
  plain : String.ofList (cut maxLength name.toList) ∉ used →
    id = String.ofList (cut maxLength name.toList)
  numbered : String.ofList (cut maxLength name.toList) ∈ used →
    ∃ k, 1 ≤ k ∧ id = numbered (cut maxLength name.toList) k ∧
      ∀ j, 1 ≤ j → j < k → numbered (cut maxLength name.toList) j ∈ used
  /-- What begins like an identifier becomes one. -/
  shape : Stem name.toList → IsIdentifier id

theorem length_fresh_le {used : List String} (name : String)
    (hused : used.toFinset.card < maxNumeral) : (fresh used name).toList.length ≤ maxLength := by
  rcases fresh_spec used name with ⟨hfresh, -⟩ | ⟨-, k, -, hk, hfresh, -, -⟩
  · rw [hfresh, String.toList_ofList]
    exact length_cut_le _ _
  · rw [hfresh]
    exact length_numbered_le _ (by omega)

theorem firstFree_fresh {used : List String} (name : String)
    (hused : used.toFinset.card < maxNumeral) : FirstFree used name (fresh used name) where
  free := fresh_notMem used name
  length_le := length_fresh_le name hused
  plain := fresh_of_free
  numbered hplain := by
    rcases fresh_spec used name with ⟨hfresh, hfree⟩ | ⟨-, k, hk, -, hfresh, -, hleast⟩
    · exact absurd (hfresh ▸ hplain) hfree
    · exact ⟨k, hk, hfresh, hleast⟩
  shape hstem := isIdentifier_fresh hstem hused

/-- **The search for a free name ends.**  It rejects at most one proposal more than
    there are names in use, it finds the first free name, and it adds this name to
    those in use.  The names in use are in a memory of 64-bit addresses. -/
theorem search_ends (used : List String) (name : String)
    (hused : used.toFinset.card < UInt64.size) :
    FirstFree used name (fresh used name) ∧
      ∃ rejected ≤ used.toFinset.card + 1, ∀ r id after, Finds used name r id after ↔
        r = rejected ∧ id = fresh used name ∧ after = fresh used name :: used := by
  refine ⟨firstFree_fresh name (hused.trans_le (by decide)), ?_⟩
  obtain ⟨rejected, hle, hfinds⟩ := exists_finds used name
  refine ⟨rejected, hle, fun r id after => ⟨fun h => h.unique hfinds, ?_⟩⟩
  rintro ⟨rfl, rfl, rfl⟩
  exact hfinds

/-- A name of 38 letters and an ending. -/
def long (ending : String) : String := String.ofList (List.replicate 38 'a' ++ ending.toList)

/-- A name of forty characters that is its own first numbered form, and its second
    numbered form. -/
def crowd : List String := [long "_1", long "_2"]

theorem search_ends_crowd : crowd.toFinset.card < UInt64.size ∧ Stem (long "_1").toList ∧
    FirstFree crowd (long "_1") (long "_3") ∧
    ∀ r id after, Finds crowd (long "_1") r id after ↔
      r = crowd.toFinset.card + 1 ∧ id = long "_3" ∧ after = long "_3" :: crowd := by
  have hcard : crowd.toFinset.card = 2 := by decide +kernel
  have hsize : crowd.toFinset.card < UInt64.size := by rw [hcard]; decide
  have hthird : numbered (cut maxLength (long "_1").toList) 3 = long "_3" := by decide +kernel
  have hfinds : Finds crowd (long "_1") 3 (long "_3") (long "_3" :: crowd) := by
    rw [← hthird]
    refine .taken (by decide +kernel) (search_of_taken (k := 1) (r := 2) (fun j hj hjr => ?_) ?_)
    · obtain rfl | rfl : j = 1 ∨ j = 2 := by omega
      · decide +kernel
      · decide +kernel
    · decide +kernel
  obtain ⟨hfirst, rejected, -, hiff⟩ := search_ends crowd (long "_1") hsize
  obtain ⟨rfl, hid, -⟩ := (hiff _ _ _).1 hfinds
  rw [← hid] at hfirst hiff
  rw [hcard]
  exact ⟨by decide, by decide +kernel, hfirst, hiff⟩

end Swimlane.Identifier
