/-
  Swimlane — tables in the order of their keys.

  A table is a list of entries in ascending order of keys, each key at most
  once.  `insert` keeps the order and replaces the entry of a key, `erase`
  drops it; `get?_insert` and `get?_erase` say what they do to `get?`.
-/

namespace Swimlane.Keyed

variable {β : Type}

def get? (key : String) : List (String × β) → Option β
  | [] => none
  | (k, v) :: rest => if k = key then some v else get? key rest

/-- The table with the value of a key set. -/
def insert (key : String) (value : β) : List (String × β) → List (String × β)
  | [] => [(key, value)]
  | (k, v) :: rest =>
    if k = key then (key, value) :: rest
    else if key < k then (key, value) :: (k, v) :: rest
    else (k, v) :: insert key value rest

def erase (key : String) (table : List (String × β)) : List (String × β) :=
  table.filter fun entry => entry.1 ≠ key

def keys (table : List (String × β)) : List String := table.map Prod.fst

theorem get?_insert_self (key : String) (value : β) (table : List (String × β)) :
    get? key (insert key value table) = some value := by
  induction table with
  | nil => simp [insert, get?]
  | cons entry rest ih =>
    unfold insert
    split
    · simp [get?]
    · split
      · simp [get?]
      · rename_i hne _
        simpa [get?, hne] using ih

theorem get?_insert_of_ne {key other : String} (h : other ≠ key) (value : β)
    (table : List (String × β)) : get? other (insert key value table) = get? other table := by
  induction table with
  | nil => simp [insert, get?, Ne.symm h]
  | cons entry rest ih =>
    obtain ⟨k, v⟩ := entry
    unfold insert
    split
    · rename_i hk
      simp [get?, hk, Ne.symm h]
    · split
      · simp [get?, Ne.symm h]
      · simp [get?, ih]

/-- Setting a key changes its value and no other. -/
theorem get?_insert (key other : String) (value : β) (table : List (String × β)) :
    get? other (insert key value table) = if other = key then some value else get? other table := by
  split
  · rename_i h
    rw [h, get?_insert_self]
  · rename_i h
    exact get?_insert_of_ne h value table

/-- A key has a value exactly if it is among the keys. -/
theorem get?_isSome_iff {key : String} {table : List (String × β)} :
    (get? key table).isSome ↔ key ∈ keys table := by
  induction table with
  | nil => simp [get?, keys]
  | cons entry rest ih =>
    obtain ⟨k, v⟩ := entry
    simp only [keys] at ih
    by_cases hk : k = key
    · simp [get?, keys, hk]
    · simp [get?, keys, hk, ih, Ne.symm hk]

/-- Dropping a key changes no other. -/
theorem get?_erase (key other : String) (table : List (String × β)) :
    get? other (erase key table) = if other = key then none else get? other table := by
  induction table with
  | nil => simp [erase, get?]
  | cons entry rest ih =>
    obtain ⟨k, v⟩ := entry
    by_cases hk : k = key
    · have hdrop : erase key ((k, v) :: rest) = erase key rest := by simp [erase, hk]
      rw [hdrop, ih]
      by_cases ho : other = key
      · simp [ho]
      · have hne : ¬ k = other := fun h => ho (h.symm.trans hk)
        simp [ho, get?, hne]
    · have hkeep : erase key ((k, v) :: rest) = (k, v) :: erase key rest := by simp [erase, hk]
      rw [hkeep]
      by_cases ho : k = other
      · have hne : ¬ other = key := fun h => hk (ho.trans h)
        simp [get?, ho, hne]
      · simp [get?, ho, ih]

end Swimlane.Keyed
