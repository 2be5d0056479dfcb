/-
  Swimlane — a fence leaves what it encloses.

  An answer may be quoted: blanks, perhaps an opening fence, the answer, perhaps a
  closing fence, and blanks.  Taking the fence off gives the answer, whatever it says
  inside.

  * `Blank`, `Spells`: runs of blanks, and texts with one character of each class.
    `afterClasses?_eq_some`: what such a text is followed by.
  * `Trimmed`, `Payload`: the answers that can be told from what is around them.
    `Opening`, `Closing`: what may be around them.
  * `dropOpeningFence_of_not`, `dropOpeningFence_bare`, `dropOpeningFence_named`,
    `dropClosingFence_of_not`, `dropClosingFence_append`: what each end of a fence takes
    with it.
  * `dropOpeningFence_payload`, `dropClosingFence_payload`: neither touches the answer;
    `unfence_enclosed`: nor do both.
-/
import Mathlib.Data.List.Forall2
import Swimlane.Proofs.Text.Plain
import Swimlane.Text.Fence

namespace Swimlane.Text

/-- A run of blanks, perhaps an empty one. -/
def Blank (cs : List Char) : Prop := ∀ c ∈ cs, isBlank c = true

instance (cs : List Char) : Decidable (Blank cs) :=
  List.decidableBAll _ cs

/-- A text that does not begin or end with a blank; it is not empty. -/
structure Trimmed (cs : List Char) : Prop where
  begins : ∃ c, cs.head? = some c ∧ isBlank c = false
  ends : ∃ c, cs.getLast? = some c ∧ isBlank c = false

section
variable {p : Char → Bool} {front cs rest : List Char} {c : Char}

/-! ## Blanks at the ends -/

theorem dropWhile_append_of_head? (hfront : ∀ c ∈ front, p c = true)
    (h : ∃ c, cs.head? = some c ∧ p c = false) : (front ++ cs).dropWhile p = cs := by
  obtain ⟨c, hc, hp⟩ := h
  rw [List.dropWhile_append_of_pos hfront]
  cases cs with
  | nil => cases hc
  | cons d cs =>
    cases hc
    exact List.dropWhile_cons_of_neg (by simp [hp])

theorem dropEndWhile_append_of_getLast? (h : ∃ c, cs.getLast? = some c ∧ p c = false)
    (hrest : ∀ c ∈ rest, p c = true) : dropEndWhile p (cs ++ rest) = cs := by
  rw [← List.head?_reverse] at h
  have hdrop := dropWhile_append_of_head? (fun c hc => hrest c (List.mem_reverse.1 hc)) h
  rw [dropEndWhile, List.reverse_append, hdrop, List.reverse_reverse]

/-- A text begins as its first part does. -/
theorem head?_append_of (h : ∃ c, cs.head? = some c ∧ p c = false) (rest : List Char) :
    ∃ c, (cs ++ rest).head? = some c ∧ p c = false := by
  obtain ⟨c, hc, hp⟩ := h
  exact ⟨c, by simp [hc], hp⟩

/-- A text ends as its last part does. -/
theorem getLast?_append_of (h : ∃ c, cs.getLast? = some c ∧ p c = false) (front : List Char) :
    ∃ c, (front ++ cs).getLast? = some c ∧ p c = false := by
  obtain ⟨c, hc, hp⟩ := h
  exact ⟨c, by simp [hc], hp⟩

/-- **Trimming takes off the blanks** around a text, and no more. -/
theorem Trimmed.trim_enclosed (h : Trimmed cs) (hfront : Blank front) (hrest : Blank rest) :
    trim (front ++ cs ++ rest) = cs := by
  rw [trim, trimWhile, List.append_assoc,
    dropWhile_append_of_head? hfront (head?_append_of h.begins rest),
    dropEndWhile_append_of_getLast? h.ends hrest]

theorem Trimmed.trim_eq (h : Trimmed cs) : trim cs = cs := by
  simpa using h.trim_enclosed (List.forall_mem_nil _) (List.forall_mem_nil _)

/-! ## Classes of characters -/

/-- The text has one character of each class in turn. -/
def Spells (classes : List (List Char)) (cs : List Char) : Prop :=
  List.Forall₂ (fun letters c => c ∈ letters) classes cs

theorem afterClasses?_eq_some {classes : List (List Char)} :
    afterClasses? classes cs = some rest ↔ ∃ front, cs = front ++ rest ∧ Spells classes front := by
  induction classes generalizing cs with
  | nil => simp [afterClasses?, Spells]
  | cons letters classes ih =>
    cases cs with
    | nil => simp [afterClasses?, Spells]
    | cons c cs =>
      simp only [afterClasses?, List.contains_iff_mem]
      constructor
      · intro h
        split at h
        · rename_i hc
          obtain ⟨front, rfl, hfront⟩ := ih.1 h
          exact ⟨c :: front, rfl, .cons hc hfront⟩
        · cases h
      · rintro ⟨front, hcs, hfront⟩
        cases hfront with
        | cons hc hfront =>
          cases hcs
          rw [if_pos hc]
          exact ih.2 ⟨_, rfl, hfront⟩

/-- Classes of one character spell one text. -/
theorem spells_map_singleton {ds : List Char} : Spells (ds.map fun c => [c]) cs ↔ ds = cs := by
  simp only [Spells, List.forall₂_map_left_iff, List.mem_singleton, eq_comm, List.forall₂_eq_eq_eq]

theorem afterFence?_eq_some :
    afterClasses? (fence.map fun c => [c]) cs = some rest ↔ cs = fence ++ rest := by
  simp only [afterClasses?_eq_some, spells_map_singleton, exists_eq_right']

theorem afterFence?_eq_none (h : ¬ fence <+: cs) :
    afterClasses? (fence.map fun c => [c]) cs = none := by
  rw [Option.eq_none_iff_forall_ne_some]
  rintro rest hrest
  exact h ⟨rest, (afterFence?_eq_some.1 hrest).symm⟩

theorem reverse_fence : fence.reverse = fence := rfl

/-! ## The ends of a fence -/

theorem dropOpeningFence_of_not (h : ¬ fence <+: cs) : dropOpeningFence cs = cs := by
  rw [dropOpeningFence, afterFence?_eq_none h]

/-- A fence that names no format. -/
theorem dropOpeningFence_bare (h : ∀ name, Spells formatName name → ¬ name <+: cs) :
    dropOpeningFence (fence ++ cs) = cs.dropWhile isBlank := by
  have hnone : afterClasses? formatName cs = none := by
    rw [Option.eq_none_iff_forall_ne_some]
    intro rest hrest
    obtain ⟨name, rfl, hname⟩ := afterClasses?_eq_some.1 hrest
    exact h name hname (List.prefix_append _ _)
  rw [dropOpeningFence, afterFence?_eq_some.2 rfl]
  simp only [hnone, Option.getD_none]

theorem dropOpeningFence_named {name : List Char} (h : Spells formatName name) :
    dropOpeningFence (fence ++ (name ++ cs)) = cs.dropWhile isBlank := by
  rw [dropOpeningFence, afterFence?_eq_some.2 rfl]
  simp only [afterClasses?_eq_some.2 ⟨name, rfl, h⟩, Option.getD_some]

theorem dropClosingFence_of_not (h : ¬ fence <:+ cs) : dropClosingFence cs = cs := by
  have hreverse : ¬ fence <+: cs.reverse := by
    rwa [← reverse_fence, List.reverse_prefix]
  rw [dropClosingFence, afterFence?_eq_none hreverse]

theorem dropClosingFence_append : dropClosingFence (cs ++ fence) = dropEndWhile isBlank cs := by
  have hreverse : (cs ++ fence).reverse = fence ++ cs.reverse := by
    rw [List.reverse_append, reverse_fence]
  rw [dropClosingFence, afterFence?_eq_some.2 hreverse]
  rfl

end

/-! ## What is enclosed and what encloses it -/

/-- An answer that can be told from a fence around it: it has no blanks at its ends,
    does not begin or end with a fence, and does not begin with the name of the format. -/
structure Payload (cs : List Char) : Prop extends Trimmed cs where
  not_opened : ¬ fence <+: cs
  not_closed : ¬ fence <:+ cs
  not_named : ∀ name, Spells formatName name → ¬ name <+: cs

/-- What may stand before an answer: nothing, or a fence and perhaps the name of the
    format, and blanks. -/
inductive Opening : List Char → Prop where
  | none : Opening []
  | bare {blanks : List Char} (h : Blank blanks) : Opening (fence ++ blanks)
  | named {name blanks : List Char} (hname : Spells formatName name) (h : Blank blanks) :
    Opening (fence ++ (name ++ blanks))

/-- What may stand after an answer: nothing, or blanks and a fence. -/
inductive Closing : List Char → Prop where
  | none : Closing []
  | bare {blanks : List Char} (h : Blank blanks) : Closing (blanks ++ fence)

section
variable {opening cs closing : List Char} {c : Char}

theorem begins_fence (rest : List Char) :
    ∃ c, (fence ++ rest).head? = some c ∧ isBlank c = false :=
  ⟨'\x60', rfl, rfl⟩

theorem ends_fence (front : List Char) :
    ∃ c, (front ++ fence).getLast? = some c ∧ isBlank c = false :=
  getLast?_append_of ⟨'\x60', rfl, rfl⟩ front

/-- A quoted answer is trimmed. -/
theorem Trimmed.quoted (h : Trimmed cs) (hopening : Opening opening) (hclosing : Closing closing) :
    Trimmed (opening ++ cs ++ closing) where
  begins := by
    rw [List.append_assoc]
    cases hopening with
    | none => exact head?_append_of h.begins closing
    | bare => rw [List.append_assoc]; exact begins_fence _
    | named => rw [List.append_assoc]; exact begins_fence _
  ends := by
    cases hclosing with
    | none => rw [List.append_nil]; exact getLast?_append_of h.ends opening
    | bare => rw [← List.append_assoc]; exact ends_fence _

/-- What closes an answer begins with a blank or a backtick. -/
theorem Closing.head? (h : Closing closing) (hc : closing.head? = some c) :
    isBlank c = true ∨ c = '\x60' ∧ closing = fence := by
  cases h with
  | none => cases hc
  | @bare blanks hblank =>
    cases blanks with
    | nil =>
      cases hc
      exact Or.inr ⟨rfl, rfl⟩
    | cons d blanks =>
      cases hc
      exact Or.inl (hblank c List.mem_cons_self)

theorem Spells.exists_of_mem {classes : List (List Char)} (h : Spells classes cs) (hc : c ∈ cs) :
    ∃ letters ∈ classes, c ∈ letters := by
  induction h with
  | nil => cases hc
  | cons hletters _ ih =>
    rcases List.mem_cons.1 hc with rfl | hc
    · exact ⟨_, List.mem_cons_self, hletters⟩
    · obtain ⟨letters, hmem, hin⟩ := ih hc
      exact ⟨letters, List.mem_cons_of_mem _ hmem, hin⟩

/-- The name of the format has neither blanks nor backticks. -/
theorem plain_of_mem_name {name : List Char} (h : Spells formatName name) (hc : c ∈ name) :
    isBlank c = false ∧ c ≠ '\x60' := by
  have hplain : ∀ letters ∈ formatName, ∀ c ∈ letters, isBlank c = false ∧ c ≠ '\x60' := by
    simp [formatName, isBlank, blankRanges]
  obtain ⟨letters, hletters, hmem⟩ := h.exists_of_mem hc
  exact hplain letters hletters c hmem

/-- What closes an answer does not complete the name of the format. -/
theorem Payload.not_named_append (h : Payload cs) (hclosing : Closing closing) (name : List Char)
    (hname : Spells formatName name) : ¬ name <+: cs ++ closing := by
  rintro ⟨more, hmore⟩
  rcases List.append_eq_append_iff.1 hmore with ⟨rest, rfl, -⟩ | ⟨tail, rfl, rfl⟩
  · exact h.not_named name hname (List.prefix_append _ _)
  · cases tail with
    | nil =>
      rw [List.append_nil] at hname
      exact h.not_named cs hname List.prefix_rfl
    | cons c tail =>
      obtain ⟨hblank, htick⟩ := plain_of_mem_name (c := c) hname (by simp)
      rcases hclosing.head? (c := c) rfl with hc | ⟨hc, -⟩
      · rw [hblank] at hc
        cases hc
      · exact htick hc

/-- Nor do blanks before it make an answer begin with that name. -/
theorem Payload.not_named_blanks {blanks : List Char} (h : Payload cs) (hclosing : Closing closing)
    (hblanks : Blank blanks) (name : List Char) (hname : Spells formatName name) :
    ¬ name <+: blanks ++ (cs ++ closing) := by
  cases blanks with
  | nil => exact h.not_named_append hclosing name hname
  | cons b blanks =>
    rintro ⟨more, hmore⟩
    have hb : b ∈ name := by
      cases hname with
      | cons =>
        rw [List.cons_append, List.cons_append] at hmore
        rw [(List.cons.inj hmore).1]
        exact List.mem_cons_self
    obtain ⟨hplain, -⟩ := plain_of_mem_name hname hb
    rw [hblanks b List.mem_cons_self] at hplain
    cases hplain

/-- A closing fence can complete one or two backticks to a fence.  Then one may as well
    be before them. -/
theorem Payload.fence_append (h : Payload cs) (hclosing : Closing closing)
    (hfence : fence <+: cs ++ closing) : closing = fence ∧ cs ++ fence = fence ++ cs := by
  obtain ⟨more, hmore⟩ := hfence
  rcases List.append_eq_append_iff.1 hmore with ⟨rest, rfl, -⟩ | ⟨tail, htail, rfl⟩
  · exact absurd (List.prefix_append _ _) h.not_opened
  · -- the fence reaches into what closes the answer, so that the answer is backticks only
    have hticks : fence = List.replicate 3 '\x60' := rfl
    obtain ⟨-, hcs, hrest⟩ := List.replicate_eq_append_iff.1 (hticks.symm.trans htail)
    refine ⟨?_, ?_⟩
    · cases tail with
      | nil =>
        rw [List.append_nil] at htail
        exact absurd (htail ▸ List.prefix_rfl) h.not_opened
      | cons c tail =>
        rcases hclosing.head? (c := c) rfl with hc | ⟨-, hc⟩
        · have htick : c = '\x60' := List.eq_of_mem_replicate (hrest ▸ List.mem_cons_self)
          rw [htick] at hc
          cases hc
        · exact hc
    · rw [hticks, hcs, List.replicate_append_replicate, List.replicate_append_replicate,
        Nat.add_comm]

/-! ## Taking the fence off -/

/-- **An opening fence** goes without a part of the answer.  What closes the answer stays,
    unless it is taken for the opening of a text that reads the same. -/
theorem dropOpeningFence_payload (h : Payload cs) (hopening : Opening opening)
    (hclosing : Closing closing) : ∃ kept, Closing kept ∧
      dropOpeningFence (opening ++ cs ++ closing) = cs ++ kept := by
  have hdrop : ∀ {blanks : List Char}, Blank blanks →
      (blanks ++ (cs ++ closing)).dropWhile isBlank = cs ++ closing := fun hblanks =>
    dropWhile_append_of_head? hblanks (head?_append_of h.begins closing)
  cases hopening with
  | none =>
    by_cases hfence : fence <+: cs ++ closing
    · -- what is left after the first three backticks is the answer, and closes nothing
      obtain ⟨rfl, hswap⟩ := h.fence_append hclosing hfence
      refine ⟨[], .none, ?_⟩
      rw [List.nil_append, hswap, dropOpeningFence_bare h.not_named, List.append_nil]
      show ([] ++ cs).dropWhile isBlank = cs
      exact dropWhile_append_of_head? (List.forall_mem_nil _) h.begins
    · exact ⟨closing, hclosing, dropOpeningFence_of_not hfence⟩
  | @bare blanks hblanks =>
    refine ⟨closing, hclosing, ?_⟩
    rw [List.append_assoc, List.append_assoc,
      dropOpeningFence_bare (h.not_named_blanks hclosing hblanks), hdrop hblanks]
  | @named name blanks hname hblanks =>
    refine ⟨closing, hclosing, ?_⟩
    rw [List.append_assoc, List.append_assoc, List.append_assoc, dropOpeningFence_named hname,
      hdrop hblanks]

/-- **A closing fence** goes without a part of the answer. -/
theorem dropClosingFence_payload (h : Payload cs) (hclosing : Closing closing) :
    dropClosingFence (cs ++ closing) = cs := by
  cases hclosing with
  | none => rw [List.append_nil, dropClosingFence_of_not h.not_closed]
  | bare hblanks =>
    rw [← List.append_assoc, dropClosingFence_append,
      dropEndWhile_append_of_getLast? h.ends hblanks]

/-- **A quoted answer** is what its fence encloses. -/
theorem unfence_enclosed {front rest : List Char} (h : Payload cs) (hopening : Opening opening)
    (hclosing : Closing closing) (hfront : Blank front) (hrest : Blank rest) :
    unfence (front ++ (opening ++ cs ++ closing) ++ rest) = cs := by
  have hquoted : Trimmed (opening ++ cs ++ closing) := h.toTrimmed.quoted hopening hclosing
  obtain ⟨kept, hkept, hopened⟩ := dropOpeningFence_payload h hopening hclosing
  rw [unfence, hquoted.trim_enclosed hfront hrest, hopened, dropClosingFence_payload h hkept,
    h.toTrimmed.trim_eq]

end

end Swimlane.Text
