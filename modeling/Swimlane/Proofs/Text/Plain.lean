/-
  Swimlane — what trimming leaves, and the shape of plain texts.

  * A trimmed list neither begins nor ends with a character that was to be
    dropped (`head?_trimWhile`, `getLast?_dropEndWhile`).
  * `IsPlain limit cs`: the shape of the texts that a draft keeps.
    `isPlain_plain`: the plain form of a text that is not blank has it.
  * `IsPlain.plain_eq`: taking the plain form again only drops a space at the
    end, which a cut may have bared.
-/
import Mathlib.Data.List.Chain
import Mathlib.Data.List.DropRight
import Swimlane.Text.Blank

namespace Swimlane.Text

/-! ## Trimming -/

section
variable {p : Char → Bool} {cs : List Char} {c : Char}

theorem head?_dropWhile (h : (cs.dropWhile p).head? = some c) : p c = false := by
  have hnot := List.head?_dropWhile_not p cs
  rw [h] at hnot
  exact hnot

theorem getLast?_dropEndWhile (h : (dropEndWhile p cs).getLast? = some c) : p c = false := by
  rw [dropEndWhile, List.getLast?_reverse] at h
  exact head?_dropWhile h

theorem dropEndWhile_eq_nil : dropEndWhile p cs = [] ↔ ∀ c ∈ cs, p c = true :=
  List.rdropWhile_eq_nil_iff

theorem trimWhile_eq_nil : trimWhile p cs = [] ↔ ∀ c ∈ cs, p c = true := by
  rw [trimWhile, dropEndWhile_eq_nil]
  constructor
  · intro h c hc
    rw [← List.takeWhile_append_dropWhile (p := p) (l := cs)] at hc
    rcases List.mem_append.1 hc with hc | hc
    · exact List.mem_takeWhile_imp hc
    · exact h c hc
  · exact fun h c hc => h c ((List.dropWhile_suffix p).subset hc)

/-- What is kept at its front is kept by dropping at the end. -/
theorem head?_dropEndWhile (h : cs.head? = some c) (hc : p c = false) :
    (dropEndWhile p cs).head? = some c := by
  have hne : dropEndWhile p cs ≠ [] := by
    intro hnil
    have hall := dropEndWhile_eq_nil.1 hnil c (List.mem_of_mem_head? h)
    rw [hc] at hall
    cases hall
  obtain ⟨rest, hrest⟩ := dropEndWhile_isPrefixOf p cs
  rw [← hrest, List.head?_append_of_ne_nil _ hne] at h
  exact h

theorem head?_trimWhile (h : (trimWhile p cs).head? = some c) : p c = false := by
  obtain ⟨rest, hrest⟩ := dropEndWhile_isPrefixOf p (cs.dropWhile p)
  have hfront : (cs.dropWhile p).head? = some c := by
    rw [trimWhile] at h
    rw [← hrest, List.head?_append, h]
    rfl
  exact head?_dropWhile hfront

/-- Trimming twice is trimming once. -/
theorem trimWhile_trimWhile : trimWhile p (trimWhile p cs) = trimWhile p cs := by
  have hkeep : (trimWhile p cs).dropWhile p = trimWhile p cs := by
    cases hcs : trimWhile p cs with
    | nil => rfl
    | cons c rest =>
      have hc : p c = false := head?_trimWhile (congrArg List.head? hcs)
      rw [List.dropWhile_cons_of_neg (by simp [hc])]
  rw [trimWhile, hkeep]
  exact List.rdropWhile_idempotent p _

theorem trim_trim : trim (trim cs) = trim cs := trimWhile_trimWhile

theorem mem_of_mem_trimWhile (h : c ∈ trimWhile p cs) : c ∈ cs :=
  (List.dropWhile_suffix p).subset ((dropEndWhile_isPrefixOf p _).subset h)

end

/-! ## Collapsing -/

/-- Within a run of blanks no blank is written. -/
theorem head?_collapseFrom_true {cs : List Char} {c : Char}
    (h : (collapseFrom true cs).head? = some c) : isBlank c = false := by
  induction cs with
  | nil => simp [collapseFrom] at h
  | cons d cs ih =>
    rw [collapseFrom] at h
    by_cases hd : isBlank d = true
    · rw [if_pos hd, if_pos rfl] at h
      exact ih h
    · rw [if_neg hd] at h
      cases h
      exact Bool.not_eq_true _ ▸ hd

/-- A collapsed text has no two spaces next to each other. -/
theorem isChain_collapseFrom (inRun : Bool) (cs : List Char) :
    (collapseFrom inRun cs).IsChain fun a b => a = ' ' → b ≠ ' ' := by
  induction cs generalizing inRun with
  | nil => exact .nil
  | cons d cs ih =>
    rw [collapseFrom]
    by_cases hd : isBlank d = true
    · rw [if_pos hd]
      cases inRun with
      | true => exact ih true
      | false =>
        refine List.isChain_cons.2 ⟨fun b hb _ hbs => ?_, ih true⟩
        have hblank := head?_collapseFrom_true hb
        rw [hbs, isBlank_space] at hblank
        cases hblank
    · rw [if_neg hd]
      refine List.isChain_cons.2 ⟨fun b _ hds => ?_, ih false⟩
      exact absurd (hds ▸ isBlank_space) hd

/-! ## Plain texts -/

/-- A plain text of at most `limit` characters: it begins with a character that
    is not blank, and its only blanks are spaces that stand alone. -/
structure IsPlain (limit : Nat) (cs : List Char) : Prop where
  ne_nil : cs ≠ []
  length_le : cs.length ≤ limit
  begins : ∀ c, cs.head? = some c → isBlank c = false
  blank : ∀ c ∈ cs, isBlank c = true → c = ' '
  apart : cs.IsChain fun a b => a = ' ' → b ≠ ' '

/-- **The plain form of a text that is not blank** is a plain text. -/
theorem isPlain_plain {limit : Nat} {cs : List Char} (hl : 0 < limit) (h : trim cs ≠ []) :
    IsPlain limit (plain limit cs) := by
  obtain ⟨c, rest, hcs⟩ := List.exists_cons_of_ne_nil h
  have hc : isBlank c = false := head?_trimWhile (congrArg List.head? hcs)
  have hcollapse : collapse (trim cs) = c :: collapseFrom false rest := by
    rw [hcs, collapse, collapseFrom, if_neg (by simp [hc])]
  obtain ⟨n, rfl⟩ : ∃ n, limit = n + 1 := ⟨limit - 1, by omega⟩
  have hplain : plain (n + 1) cs = c :: (collapseFrom false rest).take n := by
    rw [plain, hcollapse, List.take_succ_cons]
  constructor
  case ne_nil => simp [hplain]
  case length_le => exact plain_length _ _
  case begins =>
    intro d hd
    rw [hplain] at hd
    cases hd
    exact hc
  case blank => exact fun d hd => collapse_blank (List.mem_of_mem_take hd)
  case apart => exact (isChain_collapseFrom false _).take _

/-- A text that is not blank has a plain form that is a plain text. -/
theorem isPlain_plainString {limit : Nat} {s : String} (hl : 0 < limit)
    (h : trim s.toList ≠ []) : IsPlain limit (plainString limit s).toList := by
  rw [plainString, String.toList_ofList]
  exact isPlain_plain hl h

/-! ## Plain texts again -/

/-- A text in which blanks are spaces that stand alone is collapsed. -/
theorem collapseFrom_eq_self {cs : List Char} {inRun : Bool}
    (hrun : inRun = true → ∀ c, cs.head? = some c → isBlank c = false)
    (hblank : ∀ c ∈ cs, isBlank c = true → c = ' ')
    (hapart : cs.IsChain fun a b => a = ' ' → b ≠ ' ') : collapseFrom inRun cs = cs := by
  induction cs generalizing inRun with
  | nil => rfl
  | cons c cs ih =>
    obtain ⟨hc, hrest⟩ := List.forall_mem_cons.1 hblank
    obtain ⟨hnext, hchain⟩ := List.isChain_cons.1 hapart
    rw [collapseFrom]
    by_cases hcblank : isBlank c = true
    · cases inRun with
      | true => cases (hrun rfl c rfl).symm.trans hcblank
      | false =>
        have hspace : c = ' ' := hc hcblank
        rw [if_pos hcblank, if_neg (by decide), ih (fun _ d hd => ?_) hrest hchain, hspace]
        rw [← Bool.not_eq_true]
        exact fun hdblank => hnext d hd hspace (hrest d (List.mem_of_mem_head? hd) hdblank)
    · rw [if_neg hcblank, ih (fun h => by cases h) hrest hchain]

namespace IsPlain

variable {limit : ℕ} {cs : List Char}

theorem trim_eq_dropEndWhile (h : IsPlain limit cs) : trim cs = dropEndWhile isBlank cs := by
  obtain ⟨c, rest, rfl⟩ := List.exists_cons_of_ne_nil h.ne_nil
  rw [Text.trim, trimWhile, List.dropWhile_cons_of_neg (by simp [h.begins c rfl])]

/-- **A plain text stays plain** when it is trimmed. -/
theorem trim (h : IsPlain limit cs) : IsPlain limit (Text.trim cs) := by
  have hkept : Text.trim cs <+: cs := by
    rw [h.trim_eq_dropEndWhile]
    exact dropEndWhile_isPrefixOf _ _
  obtain ⟨c, rest, rfl⟩ := List.exists_cons_of_ne_nil h.ne_nil
  have hhead : (Text.trim (c :: rest)).head? = some c := by
    rw [h.trim_eq_dropEndWhile]
    exact head?_dropEndWhile rfl (h.begins c rfl)
  exact {
    ne_nil := fun hnil => by
      rw [hnil] at hhead
      cases hhead
    length_le := hkept.length_le.trans h.length_le
    begins := fun d hd => h.begins d (hhead.symm.trans hd)
    blank := fun d hd => h.blank d (hkept.subset hd)
    apart := h.apart.prefix hkept }

/-- **The plain form of a plain text** is the text without a space at its end. -/
theorem plain_eq (h : IsPlain limit cs) : plain limit cs = Text.trim cs := by
  have hcollapse : collapse (Text.trim cs) = Text.trim cs :=
    collapseFrom_eq_self (fun h => by cases h) h.trim.blank h.trim.apart
  rw [plain, hcollapse, List.take_of_length_le h.trim.length_le]

theorem trim_eq_self_iff (h : IsPlain limit cs) :
    Text.trim cs = cs ↔ cs.getLast? ≠ some ' ' := by
  rw [h.trim_eq_dropEndWhile]
  refine List.rdropWhile_eq_self_iff.trans ⟨fun hkeep hlast => ?_, fun hlast hne hblank => ?_⟩
  · have hspace : cs.getLast h.ne_nil = ' ' := by
      simpa [List.getLast?_eq_some_getLast h.ne_nil] using hlast
    exact hkeep h.ne_nil (hspace ▸ isBlank_space)
  · have hspace := h.blank _ (List.getLast_mem hne) hblank
    exact hlast (by rw [List.getLast?_eq_some_getLast hne, hspace])

end IsPlain

end Swimlane.Text
