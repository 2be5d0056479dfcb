/-
  Swimlane — the normal form of slugs.

  A slug is made for the small letters, the digits and the hyphens of a text in lower
  case.  Everything else becomes an underscore, and underscores at the ends are dropped, so
  that nothing is left of a text without such a character.

  * `IsSolid c`: such a character.  `exists_isSolid_lower_iff`: the texts that have one in
    lower case.
  * `slugChars_eq_nil_iff`: the texts of which nothing is left.
  * `slug_normal`: the other texts have an identifier as their slug, and identifiers are
    their own slugs, so that a slug is its own slug.
-/
import Swimlane.Proofs.Identifier

namespace Swimlane.Identifier

open Text

/-! ## Solid characters -/

/-- A small letter, a digit or a hyphen. -/
def IsSolid (c : Char) : Prop := ('a' ≤ c ∧ c ≤ 'z') ∨ ('0' ≤ c ∧ c ≤ '9') ∨ c = '-'

instance (c : Char) : Decidable (IsSolid c) := inferInstanceAs (Decidable (_ ∨ _ ∨ _))

section
variable {c d : Char} {cs : List Char}

theorem le_iff_toNat_le : c ≤ d ↔ c.toNat ≤ d.toNat := by
  rw [Char.le_def, UInt32.le_iff_toNat_le, Char.toNat_val, Char.toNat_val]

theorem isSolid_iff : IsSolid c ↔
    (97 ≤ c.toNat ∧ c.toNat ≤ 122) ∨ (48 ≤ c.toNat ∧ c.toNat ≤ 57) ∨ c.toNat = 45 := by
  simp only [IsSolid, le_iff_toNat_le, ← Char.toNat_inj]
  rfl

theorem isIdChar_iff : isIdChar c = true ↔ IsSolid c ∨ c = '_' := by
  simp only [isIdChar, isSolid_iff, Bool.or_eq_true, Bool.and_eq_true, decide_eq_true_eq,
    ← Char.toNat_inj]
  tauto

/-- What is not solid becomes an underscore. -/
theorem isUnderscore_idChar : isUnderscore (idChar c) = true ↔ ¬ IsSolid c := by
  rw [isUnderscore, decide_eq_true_eq, idChar]
  split
  · rename_i hkeep
    rcases isIdChar_iff.1 hkeep with hsolid | rfl
    · have hne : c ≠ '_' := by
        rintro rfl
        exact absurd hsolid (by decide)
      simp [hsolid, hne]
    · decide
  · rename_i hdrop
    have hsolid : ¬ IsSolid c := fun hsolid => hdrop (isIdChar_iff.2 (Or.inl hsolid))
    simp [hsolid]

/-- The characters that have a solid one in lower case: besides those of ASCII, the capital
    I with a dot and the Kelvin sign. -/
theorem exists_isSolid_lowerChar_iff : (∃ d ∈ lowerChar c, IsSolid d) ↔
    IsSolid c ∨ ('A' ≤ c ∧ c ≤ 'Z') ∨ c = '\u0130' ∨ c = '\u212A' := by
  have hcapital : ('A' ≤ c ∧ c ≤ 'Z') ↔ 65 ≤ c.toNat ∧ c.toNat ≤ 90 := by
    simp only [le_iff_toNat_le]
    rfl
  have hdotted : c = '\u0130' ↔ c.toNat = 304 := Char.toNat_inj.symm
  have hkelvin : c = '\u212A' ↔ c.toNat = 8490 := Char.toNat_inj.symm
  rw [isSolid_iff, hcapital, hdotted, hkelvin]
  unfold lowerChar
  simp only [Bool.or_eq_true, Bool.and_eq_true, decide_eq_true_eq, bne_iff_ne]
  split_ifs with hlatin hi hk
  · have hsmall : (Char.ofNat (c.toNat + 32)).toNat = c.toNat + 32 := by
      rw [Char.ofNat, dif_pos (Or.inl (by omega))]
      rfl
    simp only [List.mem_singleton, exists_eq_left, isSolid_iff, hsmall]
    omega
  · exact iff_of_true ⟨'i', by simp, by decide⟩ (by omega)
  · exact iff_of_true ⟨'k', by simp, by decide⟩ (by omega)
  · simp only [List.mem_singleton, exists_eq_left, isSolid_iff]
    omega

/-- The texts that have a solid character in lower case. -/
theorem exists_isSolid_lower_iff : (∃ c ∈ lower cs, IsSolid c) ↔
    ∃ c ∈ cs, IsSolid c ∨ ('A' ≤ c ∧ c ≤ 'Z') ∨ c = '\u0130' ∨ c = '\u212A' := by
  simp only [← exists_isSolid_lowerChar_iff, lower, List.mem_flatMap]
  constructor
  · rintro ⟨d, ⟨c, hc, hd⟩, hsolid⟩
    exact ⟨c, hc, d, hd, hsolid⟩
  · rintro ⟨c, hc, d, hd, hsolid⟩
    exact ⟨d, ⟨c, hc, hd⟩, hsolid⟩

/-! ## Slugs -/

/-- **Nothing is left of a text** exactly if its lower case has no solid character.  The cut
    leaves something of what is left by trimming. -/
theorem slugChars_eq_nil_iff : slugChars cs = [] ↔ ∀ c ∈ lower cs, ¬ IsSolid c := by
  have htrim : trimWhile isUnderscore ((lower cs).map idChar) = [] ↔
      ∀ c ∈ lower cs, ¬ IsSolid c := by
    rw [trimWhile_eq_nil, List.forall_mem_map]
    exact forall₂_congr fun c _ => isUnderscore_idChar
  rw [← htrim, slugChars]
  constructor
  · intro hcut
    by_contra hne
    exact ((stem_trimWhile hne).cut (by decide)).ne_nil hcut
  · intro hnil
    rw [hnil]
    exact List.prefix_nil.1 (cut_isPrefixOf _ _)

theorem slug_of_not_isSolid {text : String} (h : ∀ c ∈ lower text.toList, ¬ IsSolid c)
    (fallback : String) : slug fallback text = fallback := by
  rw [slug, if_pos (by simp [slugChars_eq_nil_iff.2 h])]

theorem isIdentifier_slug_of_isSolid {text : String} (h : ∃ c ∈ lower text.toList, IsSolid c)
    (fallback : String) : IsIdentifier (slug fallback text) := by
  have hne : slugChars text.toList ≠ [] := fun hnil => by
    obtain ⟨c, hc, hsolid⟩ := h
    exact slugChars_eq_nil_iff.1 hnil c hc hsolid
  rw [slug_of_slugChars hne, IsIdentifier, String.toList_ofList]
  exact shape_slugChars hne

/-- **A slug is its own slug**, also if it is the fallback, provided that the fallback is an
    identifier or empty. -/
theorem slug_slug {fallback : String} (h : fallback = "" ∨ IsIdentifier fallback)
    (text : String) : slug fallback (slug fallback text) = slug fallback text := by
  by_cases hsolid : ∃ c ∈ lower text.toList, IsSolid c
  · exact slug_of_isIdentifier (isIdentifier_slug_of_isSolid hsolid fallback) fallback
  · rw [slug_of_not_isSolid fun c hc hs => hsolid ⟨c, hc, hs⟩]
    rcases h with rfl | h
    · exact slug_of_not_isSolid (by simp [lower]) ""
    · exact slug_of_isIdentifier h fallback

end

/-- **Slugs have a normal form.**  A text without a solid character in lower case has the
    fallback as its slug, and any other text an identifier.  Identifiers are their own slugs
    and so are slugs, if the fallback is an identifier or empty. -/
theorem slug_normal (fallback text : String) :
    ((∀ c ∈ lower text.toList, ¬ IsSolid c) → slug fallback text = fallback) ∧
    ((∃ c ∈ lower text.toList, IsSolid c) → IsIdentifier (slug fallback text)) ∧
    ((∃ c ∈ lower text.toList, IsSolid c) ↔ ∃ c ∈ text.toList,
      IsSolid c ∨ ('A' ≤ c ∧ c ≤ 'Z') ∨ c = '\u0130' ∨ c = '\u212A') ∧
    (IsIdentifier text → slug fallback text = text) ∧
    (fallback = "" ∨ IsIdentifier fallback →
      slug fallback (slug fallback text) = slug fallback text) :=
  ⟨fun h => slug_of_not_isSolid h fallback, fun h => isIdentifier_slug_of_isSolid h fallback,
    exists_isSolid_lower_iff, fun h => slug_of_isIdentifier h fallback, fun h => slug_slug h text⟩

/-- A text whose lower case has one character more.  The cut ends in the underscores between
    its words. -/
def overlong : String := "İ" ++ String.ofList (List.replicate 36 'b') ++ "  tail"

theorem normal_overlong :
    (∃ c ∈ lower overlong.toList, IsSolid c) ∧ IsIdentifier (slug "node_1" overlong) ∧
      (∀ c ∈ lower "¿?".toList, ¬ IsSolid c) ∧ slug "node_1" "¿?" = "node_1" ∧
      IsIdentifier "node_1" ∧ slug "x" "node_1" = "node_1" ∧
      slug "node_1" (slug "node_1" overlong) = slug "node_1" overlong := by
  have hsolid : ∃ c ∈ lower overlong.toList, IsSolid c :=
    exists_isSolid_lower_iff.2 ⟨'b', by simp [overlong], by decide⟩
  have hnone : ∀ c ∈ lower "¿?".toList, ¬ IsSolid c := by
    have hlower : lower "¿?".toList = ['¿', '?'] := by decide +kernel
    rw [hlower]
    exact List.forall_mem_cons.2 ⟨by decide, List.forall_mem_singleton.2 (by decide)⟩
  have hnode : IsIdentifier "node_1" := by decide +kernel
  obtain ⟨-, hidentifier, -, -, hagain⟩ := slug_normal "node_1" overlong
  exact ⟨hsolid, hidentifier hsolid, hnone, (slug_normal "node_1" "¿?").1 hnone, hnode,
    (slug_normal "x" "node_1").2.2.2.1 hnode, hagain (Or.inr hnode)⟩

/-- The cut bares an underscore, which is dropped. -/
example : slugChars overlong.toList = 'i' :: '_' :: List.replicate 36 'b' := by decide +kernel

end Swimlane.Identifier
