/-
  Swimlane — escaped texts say the same.

  A text is escaped by five replacements in the whole text, one after the other.  That is
  the same as one pass, because the `&` is replaced first and no later replacement meets
  what an earlier one has put in.

  * `unescape`: a reader that goes from left to right and knows the five entities.
  * `Spells.unescape_eq`: it reads every spelling of a text, escaped texts among them.
  * `Spells.entity_of_suffix`: in a spelling, an entity begins with every `&`.
  * `escape_faithful`: all of this for escaped texts.
-/
import Swimlane.Proofs.Xml.Written

namespace Swimlane.Xml

/-- Reads the five entities, from left to right.  What is no entity stands for itself. -/
def unescape : List Char → List Char
  | '&' :: 'a' :: 'm' :: 'p' :: ';' :: cs => '&' :: unescape cs
  | '&' :: 'l' :: 't' :: ';' :: cs => '<' :: unescape cs
  | '&' :: 'g' :: 't' :: ';' :: cs => '>' :: unescape cs
  | '&' :: 'q' :: 'u' :: 'o' :: 't' :: ';' :: cs => '"' :: unescape cs
  | '&' :: 'a' :: 'p' :: 'o' :: 's' :: ';' :: cs => '\x27' :: unescape cs
  | c :: cs => c :: unescape cs
  | [] => []

section
variable {c stop : Char} {name s raw rest : List Char}

theorem unescape_cons_of_ne (h : c ≠ '&') (cs : List Char) :
    unescape (c :: cs) = c :: unescape cs := by
  rw [unescape]
  all_goals
    rintro _ rfl
    exact absurd rfl h

theorem unescape_entity (h : (c, name) ∈ entities) (cs : List Char) :
    unescape ('&' :: (name ++ ';' :: cs)) = c :: unescape cs := by
  simp only [entities, List.mem_cons, List.not_mem_nil, or_false, Prod.mk.injEq] at h
  rcases h with ⟨rfl, rfl⟩ | ⟨rfl, rfl⟩ | ⟨rfl, rfl⟩ | ⟨rfl, rfl⟩ | ⟨rfl, rfl⟩
  all_goals
    simp only [List.cons_append, List.nil_append]
    rw [unescape]

/-- **A spelling is read as the text** that it spells. -/
theorem Spells.unescape_eq (h : Spells stop s raw) : unescape raw = s := by
  induction h with
  | nil => rfl
  | plain _ hamp _ _ ih => rw [unescape_cons_of_ne hamp, ih]
  | entity hknown _ ih => rw [unescape_entity hknown, ih]

/-- No sign of an entity is an `&`, so that no entity begins in another one. -/
theorem suffix_of_suffix_append (h : '&' :: rest <:+ s ++ raw) (hs : '&' ∉ s) :
    '&' :: rest <:+ raw := by
  induction s with
  | nil => exact h
  | cons c s ih =>
    rcases List.suffix_cons_iff.1 h with heq | h
    · injection heq with hc
      exact absurd (hc ▸ List.mem_cons_self) hs
    · exact ih h fun hmem => hs (List.mem_cons_of_mem _ hmem)

/-- **An entity begins with every `&`** of a spelling. -/
theorem Spells.entity_of_suffix (h : Spells stop s raw) (hrest : '&' :: rest <:+ raw) :
    ∃ e ∈ entities, e.2 ++ [';'] <+: rest := by
  induction h with
  | nil => cases List.suffix_nil.1 hrest
  | plain _ hamp _ _ ih =>
    rcases List.suffix_cons_iff.1 hrest with heq | hrest
    · injection heq with hc
      exact absurd hc.symm hamp
    · exact ih hrest
  | @entity c name s raw hknown _ ih =>
    rcases List.suffix_cons_iff.1 hrest with heq | hrest
    · injection heq with _ heq
      exact ⟨_, hknown, raw, by simp [heq]⟩
    · have hname : ∀ e ∈ entities, '&' ∉ e.2 ++ [';'] := by decide
      refine ih (suffix_of_suffix_append (s := name ++ [';']) ?_ (hname _ hknown))
      simpa using hrest

end

/-- An escaped text is a spelling of the text. -/
theorem spells_escape_lt (s : List Char) : Spells '<' s (escape s) := spells_escape (Or.inl rfl) s

/-- **Escaping is faithful.**  It comes to one pass over the text; no delimiter is left and
    every `&` begins an entity; and whoever reads the entities from left to right gets the
    text back, so that different texts stay different. -/
theorem escape_faithful :
    (∀ s, escape s = s.flatMap escapeChar) ∧
    (∀ s, ∀ c ∈ escape s, c ≠ '<' ∧ c ≠ '>' ∧ c ≠ '"' ∧ c ≠ '\x27') ∧
    (∀ s rest, '&' :: rest <:+ escape s → ∃ e ∈ entities, e.2 ++ [';'] <+: rest) ∧
    (∀ s, unescape (escape s) = s) ∧
    Function.Injective escape := by
  have hread : ∀ s, unescape (escape s) = s := fun s => (spells_escape_lt s).unescape_eq
  refine ⟨escape_eq_flatMap, ?_, fun s _ h => (spells_escape_lt s).entity_of_suffix h, hread,
    Function.LeftInverse.injective hread⟩
  intro s c hc
  have hdelimiter := mem_escape hc
  simpa [isDelimiter, and_assoc] using hdelimiter

/-- A text that holds an entity already is not taken for the character it stands for. -/
theorem faithful_entity :
    '&' :: "amp;lt;".toList <:+ escape "<&lt;".toList ∧
      (∃ e ∈ entities, e.2 ++ [';'] <+: "amp;lt;".toList) ∧
      escape "<&lt;".toList ≠ escape "<<".toList := by
  obtain ⟨-, -, hentity, -, hinjective⟩ := escape_faithful
  have hsuffix : '&' :: "amp;lt;".toList <:+ escape "<&lt;".toList := ⟨"&lt;".toList, by decide⟩
  exact ⟨hsuffix, hentity _ _ hsuffix, hinjective.ne (by decide)⟩

end Swimlane.Xml
