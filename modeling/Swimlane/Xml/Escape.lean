/-
  Swimlane — characters that stand for themselves in XML, and those that do
  not.

  The five characters with a meaning of their own are written as entities.  They
  are replaced one after the other in the whole text, first of all the `&` with
  which entities begin.

  * `escape_eq_flatMap`: so each character is replaced once.
  * `mem_escape`: none of the four that could end a text or an attribute is left.
-/

namespace Swimlane.Xml

/-- The text with a character replaced wherever it stands. -/
def replace (c : Char) (replacement cs : List Char) : List Char :=
  cs.flatMap fun d => if d = c then replacement else [d]

/-- How a text is written. -/
def escape (cs : List Char) : List Char :=
  replace '&' ['&', 'a', 'm', 'p', ';'] cs
    |> replace '<' ['&', 'l', 't', ';']
    |> replace '>' ['&', 'g', 't', ';']
    |> replace '"' ['&', 'q', 'u', 'o', 't', ';']
    |> replace '\x27' ['&', 'a', 'p', 'o', 's', ';']

/-- How a character is written in a text or an attribute. -/
def escapeChar : Char → List Char
  | '&' => ['&', 'a', 'm', 'p', ';']
  | '<' => ['&', 'l', 't', ';']
  | '>' => ['&', 'g', 't', ';']
  | '"' => ['&', 'q', 'u', 'o', 't', ';']
  | '\x27' => ['&', 'a', 'p', 'o', 's', ';']
  | c => [c]

theorem replace_append (c : Char) (replacement as bs : List Char) :
    replace c replacement (as ++ bs) = replace c replacement as ++ replace c replacement bs :=
  List.flatMap_append

theorem replace_singleton_of_ne {c d : Char} (h : d ≠ c) (replacement : List Char) :
    replace c replacement [d] = [d] := by
  simp [replace, h]

/-- A later replacement finds nothing to replace in an entity. -/
theorem escape_singleton (c : Char) : escape [c] = escapeChar c := by
  unfold escapeChar
  split
  case h_6 hamp hlt hgt hquote hapos =>
    rw [escape, replace_singleton_of_ne hamp, replace_singleton_of_ne hlt,
      replace_singleton_of_ne hgt, replace_singleton_of_ne hquote, replace_singleton_of_ne hapos]
  all_goals rfl

/-- **The replacements come to one pass** over the text. -/
theorem escape_eq_flatMap (cs : List Char) : escape cs = cs.flatMap escapeChar := by
  induction cs with
  | nil => rfl
  | cons c cs ih =>
    have happend : escape ([c] ++ cs) = escape [c] ++ escape cs := by
      simp only [escape, replace_append]
    rw [List.flatMap_cons, ← ih, ← escape_singleton, ← happend, List.singleton_append]

/-- The characters that could end a text or an attribute. -/
def isDelimiter (c : Char) : Bool := c = '<' || c = '>' || c = '"' || c = '\x27'

theorem mem_escapeChar {c d : Char} (h : d ∈ escapeChar c) : isDelimiter d = false := by
  unfold escapeChar at h
  split at h
  case h_6 => simp_all [isDelimiter]
  all_goals
    simp only [List.mem_cons, List.not_mem_nil, or_false] at h
    rcases h with rfl | rfl | rfl | rfl | rfl | rfl <;> rfl

/-- **No delimiter is left** in an escaped text. -/
theorem mem_escape {cs : List Char} {d : Char} (h : d ∈ escape cs) : isDelimiter d = false := by
  rw [escape_eq_flatMap] at h
  obtain ⟨c, _, hd⟩ := List.mem_flatMap.1 h
  exact mem_escapeChar hd

end Swimlane.Xml
