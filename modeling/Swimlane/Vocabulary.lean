/-
  Swimlane — words and keywords.

  Labels and keywords are compared word by word, without case and accents.

  * `words` splits a text into its words, the maximal runs of `[a-z0-9]` of its
    folded lower case.
  * A keyword of one word matches a label with that word.  From five
    characters on it is a stem and matches every word that begins with it, so
    that short keywords (`ia`, `api`) do not match inside longer words.
  * A keyword of several words matches a run of consecutive words
    (`matchesKeyword`).
  * `occurs_iff`: a keyword occurs in a label exactly when the label's words
    split into three parts, the middle one of which fits the keyword.
-/
import Swimlane.Text.Letter

namespace Swimlane.Vocabulary

/-! ## Words -/

/-- A word: small letters and digits. -/
abbrev Word := List Char

/-- The characters of words. -/
def isWordChar (c : Char) : Bool :=
  (97 ≤ c.toNat && c.toNat ≤ 122) || (48 ≤ c.toNat && c.toNat ≤ 57)

/-- The runs of word characters; `run` is the one going on, last character
    first. -/
def runs (run : List Char) : List Char → List Word
  | [] => if run.isEmpty then [] else [run.reverse]
  | c :: cs =>
    if isWordChar c then runs (c :: run) cs
    else if run.isEmpty then runs [] cs
    else run.reverse :: runs [] cs

/-- The words of a text. -/
def words (s : String) : List Word := runs [] (Text.fold (Text.lower s.toList))

/-! ## Keywords -/

/-- The length from which on a word of a keyword is a stem. -/
def stemLength : Nat := 5

/-- Whether a word of a label fits a word of a keyword. -/
def fits (keyword word : Word) : Bool :=
  if stemLength ≤ keyword.length then keyword.isPrefixOf word else word = keyword

/-- Whether the label begins with a run of words that fits the keyword. -/
def beginsWith : List Word → List Word → Bool
  | [], _ => true
  | _ :: _, [] => false
  | k :: ks, w :: ws => fits k w && beginsWith ks ws

/-- Whether a run of words somewhere in the label fits the keyword. -/
def occurs (keyword : List Word) : List Word → Bool
  | [] => beginsWith keyword []
  | w :: ws => beginsWith keyword (w :: ws) || occurs keyword ws

/-- Whether a label, given by its words, matches a keyword.  A keyword without
    words matches nothing. -/
def matchesKeyword (label : List Word) (keyword : String) : Bool :=
  !(words keyword).isEmpty && occurs (words keyword) label

/-- Whether a label matches one of the keywords. -/
def matchesAny (label : List Word) (keywords : List String) : Bool :=
  keywords.any (matchesKeyword label)

/-! ## Small facts -/

/-- A run fits a keyword word by word. -/
inductive Fits : List Word → List Word → Prop
  | nil : Fits [] []
  | cons {k w : Word} {ks ws : List Word} : fits k w = true → Fits ks ws → Fits (k :: ks) (w :: ws)

theorem beginsWith_iff {ks ws : List Word} :
    beginsWith ks ws = true ↔ ∃ run rest, ws = run ++ rest ∧ Fits ks run := by
  induction ks generalizing ws with
  | nil => exact ⟨fun _ => ⟨[], ws, rfl, .nil⟩, fun _ => by cases ws <;> rfl⟩
  | cons k ks ih =>
    cases ws with
    | nil =>
      constructor
      · intro h
        cases h
      · rintro ⟨run, rest, h, hf⟩
        cases hf
        cases h
    | cons w ws =>
      simp only [beginsWith, Bool.and_eq_true, ih]
      constructor
      · rintro ⟨hk, run, rest, rfl, hf⟩
        exact ⟨w :: run, rest, rfl, .cons hk hf⟩
      · rintro ⟨run, rest, h, hf⟩
        cases hf with
        | cons hk hf =>
          injection h with hw hws
          subst hw
          exact ⟨hk, _, rest, hws, hf⟩

/-- **A keyword occurs** in a label exactly when a run of the label's words fits
    it. -/
theorem occurs_iff {ks ws : List Word} :
    occurs ks ws = true ↔ ∃ front run rest, ws = front ++ run ++ rest ∧ Fits ks run := by
  induction ws with
  | nil =>
    rw [occurs, beginsWith_iff]
    constructor
    · rintro ⟨run, rest, h, hf⟩
      exact ⟨[], run, rest, h, hf⟩
    · rintro ⟨front, run, rest, h, hf⟩
      have h' := List.append_eq_nil_iff.1 h.symm
      have hr := (List.append_eq_nil_iff.1 h'.1).2
      exact ⟨run, [], by simp [hr], hf⟩
  | cons w ws ih =>
    rw [occurs, Bool.or_eq_true, beginsWith_iff, ih]
    constructor
    · rintro (⟨run, rest, h, hf⟩ | ⟨front, run, rest, h, hf⟩)
      · exact ⟨[], run, rest, h, hf⟩
      · exact ⟨w :: front, run, rest, by simp [h], hf⟩
    · rintro ⟨front, run, rest, h, hf⟩
      cases front with
      | nil => exact Or.inl ⟨run, rest, h, hf⟩
      | cons f front =>
        injection h with _ h
        exact Or.inr ⟨front, run, rest, h, hf⟩

end Swimlane.Vocabulary
