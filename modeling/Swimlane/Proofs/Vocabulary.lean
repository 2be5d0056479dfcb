/-
  Swimlane — the labels that a keyword matches.

  A keyword matches a label if a run of consecutive words of the label is what the
  keyword asks for, word by word.  Nothing but the words of both counts.

  * `Meets keyword word`: the word of a label is that of the keyword, or begins with
    it, if that is long enough for a stem.  `fits_iff`, `fits_iff_forall₂`: so a word
    fits, and so a run fits.
  * `matchesKeyword_iff`: the labels that a keyword matches;
    `matchesKeyword_of_infix`: more words do no harm.
  * `runs_append_of_not`: the words on both sides of a character that is in no word.
    `words_spaced_append`: the words of texts with a space between them.
  * `IsWord`, `isWord_of_mem_words`: words are not empty and have plain letters and
    digits only; `words_spaced`: so they are the words of the text that they make.
  * `keyword_matches_run`: all of this for a label and a keyword.
-/
import Mathlib.Data.List.Forall2
import Swimlane.Proofs.Identifier
import Swimlane.Vocabulary

namespace Swimlane.Vocabulary

/-! ## Runs of words -/

/-- The word of a label meets the word of a keyword: it is the same, or it begins
    with it, and that has at least five characters. -/
def Meets (keyword word : Word) : Prop := word = keyword ∨ 5 ≤ keyword.length ∧ keyword <+: word

section
variable {keyword label word : List Char} {ks ws : List Word} {k : String}

theorem fits_iff : fits keyword word = true ↔ Meets keyword word := by
  unfold fits Meets
  by_cases hstem : stemLength ≤ keyword.length
  · rw [if_pos hstem, List.isPrefixOf_iff_prefix]
    constructor
    · exact fun h => Or.inr ⟨hstem, h⟩
    · rintro (rfl | ⟨-, h⟩)
      · exact List.prefix_rfl
      · exact h
  · rw [if_neg hstem, decide_eq_true_eq]
    constructor
    · exact Or.inl
    · rintro (h | ⟨hlong, -⟩)
      · exact h
      · exact absurd hlong hstem

theorem fits_iff_forall₂ : Fits ks ws ↔ List.Forall₂ Meets ks ws := by
  constructor
  · intro h
    induction h with
    | nil => exact .nil
    | cons hk _ ih => exact .cons (fits_iff.1 hk) ih
  · intro h
    induction h with
    | nil => exact .nil
    | cons hk _ ih => exact .cons (fits_iff.2 hk) ih

/-- **A keyword matches** where the words of the label split into three parts, the
    middle one of which meets the keyword word by word. -/
theorem matchesKeyword_iff : matchesKeyword ws k = true ↔
    words k ≠ [] ∧ ∃ front run rest, ws = front ++ run ++ rest ∧
      List.Forall₂ Meets (words k) run := by
  simp only [matchesKeyword, Bool.and_eq_true, Bool.not_eq_true', List.isEmpty_eq_false_iff,
    occurs_iff, fits_iff_forall₂]

/-- **More words do no harm.** -/
theorem matchesKeyword_of_infix {longer : List Word} (hmore : ws <:+: longer)
    (h : matchesKeyword ws k = true) : matchesKeyword longer k = true := by
  obtain ⟨before, after, rfl⟩ := hmore
  obtain ⟨hk, front, run, rest, rfl, hrun⟩ := matchesKeyword_iff.1 h
  exact matchesKeyword_iff.2 ⟨hk, before ++ front, run, rest ++ after, by simp, hrun⟩

end

/-! ## The words of a text -/

section
variable {run cs : List Char} {c : Char}

/-- Nothing that is before a character in no word goes on after it. -/
theorem runs_append_of_not (hc : isWordChar c = false) (run cs ds : List Char) :
    runs run (cs ++ c :: ds) = runs run cs ++ runs [] ds := by
  induction cs generalizing run with
  | nil =>
    simp only [List.nil_append, runs, hc]
    cases run <;> simp
  | cons d cs ih =>
    simp only [List.cons_append, runs]
    by_cases hd : isWordChar d = true
    · simp only [hd, ih, if_true]
    · simp only [hd, ih, Bool.false_eq_true, if_false]
      cases run <;> simp

/-- Word characters make the run longer. -/
theorem runs_of_isWordChar (h : ∀ c ∈ cs, isWordChar c = true) (run : List Char) :
    runs run cs = if (run.reverse ++ cs).isEmpty then [] else [run.reverse ++ cs] := by
  induction cs generalizing run with
  | nil => simp [runs]
  | cons c cs ih =>
    obtain ⟨hc, hcs⟩ := List.forall_mem_cons.1 h
    simp [runs, hc, ih hcs]

/-- **The words of texts** with a space between them are those of the one and the
    other. -/
theorem words_spaced_append (s t : String) : words (s ++ " " ++ t) = words s ++ words t := by
  have hspace : (Text.lowerChar ' ').map Text.foldChar = [' '] := by decide
  have hchars : Text.fold (Text.lower (s ++ " " ++ t).toList) =
      Text.fold (Text.lower s.toList) ++ ' ' :: Text.fold (Text.lower t.toList) := by
    simp [Text.fold, Text.lower, hspace]
  rw [words, hchars, runs_append_of_not (by decide)]
  rfl

/-- The words of texts: runs of plain letters and digits. -/
structure IsWord (w : Word) : Prop where
  ne_nil : w ≠ []
  chars : ∀ c ∈ w, isWordChar c = true

theorem isWord_reverse (hne : run ≠ []) (hrun : ∀ c ∈ run, isWordChar c = true) :
    IsWord run.reverse :=
  ⟨by simp [hne], fun c hc => hrun c (List.mem_reverse.1 hc)⟩

theorem isWord_of_mem_runs {w : Word} (hrun : ∀ c ∈ run, isWordChar c = true)
    (h : w ∈ runs run cs) : IsWord w := by
  have hnone : ∀ c ∈ ([] : List Char), isWordChar c = true := List.forall_mem_nil _
  induction cs generalizing run with
  | nil =>
    rw [runs] at h
    split at h
    · cases h
    · rename_i hne
      rw [List.mem_singleton.1 h]
      exact isWord_reverse (by simpa using hne) hrun
  | cons c cs ih =>
    rw [runs] at h
    split at h
    · rename_i hc
      exact ih (List.forall_mem_cons.2 ⟨hc, hrun⟩) h
    · split at h
      · exact ih hnone h
      · rename_i hne
        rcases List.mem_cons.1 h with rfl | h
        · exact isWord_reverse (by simpa using hne) hrun
        · exact ih hnone h

/-- **The words of a text are words.** -/
theorem isWord_of_mem_words {s : String} {w : Word} (h : w ∈ words s) : IsWord w :=
  isWord_of_mem_runs (fun c hc => by cases hc) h

/-! ## Words in a row -/

/-- The text of words with single spaces between them. -/
def spaced (ws : List Word) : String := String.ofList ([' '].intercalate ws)

theorem lowerChar_of_isWordChar (h : isWordChar c = true) : Text.lowerChar c = [c] := by
  refine Identifier.lowerChar_of_isIdChar ?_
  rw [isWordChar] at h
  rw [Identifier.isIdChar, h]
  rfl

theorem foldChar_of_isWordChar (h : isWordChar c = true) : Text.foldChar c = c := by
  have hplain : ∀ row ∈ Text.accents, ∀ a ∈ row.2, isWordChar a = false := by
    simp [Text.accents, isWordChar]
  have hnone : (Text.accents.find? fun row => row.2.contains c) = none := by
    rw [List.find?_eq_none]
    intro row hrow hmem
    have hc := hplain row hrow c (List.contains_iff_mem.1 hmem)
    rw [h] at hc
    cases hc
  rw [Text.foldChar, hnone]

/-- Words stay as they are in lower case without accents. -/
theorem fold_lower_of_isWordChar (h : ∀ c ∈ cs, isWordChar c = true) :
    Text.fold (Text.lower cs) = cs := by
  rw [Text.lower, List.flatMap_congr fun c hc => lowerChar_of_isWordChar (h c hc),
    List.flatMap_singleton', Text.fold, List.map_congr_left fun c hc =>
    foldChar_of_isWordChar (h c hc), List.map_id']

theorem words_ofList_of_isWord {w : Word} (h : IsWord w) : words (String.ofList w) = [w] := by
  rw [words, String.toList_ofList, fold_lower_of_isWordChar h.chars, runs_of_isWordChar h.chars]
  simp [h.ne_nil]

theorem spaced_cons_cons (w v : Word) (ws : List Word) :
    spaced (w :: v :: ws) = String.ofList w ++ " " ++ spaced (v :: ws) := by
  apply String.ext
  simp [spaced, List.intercalate_cons_cons]

/-- **Words in a row** are the words of the text that they make. -/
theorem words_spaced {ws : List Word} (h : ∀ w ∈ ws, IsWord w) : words (spaced ws) = ws := by
  induction ws with
  | nil => rfl
  | cons w ws ih =>
    obtain ⟨hw, hws⟩ := List.forall_mem_cons.1 h
    cases ws with
    | nil => simpa [spaced] using words_ofList_of_isWord hw
    | cons v ws => rw [spaced_cons_cons, words_spaced_append, words_ofList_of_isWord hw, ih hws]; rfl

end

/-! ## Labels and keywords -/

/-- **What a keyword matches.**  It matches a label exactly if it has words and a run
    of as many consecutive words of the label meets them one by one.  Then it matches
    every label with more words before or after these, such as a longer text that goes
    on with a space.  Only the words of both count: they may be written in a row. -/
theorem keyword_matches_run (label keyword : String) :
    (matchesKeyword (words label) keyword = true ↔
      words keyword ≠ [] ∧ ∃ front run rest, words label = front ++ run ++ rest ∧
        (words keyword).length = run.length ∧
        ∀ (i : ℕ) (hk : i < (words keyword).length) (hr : i < run.length),
          run[i] = (words keyword)[i] ∨
            5 ≤ (words keyword)[i].length ∧ (words keyword)[i] <+: run[i]) ∧
    (∀ longer : String, words label <:+: words longer →
      matchesKeyword (words label) keyword = true →
        matchesKeyword (words longer) keyword = true) ∧
    (∀ front rest : String, words (front ++ " " ++ label ++ " " ++ rest) =
      words front ++ words label ++ words rest) ∧
    (∀ keyword : String, matchesKeyword (words (spaced (words label))) keyword =
      matchesKeyword (words label) keyword) ∧
    ∀ label : List Word, matchesKeyword label (spaced (words keyword)) =
      matchesKeyword label keyword := by
  refine ⟨?_, fun longer => matchesKeyword_of_infix, fun front rest => ?_, fun keyword => ?_,
    fun label => ?_⟩
  · rw [matchesKeyword_iff]
    simp only [List.forall₂_iff_get, List.get_eq_getElem, Meets]
  · rw [words_spaced_append, words_spaced_append]
  · rw [words_spaced fun w hw => isWord_of_mem_words hw]
  · rw [matchesKeyword, matchesKeyword, words_spaced fun w hw => isWord_of_mem_words hw]

/-- A label in which a keyword of a short word and a stem matches two words. -/
def corrective : String := "Registrar AÇÃO corretiva, já"

theorem matches_corrective :
    matchesKeyword (words corrective) "ação corret" = true ∧
      words corrective <:+: words ("Hoje:" ++ " " ++ corrective ++ " " ++ "(urgente)") ∧
      matchesKeyword (words ("Hoje:" ++ " " ++ corrective ++ " " ++ "(urgente)"))
        "ação corret" = true := by
  obtain ⟨hiff, hmore, hwords, -, -⟩ := keyword_matches_run corrective "ação corret"
  have hlabel : words corrective =
      ["registrar".toList] ++ ["acao".toList, "corretiva".toList] ++ ["ja".toList] := by
    decide +kernel
  have hkeyword : words "ação corret" = ["acao".toList, "corret".toList] := by decide +kernel
  have hmatch : matchesKeyword (words corrective) "ação corret" = true := by
    refine hiff.2 ⟨by simp [hkeyword], _, _, _, hlabel, by simp [hkeyword], ?_⟩
    simp only [hkeyword]
    rintro (_ | _ | i) hk hr
    · exact Or.inl rfl
    · right
      show 5 ≤ "corret".toList.length ∧ "corret".toList <+: "corretiva".toList
      decide
    · exact absurd hk (by simp)
  have hinfix : words corrective <:+: words ("Hoje:" ++ " " ++ corrective ++ " " ++ "(urgente)") :=
    ⟨_, _, (hwords "Hoje:" "(urgente)").symm⟩
  exact ⟨hmatch, hinfix, hmore _ hinfix hmatch⟩

end Swimlane.Vocabulary
