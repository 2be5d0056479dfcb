/-
  Swimlane — what document identifiers belong to.

  The identifiers of a document are words with underscores between them.  An
  element is called by the way to it, two words for each step: what is stepped
  to, and its number.  Shapes and edges, diagrams and planes are called after
  the element that they show.

  * `Bearer.text`: the identifier of an element, a shape, a diagram or a plane.
  * `underscored_injective`: words without underscores are read back.
  * `Bearer.text_injective`: so an identifier says what it belongs to.
-/
import Swimlane.Proofs.Xml.Unambiguous

namespace Swimlane.Document

open Xml (upTo_unique)

/-! ## Words -/

/-- Words with underscores between them. -/
def underscored : List String → String
  | [] => ""
  | [w] => w
  | w :: v :: ws => w ++ "_" ++ underscored (v :: ws)

/-- **Words without underscores are read back.** -/
theorem underscored_injective {vs ws : List String} (hv : vs ≠ []) (hw : ws ≠ [])
    (hvs : ∀ v ∈ vs, '_' ∉ v.toList) (hws : ∀ w ∈ ws, '_' ∉ w.toList)
    (h : underscored vs = underscored ws) : vs = ws := by
  induction vs generalizing ws with
  | nil => exact absurd rfl hv
  | cons v vs ih =>
    obtain ⟨w, ws, rfl⟩ := List.exists_cons_of_ne_nil hw
    obtain ⟨hv', hvs⟩ := List.forall_mem_cons.1 hvs
    obtain ⟨hw', hws⟩ := List.forall_mem_cons.1 hws
    cases vs with
    | nil =>
      cases ws with
      | nil => rw [show v = w from h]
      | cons y ws =>
        have hv : v = w ++ "_" ++ underscored (y :: ws) := h
        exact absurd (by simp [hv]) hv'
    | cons x vs =>
      cases ws with
      | nil =>
        have hw : v ++ "_" ++ underscored (x :: vs) = w := h
        exact absurd (by simp [← hw]) hw'
      | cons y ws =>
        have hchars : v.toList ++ '_' :: (underscored (x :: vs)).toList =
            w.toList ++ '_' :: (underscored (y :: ws)).toList := by
          have hlists := congrArg String.toList h
          simpa [underscored] using hlists
        obtain ⟨hhead, htail⟩ := upTo_unique hv' hw' hchars
        rw [String.toList_injective hhead, ih (by simp) (by simp) hvs hws
          (String.toList_injective htail)]

/-! ## Bearers -/

/-- A step to an element: what it is, and its number. -/
structure Step where
  word : String
  number : String
  deriving DecidableEq

/-- The way to an element, from the process on. -/
abbrev Way := List Step

def Step.words (s : Step) : List String := [s.word, s.number]

def Way.words (way : Way) : List String := way.flatMap Step.words

/-- What an identifier says of an element. -/
inductive Role where
  | element
  /-- The shape or the edge that shows it. -/
  | shown
  /-- The diagram of what is inside it. -/
  | diagram
  /-- The plane of what is inside it. -/
  | plane
  deriving DecidableEq

/-- What an identifier belongs to. -/
structure Bearer where
  role : Role
  way : Way
  deriving DecidableEq

namespace Role

/-- The words before the way. -/
def opening : Role → List String
  | element | shown => []
  | diagram => ["BPMNDiagram"]
  | plane => ["BPMNPlane"]

/-- The words after the way. -/
def closing : Role → List String
  | shown => ["di"]
  | element | diagram | plane => []

end Role

namespace Bearer

def words (b : Bearer) : List String := b.role.opening ++ (b.way.words ++ b.role.closing)

/-- The identifier. -/
def text (b : Bearer) : String := underscored b.words

/-- The way has words without underscores, and what is shown is no diagram. -/
structure Plain (b : Bearer) : Prop where
  way_ne : b.way ≠ []
  words : ∀ w ∈ b.way.words, '_' ∉ w.toList
  shown : b.role = .shown → ∀ w ∈ b.way.words, w ≠ "BPMNDiagram" ∧ w ≠ "BPMNPlane"

end Bearer

theorem Way.words_injective {v w : Way} (h : v.words = w.words) : v = w := by
  induction v generalizing w with
  | nil =>
    cases w with
    | nil => rfl
    | cons t w => cases h
  | cons s v ih =>
    cases w with
    | nil => cases h
    | cons t w =>
      obtain ⟨sword, snumber⟩ := s
      obtain ⟨tword, tnumber⟩ := t
      simp only [words, List.flatMap_cons, Step.words, List.cons_append, List.nil_append,
        List.cons.injEq] at h
      obtain ⟨rfl, rfl, h⟩ := h
      rw [ih h]

theorem Way.length_words (way : Way) : way.words.length = 2 * way.length := by
  induction way with
  | nil => rfl
  | cons s way ih =>
    simp only [words] at ih
    simp [words, Step.words, ih]
    omega

namespace Bearer

variable {b c : Bearer}

theorem Plain.words_ne (h : b.Plain) : b.way.words ≠ [] := by
  obtain ⟨s, way, hway⟩ := List.exists_cons_of_ne_nil h.way_ne
  simp [hway, Way.words, Step.words]

theorem Plain.underscore_notMem (h : b.Plain) : ∀ w ∈ b.words, '_' ∉ w.toList := by
  have hrole : ∀ w ∈ b.role.opening ++ b.role.closing, '_' ∉ w.toList := by
    cases b.role <;> decide
  intro w hw
  simp only [Bearer.words, List.mem_append] at hw
  rcases hw with hw | hw | hw
  · exact hrole w (List.mem_append_left _ hw)
  · exact h.words w hw
  · exact hrole w (List.mem_append_right _ hw)

/-- What is shown is not called like a diagram or a plane. -/
theorem Plain.words_ne_of_shown (h : b.Plain) (hb : b.role = .shown)
    (hc : c.role = .diagram ∨ c.role = .plane) : b.words ≠ c.words := by
  intro heq
  obtain ⟨w, ws, hwords⟩ := List.exists_cons_of_ne_nil h.words_ne
  have hw := h.shown hb w (by simp [hwords])
  rcases hc with hc | hc <;>
    simp_all [Bearer.words, Role.opening, Role.closing]

/-- The number of words is even for elements only. -/
theorem length_words (b : Bearer) :
    b.words.length = 2 * b.way.length + if b.role = .element then 0 else 1 := by
  obtain ⟨role, way⟩ := b
  cases role <;> simp [Bearer.words, Role.opening, Role.closing, Way.length_words, Nat.add_comm]

theorem Plain.role_eq (hb : b.Plain) (hc : c.Plain) (h : b.words = c.words) : b.role = c.role := by
  have hparity := congrArg List.length h
  rw [length_words, length_words] at hparity
  have hshown := fun hrole hother => hb.words_ne_of_shown hrole hother h
  have hshown' := fun hrole hother => hc.words_ne_of_shown hrole hother h.symm
  have hopening := congrArg List.head? h
  obtain ⟨rb, wb⟩ := b
  obtain ⟨rc, wc⟩ := c
  cases rb <;> cases rc <;> simp [Bearer.words, Role.opening] at * <;> omega

/-- **Identifiers say what they belong to.** -/
theorem text_injective (hb : b.Plain) (hc : c.Plain) (h : b.text = c.text) : b = c := by
  have hne : ∀ {d : Bearer}, d.Plain → d.words ≠ [] := by
    intro d hd hnil
    exact hd.words_ne (List.append_eq_nil_iff.1 (List.append_eq_nil_iff.1 hnil).2).1
  have hwords := underscored_injective (hne hb) (hne hc) hb.underscore_notMem hc.underscore_notMem h
  have hrole := hb.role_eq hc hwords
  rw [Bearer.words, Bearer.words, hrole, List.append_cancel_left_eq,
    List.append_cancel_right_eq] at hwords
  obtain ⟨role, way⟩ := b
  obtain ⟨_, way'⟩ := c
  obtain rfl := Way.words_injective hwords
  obtain rfl := hrole
  rfl

end Bearer

/-! ## Identifiers inside elements -/

/-- With what the identifiers inside an element begin. -/
def Way.stem : Way → String
  | [] => ""
  | s :: way => s.word ++ "_" ++ s.number ++ "_" ++ Way.stem way

theorem Way.stem_concat (way : Way) (s : Step) :
    Way.stem (way ++ [s]) = way.stem ++ s.word ++ "_" ++ s.number ++ "_" := by
  induction way with
  | nil => simp [Way.stem]
  | cons t way ih => simp [Way.stem, ih, String.append_assoc]

/-- Words after a way are written after its stem. -/
theorem underscored_words (way : Way) {ws : List String} (h : ws ≠ []) :
    underscored (Way.words way ++ ws) = Way.stem way ++ underscored ws := by
  induction way with
  | nil => simp [Way.words, Way.stem]
  | cons s way ih =>
    obtain ⟨w, rest, hrest⟩ : ∃ w rest, Way.words way ++ ws = w :: rest :=
      List.exists_cons_of_ne_nil (by simp [h])
    have hwords : Way.words (s :: way) ++ ws = s.word :: s.number :: (Way.words way ++ ws) := by
      simp [Way.words, Step.words]
    rw [hwords, hrest, underscored, underscored, ← hrest, ih, Way.stem]
    simp only [String.append_assoc]

section
variable (way : Way) (s : Step)

theorem words_concat : Way.words (way ++ [s]) = Way.words way ++ s.words := by
  simp [Way.words]

/-- How an element is called. -/
theorem text_element :
    Bearer.text ⟨.element, way ++ [s]⟩ = Way.stem way ++ s.word ++ "_" ++ s.number := by
  simp only [Bearer.text, Bearer.words, Role.opening, Role.closing, words_concat, List.nil_append,
    List.append_nil]
  rw [underscored_words way (by simp [Step.words])]
  simp only [Step.words, underscored, String.append_assoc]

/-- How its shape or edge is called. -/
theorem text_shown :
    Bearer.text ⟨.shown, way ++ [s]⟩ = Bearer.text ⟨.element, way ++ [s]⟩ ++ "_di" := by
  rw [text_element]
  simp only [Bearer.text, Bearer.words, Role.opening, Role.closing, words_concat, List.nil_append,
    List.append_assoc]
  rw [underscored_words way (by simp [Step.words])]
  simp only [Step.words, underscored, List.cons_append, List.nil_append, String.append_assoc]
  rfl

/-- How the diagram of what is inside it is called. -/
theorem text_diagram : Bearer.text ⟨.diagram, way ++ [s]⟩ =
    "BPMNDiagram_" ++ Bearer.text ⟨.element, way ++ [s]⟩ := by
  obtain ⟨w, rest, hrest⟩ : ∃ w rest, Way.words (way ++ [s]) = w :: rest :=
    List.exists_cons_of_ne_nil (by simp [words_concat, Step.words])
  simp only [Bearer.text, Bearer.words, Role.opening, Role.closing, hrest, List.append_nil,
    List.nil_append, List.cons_append, underscored]
  rfl

/-- How the plane of what is inside it is called. -/
theorem text_plane : Bearer.text ⟨.plane, way ++ [s]⟩ =
    "BPMNPlane_" ++ Bearer.text ⟨.element, way ++ [s]⟩ := by
  obtain ⟨w, rest, hrest⟩ : ∃ w rest, Way.words (way ++ [s]) = w :: rest :=
    List.exists_cons_of_ne_nil (by simp [words_concat, Step.words])
  simp only [Bearer.text, Bearer.words, Role.opening, Role.closing, hrest, List.append_nil,
    List.nil_append, List.cons_append, underscored]
  rfl

end

end Swimlane.Document
