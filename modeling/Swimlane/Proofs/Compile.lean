/-
  Swimlane — compilation never ends in a defect.

  * `exists_compile`: a draft that hangs together is compiled, whatever the
    settings.
  * `Refused`: why a candidate is refused, stage by stage.
  * `compile_outcome`: compilation fails with what the first failing stage
    says, and succeeds if no stage fails.
-/
import Swimlane.Compile
import Swimlane.Proofs.Document.Rendering
import Swimlane.Proofs.Process

namespace Swimlane

open Swimlane.Graph (EachLevel Linked)

/-! ## Drafts -/

theorem eachLevel_linked_toGraph {d : Draft} (h : d.Coherent) (rules : RuleSet) :
    EachLevel Linked (d.toGraph rules) :=
  (Graph.eachLevel_ofDraft (Graph.linked_ofDraft h)).linked_foldCycle rules

/-- **A draft that hangs together is compiled.** -/
theorem exists_compile {d : Draft} (h : d.Coherent) (config : Config) :
    ∃ c, d.compile config = .ok c := by
  have hlevels := eachLevel_linked_toGraph h config.rules
  obtain ⟨xml, hxml⟩ := exists_render_layout hlevels config.grid config.theme {}
  unfold Draft.compile
  simp only [hxml]
  exact ⟨_, rfl⟩

/-! ## Candidates -/

/-- Why a candidate is refused that is read with the result `read`: the first of
    the four stages that fails. -/
inductive Refused (config : Config) (read : Except Fault Json) : Fault → Prop
  | limits {f : Fault} (h : config.limits.check = .error f) : Refused config read f
  | layout {f : Fault} (hlimits : config.limits.check = .ok ())
      (h : config.grid.check = .error f) : Refused config read f
  | reading {f : Fault} (hlimits : config.limits.check = .ok ())
      (hlayout : config.grid.check = .ok ()) (h : read = .error f) : Refused config read f
  | schema {v : Json} {violation : Draft.Violation} (hlimits : config.limits.check = .ok ())
      (hlayout : config.grid.check = .ok ()) (hread : read = .ok v)
      (h : Draft.validate config.limits v = .error violation) :
      Refused config read (.schema violation)

/-- The stages after the one that reads. -/
def compileRead (config : Config) (read : Except Fault Json) : Except Fault Compiled := do
  config.check
  let v ← read
  compileChecked config v

section
variable {config : Config} {read : Except Fault Json} {v : Json} {raw : String} {f : Fault}

theorem compileValue_eq : compileValue config v = compileRead config (.ok v) := rfl

theorem compileText_eq :
    compileText config raw = compileRead config (readCandidate config.limits raw) := rfl

theorem check_eq_ok :
    config.check = .ok () ↔ config.limits.check = .ok () ∧ config.grid.check = .ok () := by
  unfold Config.check
  rw [bind_eq_ok]
  constructor
  · rintro ⟨⟨⟩, hlimits, hlayout⟩
    exact ⟨hlimits, hlayout⟩
  · rintro ⟨hlimits, hlayout⟩
    exact ⟨(), hlimits, hlayout⟩

theorem check_eq_error : config.check = .error f ↔ config.limits.check = .error f ∨
    config.limits.check = .ok () ∧ config.grid.check = .error f := by
  unfold Config.check
  rw [bind_eq_error]
  constructor
  · rintro (hlimits | ⟨⟨⟩, hlimits, hlayout⟩)
    · exact Or.inl hlimits
    · exact Or.inr ⟨hlimits, hlayout⟩
  · rintro (hlimits | ⟨hlimits, hlayout⟩)
    · exact Or.inl hlimits
    · exact Or.inr ⟨(), hlimits, hlayout⟩

/-- The defaults lie in their ranges. -/
theorem check_default : ({} : Config).check = .ok () := by
  refine check_eq_ok.2 ⟨rfl, ?_⟩
  rw [Grid.check, if_pos (by decide +kernel)]

/-- After the settings, only the demands on a draft can fail. -/
theorem exists_compileChecked :
    (∃ c, compileChecked config v = .ok c) ↔ ∃ d, Draft.validate config.limits v = .ok d := by
  unfold compileChecked
  cases hvalid : Draft.validate config.limits v with
  | error violation => simp
  | ok d => simpa using exists_compile (Draft.coherent_of_validate hvalid) config

theorem compileChecked_eq_error : compileChecked config v = .error f ↔
    ∃ violation, Draft.validate config.limits v = .error violation ∧ f = .schema violation := by
  unfold compileChecked
  cases hvalid : Draft.validate config.limits v with
  | error violation => simp [eq_comm]
  | ok d =>
    obtain ⟨c, hc⟩ := exists_compile (Draft.coherent_of_validate hvalid) config
    simp [hc]

theorem exists_compileRead : (∃ c, compileRead config read = .ok c) ↔
    config.limits.check = .ok () ∧ config.grid.check = .ok () ∧
      ∃ v, read = .ok v ∧ ∃ d, Draft.validate config.limits v = .ok d := by
  simp only [← exists_compileChecked]
  rw [← and_assoc, ← check_eq_ok]
  unfold compileRead
  constructor
  · rintro ⟨c, hc⟩
    obtain ⟨⟨⟩, hcheck, hc⟩ := bind_eq_ok.1 hc
    obtain ⟨v, hread, hc⟩ := bind_eq_ok.1 hc
    exact ⟨hcheck, v, hread, c, hc⟩
  · rintro ⟨hcheck, v, hread, c, hc⟩
    refine ⟨c, bind_eq_ok.2 ⟨(), hcheck, ?_⟩⟩
    exact bind_eq_ok.2 ⟨v, hread, hc⟩

theorem compileRead_eq_error : compileRead config read = .error f ↔ Refused config read f := by
  unfold compileRead
  rw [bind_eq_error]
  constructor
  · rintro (hcheck | ⟨⟨⟩, hcheck, hrest⟩)
    · rcases check_eq_error.1 hcheck with hlimits | ⟨hlimits, hlayout⟩
      · exact .limits hlimits
      · exact .layout hlimits hlayout
    · obtain ⟨hlimits, hlayout⟩ := check_eq_ok.1 hcheck
      rcases bind_eq_error.1 hrest with hread | ⟨v, hread, hrest⟩
      · exact .reading hlimits hlayout hread
      · obtain ⟨violation, hviolation, rfl⟩ := compileChecked_eq_error.1 hrest
        exact .schema hlimits hlayout hread hviolation
  · intro h
    cases h with
    | limits hlimits => exact Or.inl (check_eq_error.2 (Or.inl hlimits))
    | layout hlimits hlayout => exact Or.inl (check_eq_error.2 (Or.inr ⟨hlimits, hlayout⟩))
    | reading hlimits hlayout hread =>
      refine Or.inr ⟨(), check_eq_ok.2 ⟨hlimits, hlayout⟩, ?_⟩
      exact bind_eq_error.2 (Or.inl hread)
    | schema hlimits hlayout hread hviolation =>
      refine Or.inr ⟨(), check_eq_ok.2 ⟨hlimits, hlayout⟩, ?_⟩
      refine bind_eq_error.2 (Or.inr ⟨_, hread, ?_⟩)
      exact compileChecked_eq_error.2 ⟨_, hviolation, rfl⟩

/-! ## Faults -/

theorem isUserFault_of_limits (h : config.limits.check = .error f) : f.isUserFault = true := by
  unfold Limits.check at h
  split at h
  · cases h
    rfl
  · cases h

theorem isUserFault_of_layout (h : config.grid.check = .error f) : f.isUserFault = true := by
  unfold Grid.check at h
  split at h
  · cases h
  · cases h
    rfl

/-- Why a text is not read; what is wrong with its JSON is told of the text without its
    fence. -/
theorem reading_eq_error (h : readCandidate config.limits raw = .error f) :
    (∃ limit actual, f = .responseTooLarge limit actual) ∨ f = .emptyCandidate ∨
      ∃ e, f = .invalidJson e (Text.unfenceString raw) := by
  unfold readCandidate at h
  simp only at h
  split at h
  · cases h
    exact Or.inl ⟨_, _, rfl⟩
  · split at h
    · cases h
      exact Or.inr (Or.inl rfl)
    · split at h
      · cases h
      · cases h
        exact Or.inr (Or.inr ⟨_, rfl⟩)

theorem isUserFault_of_reading (h : readCandidate config.limits raw = .error f) :
    f.isUserFault = true := by
  rcases reading_eq_error h with ⟨_, _, rfl⟩ | rfl | ⟨_, rfl⟩
  · rfl
  · rfl
  · rfl

/-- A candidate is refused for no defect, unless reading it fails with one. -/
theorem Refused.isUserFault (hread : ∀ f, read = .error f → f.isUserFault = true)
    (h : Refused config read f) : f.isUserFault = true := by
  cases h with
  | limits hlimits => exact isUserFault_of_limits hlimits
  | layout _ hlayout => exact isUserFault_of_layout hlayout
  | reading _ _ hfail => exact hread f hfail
  | schema => rfl

/-- A text that is no JSON text is told of without its fence. -/
theorem eq_unfence_of_invalidJson {e : Json.ReadError} {text : String}
    (h : compileText config raw = .error (.invalidJson e text)) : text = Text.unfenceString raw := by
  rw [compileText_eq, compileRead_eq_error] at h
  cases h with
  | limits hlimits =>
    unfold Limits.check at hlimits
    split at hlimits <;> cases hlimits
  | layout _ hlayout =>
    unfold Grid.check at hlayout
    split at hlayout <;> cases hlayout
  | reading _ _ hread =>
    rcases reading_eq_error hread with ⟨_, _, hfault⟩ | hfault | ⟨_, hfault⟩ <;> cases hfault
    rfl

/-- Settings that lie in their ranges are not what a text is refused for. -/
theorem compileText_ne_settings (hcheck : config.check = .ok ()) :
    (∀ item got, compileText config raw ≠ .error (.limitOutOfRange item got)) ∧
      ∀ got, compileText config raw ≠ .error (.toleranceOutOfRange got) := by
  obtain ⟨hlimits, hlayout⟩ := check_eq_ok.1 hcheck
  have hrefused : ∀ f, compileText config raw = .error f →
      readCandidate config.limits raw = .error f ∨ ∃ violation, f = .schema violation := by
    intro f h
    rw [compileText_eq, compileRead_eq_error] at h
    cases h with
    | limits h => cases hlimits.symm.trans h
    | layout _ h => cases hlayout.symm.trans h
    | reading _ _ h => exact Or.inl h
    | schema => exact Or.inr ⟨_, rfl⟩
  constructor
  · intro item got h
    rcases hrefused _ h with hread | ⟨_, hschema⟩
    · rcases reading_eq_error hread with ⟨_, _, h⟩ | h | ⟨_, h⟩ <;> cases h
    · cases hschema
  · intro got h
    rcases hrefused _ h with hread | ⟨_, hschema⟩
    · rcases reading_eq_error hread with ⟨_, _, h⟩ | h | ⟨_, h⟩ <;> cases h
    · cases hschema

end

/-- **Compilation never ends in a defect.**  A value or a text is compiled exactly
    if all its stages succeed, and otherwise the fault is that of the first
    stage that fails. -/
theorem compile_outcome (config : Config) :
    (∀ v, (∃ c, compileValue config v = .ok c) ↔
      config.limits.check = .ok () ∧ config.grid.check = .ok () ∧
        ∃ d, Draft.validate config.limits v = .ok d) ∧
    (∀ raw, (∃ c, compileText config raw = .ok c) ↔
      config.limits.check = .ok () ∧ config.grid.check = .ok () ∧
        ∃ v, readCandidate config.limits raw = .ok v ∧
          ∃ d, Draft.validate config.limits v = .ok d) ∧
    (∀ v f, compileValue config v = .error f ↔ Refused config (.ok v) f) ∧
    (∀ raw f, compileText config raw = .error f ↔
      Refused config (readCandidate config.limits raw) f) ∧
    ∀ defect, (∀ v, compileValue config v ≠ .error (.defect defect)) ∧
      ∀ raw, compileText config raw ≠ .error (.defect defect) := by
  refine ⟨?_, ?_, ?_, ?_, ?_⟩
  · intro v
    rw [compileValue_eq, exists_compileRead]
    simp
  · intro raw
    rw [compileText_eq, exists_compileRead]
  · intro v f
    rw [compileValue_eq, compileRead_eq_error]
  · intro raw f
    rw [compileText_eq, compileRead_eq_error]
  · intro defect
    constructor
    · intro v h
      rw [compileValue_eq, compileRead_eq_error] at h
      cases h.isUserFault fun f hf => by cases hf
    · intro raw h
      rw [compileText_eq, compileRead_eq_error] at h
      cases h.isUserFault fun f hf => isUserFault_of_reading hf

end Swimlane
