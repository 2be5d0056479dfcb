/-
  Swimlane — the settings that a text gives.

  A text of settings is a record, and so are two of its fields.  Every setting is read from
  its own field; what is missing or `null` keeps its default.

  * `Json.said? names key d`: what a record says in a field.  `eq_said?`: this is what is
    read.
  * `Limits.Item`, `Grid.Measure`: the limits and the measures by their names.
  * `Config.limit?`, `Config.measure?`, `Config.setting?`: what a text says of a setting.
  * `Config.RulesOf v s`: what a text says of the rules, or else the default rules.
  * `Config.Follows v c`: the settings `c` are those that `v` gives.
    `follows_of_apply`: so are those that are read.
  * `Config.Admissible v`: what `v` says is in order.  `admissible_iff`: so it gives settings
    that lie in their ranges.
  * `Config.parse_eq_ok`: the texts that give settings.
-/
import Swimlane.Proofs.Compile
import Swimlane.Proofs.RuleSet

namespace Swimlane

/-! ## Fields of records -/

namespace Json

/-- The field of a record, unless it is missing or `null`. -/
def present? (fields : List (String × Json)) (key : String) : Option Json :=
  match fields.lookup key with
  | none | some .null => none
  | some v => some v

/-- What a record says in a field. -/
def said? {α : Type} (names : List String) (key : String) (d : Decoder α) : Decoder α := fun v => do
  let fields ← record? names true v
  let v ← present? fields key
  d v

section
variable {α β : Type} {names : List String} {key : String} {d : Decoder α} {e : Decoder β}
  {f : α → Option β} {v : Json} {fields : List (String × Json)} {x : Option α}

/-- A field that may be absent is read if it is present. -/
theorem optional_eq (d : Decoder α) (fields : List (String × Json)) (key : String) :
    optional d fields key = match present? fields key with
      | none => some none
      | some v => (d v).map some := by
  unfold optional present?
  cases fields.lookup key with
  | none => rfl
  | some v => cases v <;> rfl

/-- What is read of a field, or of a part of it, is what the record says there. -/
theorem bind_eq_said? (hrecord : record? names true v = some fields)
    (hpart : ∀ v a, d v = some a → f a = e v) (h : optional d fields key = some x) :
    x.bind f = said? names key e v := by
  simp only [said?, hrecord, Option.bind_eq_bind, Option.bind_some]
  rw [optional_eq] at h
  cases hpresent : present? fields key with
  | none =>
    rw [hpresent] at h
    cases h
    rfl
  | some w =>
    rw [hpresent] at h
    obtain ⟨a, ha, rfl⟩ := Option.map_eq_some_iff.1 h
    exact hpart w a ha

theorem eq_said? (hrecord : record? names true v = some fields)
    (h : optional d fields key = some x) : x = said? names key d v := by
  rw [← bind_eq_said? hrecord (fun v a ha => ha.symm) h, Option.bind_fun_some]

/-- What is read of a field is nothing if there is nothing, and otherwise what is there. -/
theorem optional_cases (hrecord : record? names true v = some fields)
    (h : optional d fields key = some x) :
    said? names key some v = none ∧ x = none ∨
      ∃ w a, said? names key some v = some w ∧ d w = some a ∧ x = some a := by
  have hsaid : said? names key some v = present? fields key := by
    simp only [said?, hrecord, Option.bind_eq_bind, Option.bind_some, Option.bind_fun_some]
  rw [optional_eq] at h
  rw [hsaid]
  cases hpresent : present? fields key with
  | none =>
    rw [hpresent] at h
    exact Or.inl ⟨rfl, (Option.some.inj h).symm⟩
  | some w =>
    rw [hpresent] at h
    obtain ⟨a, ha, hx⟩ := Option.map_eq_some_iff.1 h
    exact Or.inr ⟨w, a, rfl, ha, hx.symm⟩

end

end Json

open Json (said? natural single text)

/-! ## Limits and measures by their names -/

/-- A measure of the grid. -/
inductive Grid.Measure where
  | originX
  | originY
  | poolHeaderWidth
  | lanePaddingX
  | columnPitch
  | slotWidth
  | rowHeight
  | routeTolerance

def Grid.Measure.name : Grid.Measure → String
  | .originX => "originX"
  | .originY => "originY"
  | .poolHeaderWidth => "poolHeaderWidth"
  | .lanePaddingX => "lanePaddingX"
  | .columnPitch => "columnPitch"
  | .slotWidth => "slotWidth"
  | .rowHeight => "rowHeight"
  | .routeTolerance => "routeTolerance"

def Grid.get {α : Type} (g : Grid α) : Grid.Measure → α
  | .originX => g.originX
  | .originY => g.originY
  | .poolHeaderWidth => g.poolHeaderWidth
  | .lanePaddingX => g.lanePaddingX
  | .columnPitch => g.columnPitch
  | .slotWidth => g.slotWidth
  | .rowHeight => g.rowHeight
  | .routeTolerance => g.routeTolerance

def GridPatch.get? (p : GridPatch) : Grid.Measure → Option Float32
  | .originX => p.originX
  | .originY => p.originY
  | .poolHeaderWidth => p.poolHeaderWidth
  | .lanePaddingX => p.lanePaddingX
  | .columnPitch => p.columnPitch
  | .slotWidth => p.slotWidth
  | .rowHeight => p.rowHeight
  | .routeTolerance => p.routeTolerance

def LimitsPatch.get? (p : LimitsPatch) : Limits.Item → Option ℕ
  | .maxNodes => p.maxNodes
  | .maxFlows => p.maxFlows
  | .maxResponseBytes => p.maxResponseBytes

theorem GridPatch.get_apply (p : GridPatch) (g : Grid Float32) (m : Grid.Measure) :
    (p.apply g).get m = (p.get? m).getD (g.get m) := by
  cases m <;> rfl

theorem LimitsPatch.get_apply (p : LimitsPatch) (l : Limits) (i : Limits.Item) :
    (p.apply l).get i = (p.get? i).getD (l.get i) := by
  cases i <;> rfl

section
variable {v : Json}

/-- Each limit is read from the field of its name. -/
theorem LimitsPatch.get?_of_decode {p : LimitsPatch} (h : LimitsPatch.decode v = some p)
    (i : Limits.Item) : p.get? i = said? LimitsPatch.fields i.name natural v := by
  simp only [LimitsPatch.decode, Option.bind_eq_bind, Option.bind_eq_some_iff, Option.pure_def,
    Option.some.injEq] at h
  obtain ⟨fields, hfields, a, ha, b, hb, c, hc, rfl⟩ := h
  cases i with
  | maxNodes => exact Json.eq_said? hfields ha
  | maxFlows => exact Json.eq_said? hfields hb
  | maxResponseBytes => exact Json.eq_said? hfields hc

/-- Each measure is read from the field of its name. -/
theorem GridPatch.get?_of_decode {p : GridPatch} (h : GridPatch.decode v = some p)
    (m : Grid.Measure) : p.get? m = said? GridPatch.fields m.name single v := by
  simp only [GridPatch.decode, Option.bind_eq_bind, Option.bind_eq_some_iff, Option.pure_def,
    Option.some.injEq] at h
  obtain ⟨fields, hfields, originX, h₁, originY, h₂, poolHeaderWidth, h₃, lanePaddingX, h₄,
    columnPitch, h₅, slotWidth, h₆, rowHeight, h₇, routeTolerance, h₈, rfl⟩ := h
  cases m with
  | originX => exact Json.eq_said? hfields h₁
  | originY => exact Json.eq_said? hfields h₂
  | poolHeaderWidth => exact Json.eq_said? hfields h₃
  | lanePaddingX => exact Json.eq_said? hfields h₄
  | columnPitch => exact Json.eq_said? hfields h₅
  | slotWidth => exact Json.eq_said? hfields h₆
  | rowHeight => exact Json.eq_said? hfields h₇
  | routeTolerance => exact Json.eq_said? hfields h₈

/-! ## Settings -/

namespace Config

/-- What a value says of a limit. -/
def limit? (v : Json) (i : Limits.Item) : Option ℕ :=
  said? ConfigPatch.fields "limits" (said? LimitsPatch.fields i.name natural) v

/-- What a value says of a measure. -/
def measure? (v : Json) (m : Grid.Measure) : Option Float32 :=
  said? ConfigPatch.fields "layout" (said? GridPatch.fields m.name single) v

/-- What a value says of another setting. -/
def setting? {α : Type} (key : String) (d : Json.Decoder α) (v : Json) : Option α :=
  said? ConfigPatch.fields key d v

/-- The rules are those that a value says, or the default rules if it says none. -/
inductive RulesOf (v : Json) : RuleSet → Prop
  | unsaid (absent : setting? "rules" some v = none) : RulesOf v {}
  | said {w : Json} {s : RuleSet} (present : setting? "rules" some v = some w)
      (said : RuleSet.Said w s) : RulesOf v s

/-- The rules that a value says are read from what it says. -/
theorem RulesOf.decode_eq_some {v w : Json} {s : RuleSet} (h : RulesOf v s)
    (hpresent : setting? "rules" some v = some w) : RuleSet.decode w = some s := by
  cases h with
  | unsaid habsent => cases habsent.symm.trans hpresent
  | said hpresent' hsaid =>
    cases hpresent'.symm.trans hpresent
    exact (RuleSet.decode_eq_some_iff _ _).2 hsaid

/-- The settings are those that a value gives; what it does not say has its default. -/
structure Follows (v : Json) (c : Config) : Prop where
  limit : ∀ i, c.limits.get i = (limit? v i).getD (({} : Config).limits.get i)
  measure : ∀ m, c.grid.get m = (measure? v m).getD (({} : Config).grid.get m)
  theme : Theme.ofName? ((setting? "theme" text v).getD "lanes") = some c.theme
  rules : RulesOf v c.rules
  policyVersion : c.policyVersion =
    ((setting? "policyVersion" text v).map Text.trimString).getD ({} : Config).policyVersion
  provider : c.provider = (setting? "provider" text v).getD ({} : Config).provider
  model : c.model = (setting? "model" text v).getD ({} : Config).model

end Config

namespace ConfigPatch

variable {p : ConfigPatch} {c : Config}

theorem require_eq_ok {name : String} {theme : Theme} :
    Theme.require name = .ok theme ↔ Theme.ofName? name = some theme := by
  unfold Theme.require
  cases Theme.ofName? name <;> simp

/-- Each setting is read from its own field. -/
theorem said_of_decode (h : decode v = some p) :
    (∀ i, p.limits.bind (fun q => q.get? i) = Config.limit? v i) ∧
    (∀ m, p.layout.bind (fun q => q.get? m) = Config.measure? v m) ∧
    p.theme = Config.setting? "theme" text v ∧
    Config.RulesOf v (p.rules.getD ({} : Config).rules) ∧
    p.policyVersion = Config.setting? "policyVersion" text v ∧
    p.provider = Config.setting? "provider" text v ∧ p.model = Config.setting? "model" text v := by
  simp only [decode, Option.bind_eq_bind, Option.bind_eq_some_iff, Option.pure_def,
    Option.some.injEq] at h
  obtain ⟨fields, hfields, limits, hlimits, layout, hlayout, theme, htheme, rules, hrules,
    policyVersion, hpolicy, provider, hprovider, model, hmodel, rfl⟩ := h
  have hsaid : Config.RulesOf v (rules.getD ({} : Config).rules) := by
    rcases Json.optional_cases hfields hrules with ⟨habsent, rfl⟩ | ⟨w, s, hpresent, hs, rfl⟩
    · exact .unsaid habsent
    · exact .said hpresent ((RuleSet.decode_eq_some_iff w s).1 hs)
  exact ⟨fun i => Json.bind_eq_said? hfields (fun w q hq => q.get?_of_decode hq i) hlimits,
    fun m => Json.bind_eq_said? hfields (fun w q hq => q.get?_of_decode hq m) hlayout,
    Json.eq_said? hfields htheme, hsaid, Json.eq_said? hfields hpolicy,
    Json.eq_said? hfields hprovider, Json.eq_said? hfields hmodel⟩

/-- Only the theme can be refused; the other settings are those that are given, or else
    their defaults. -/
theorem apply_eq_ok : p.apply = .ok c ↔
    Theme.ofName? (p.theme.getD "lanes") = some c.theme ∧
      c = { limits := (p.limits.getD {}).apply ({} : Config).limits
            grid := (p.layout.getD {}).apply ({} : Config).grid
            theme := c.theme
            rules := p.rules.getD ({} : Config).rules
            policyVersion := (p.policyVersion.map Text.trimString).getD ({} : Config).policyVersion
            provider := p.provider.getD ({} : Config).provider
            model := p.model.getD ({} : Config).model } := by
  have hdefault : Theme.ofName? "lanes" = some ({} : Config).theme := rfl
  unfold apply
  cases p.theme with
  | none =>
    simp only [bind_eq_ok, pure_eq_ok, Option.getD_none, hdefault, Except.ok.injEq,
      Option.some.injEq]
    constructor
    · rintro ⟨_, rfl, rfl⟩
      exact ⟨rfl, rfl⟩
    · rintro ⟨htheme, hc⟩
      exact ⟨c.theme, htheme, hc.symm⟩
  | some name =>
    simp only [bind_eq_ok, pure_eq_ok, Option.getD_some, require_eq_ok]
    constructor
    · rintro ⟨_, htheme, rfl⟩
      exact ⟨htheme, rfl⟩
    · rintro ⟨htheme, hc⟩
      exact ⟨c.theme, htheme, hc.symm⟩

/-- **The settings that are read** are those that the text gives. -/
theorem follows_of_apply (hdecode : decode v = some p) (h : p.apply = .ok c) : c.Follows v := by
  obtain ⟨hlimits, hlayout, htheme, hrules, hpolicy, hprovider, hmodel⟩ := said_of_decode hdecode
  obtain ⟨hknown, hc⟩ := apply_eq_ok.1 h
  rw [hc]
  refine ⟨fun i => ?_, fun m => ?_, htheme ▸ hknown, hrules, hpolicy ▸ rfl, hprovider ▸ rfl,
    hmodel ▸ rfl⟩
  · rw [LimitsPatch.get_apply, ← hlimits i]
    cases p.limits with
    | none => cases i <;> rfl
    | some q => rfl
  · rw [GridPatch.get_apply, ← hlayout m]
    cases p.layout with
    | none => cases m <;> rfl
    | some q => rfl

/-- Settings are made exactly of the name of a theme, or of none. -/
theorem exists_apply : (∃ c, p.apply = .ok c) ↔
    ∀ name, p.theme = some name → ∃ theme, Theme.ofName? name = some theme := by
  constructor
  · rintro ⟨c, hc⟩ name hname
    have hknown := (apply_eq_ok.1 hc).1
    rw [hname, Option.getD_some] at hknown
    exact ⟨c.theme, hknown⟩
  · intro hknown
    have htheme : ∃ theme, Theme.ofName? (p.theme.getD "lanes") = some theme := by
      cases hname : p.theme with
      | none => exact ⟨_, rfl⟩
      | some name => exact hknown name hname
    obtain ⟨theme, htheme⟩ := htheme
    exact ⟨{ limits := _, grid := _, theme := theme, rules := _, policyVersion := _,
             provider := _, model := _ }, apply_eq_ok.2 ⟨htheme, rfl⟩⟩

end ConfigPatch

end

/-! ## Ranges -/

/-- A value that a limit may have. -/
def Limits.Item.Allows (i : Limits.Item) (n : ℕ) : Prop := i.least ≤ n ∧ n ≤ i.greatest

instance (i : Limits.Item) (n : ℕ) : Decidable (i.Allows n) := inferInstanceAs (Decidable (_ ∧ _))

theorem Limits.check_eq_ok_iff_allows {l : Limits} :
    l.check = .ok () ↔ ∀ i : Limits.Item, i.Allows (l.get i) := by
  rw [Limits.check_eq_ok]
  refine forall_congr' fun i => ?_
  rw [Limits.inRange, Bool.and_eq_true, decide_eq_true_eq, decide_eq_true_eq]
  rfl

theorem Grid.check_eq_ok {g : Grid Float32} : g.check = .ok () ↔
    Float32.ofNat 0 ≤ g.get .routeTolerance ∧
      g.get .routeTolerance ≤ Float32.ofNat Grid.maxTolerance := by
  have hrange : g.toleranceInRange = true ↔ Float32.ofNat 0 ≤ g.get .routeTolerance ∧
      g.get .routeTolerance ≤ Float32.ofNat Grid.maxTolerance := by
    rw [Grid.toleranceInRange, Bool.and_eq_true]
    exact and_congr decide_eq_true_iff decide_eq_true_iff
  rw [← hrange, Grid.check]
  split <;> simp [*]

namespace Config

variable {v : Json} {c : Config} {p : ConfigPatch}

/-- The limits that are given lie in their ranges, and so does the tolerance. -/
theorem check_iff_of_follows (h : c.Follows v) : c.check = .ok () ↔
    (∀ i : Limits.Item, i.Allows ((limit? v i).getD (({} : Config).limits.get i))) ∧
      Float32.ofNat 0 ≤ (measure? v .routeTolerance).getD (({} : Config).grid.get .routeTolerance) ∧
      (measure? v .routeTolerance).getD (({} : Config).grid.get .routeTolerance) ≤
        Float32.ofNat Grid.maxTolerance := by
  rw [check_eq_ok, Limits.check_eq_ok_iff_allows, Grid.check_eq_ok, h.measure]
  simp only [h.limit]

/-- What a value says of the settings is in order: the theme that it names is known, and
    its limits and its tolerance, or else the defaults, lie in their ranges. -/
structure Admissible (v : Json) : Prop where
  theme : ∀ name, setting? "theme" text v = some name → ∃ theme, Theme.ofName? name = some theme
  limit : ∀ i : Limits.Item, i.Allows ((limit? v i).getD (({} : Config).limits.get i))
  tolerance : Float32.ofNat 0 ≤
      (measure? v .routeTolerance).getD (({} : Config).grid.get .routeTolerance) ∧
    (measure? v .routeTolerance).getD (({} : Config).grid.get .routeTolerance) ≤
      Float32.ofNat Grid.maxTolerance

/-- Settings that pass their check are made exactly of what is in order. -/
theorem admissible_iff (hdecode : ConfigPatch.decode v = some p) :
    (∃ c, p.apply = .ok c ∧ c.check = .ok ()) ↔ Admissible v := by
  have htheme := (ConfigPatch.said_of_decode hdecode).2.2.1
  constructor
  · rintro ⟨c, happly, hcheck⟩
    have hknown := ConfigPatch.exists_apply.1 ⟨c, happly⟩
    obtain ⟨hlimit, htolerance⟩ :=
      (check_iff_of_follows (ConfigPatch.follows_of_apply hdecode happly)).1 hcheck
    exact ⟨htheme ▸ hknown, hlimit, htolerance⟩
  · rintro ⟨hknown, hlimit, htolerance⟩
    obtain ⟨c, happly⟩ := ConfigPatch.exists_apply.2 (htheme ▸ hknown)
    exact ⟨c, happly, (check_iff_of_follows (ConfigPatch.follows_of_apply hdecode happly)).2
      ⟨hlimit, htolerance⟩⟩

end Config

/-! ## Texts of settings -/

theorem ConfigPatch.parse_eq_ok {contents : String} {p : ConfigPatch} :
    ConfigPatch.parse contents = .ok p ↔
      ∃ v, Json.readAs ConfigPatch.shape contents = .ok v ∧ ConfigPatch.decode v = some p := by
  unfold ConfigPatch.parse
  cases Json.readAs ConfigPatch.shape contents with
  | error e => simp
  | ok v =>
    simp only [Except.ok.injEq, exists_eq_left']
    cases ConfigPatch.decode v <;> simp

/-- **A text gives settings** if it is read as a patch of settings that can be applied, and
    they lie in their ranges. -/
theorem Config.parse_eq_ok {contents : String} {c : Config} : Config.parse contents = .ok c ↔
    ∃ v p, Json.readAs ConfigPatch.shape contents = .ok v ∧ ConfigPatch.decode v = some p ∧
      p.apply = .ok c ∧ c.check = .ok () := by
  unfold Config.parse
  constructor
  · intro h
    obtain ⟨p, hp, h⟩ := bind_eq_ok.1 h
    obtain ⟨base, hbase, h⟩ := bind_eq_ok.1 h
    obtain ⟨v, hread, hdecode⟩ := ConfigPatch.parse_eq_ok.1 hp
    split at h
    · rename_i hcheck
      cases h
      exact ⟨v, p, hread, hdecode, hbase, hcheck⟩
    · cases h
  · rintro ⟨v, p, hread, hdecode, hbase, hcheck⟩
    have hp := ConfigPatch.parse_eq_ok.2 ⟨v, hread, hdecode⟩
    refine bind_eq_ok.2 ⟨p, hp, bind_eq_ok.2 ⟨c, hbase, ?_⟩⟩
    rw [hcheck]

end Swimlane
