/-
  Swimlane — settings in layers.

  A setting of the command is that of its arguments, or else that of the file they name, or
  else its default.  The file has to be in order for itself, also where the arguments
  replace what it says, and the limits are checked again after they have been replaced.

  * `applyTo_eq_ok`: what the arguments replace.
  * `Source o file v`: the settings file says `v`.  `resolve_eq_ok`: the two stages in
    which the settings are made.
  * `Options.Admissible o v`: the arguments `o` are in order for a file that says `v`.
  * `Layered o v c`: the settings `c` come from the arguments `o`, the file `v` and the
    defaults.
  * `settings_layered`: when there are settings, which they are, and that compilation does
    not refuse them.
-/
import Swimlane.CommandLine.Session
import Swimlane.Proofs.Config

namespace Swimlane.CommandLine

open Json (text)

/-! ## The arguments -/

/-- What the arguments say of the limits. -/
def Options.limits (o : Options) : LimitsPatch where
  maxNodes := o.maxNodes
  maxFlows := o.maxFlows
  maxResponseBytes := o.maxResponseBytes

/-- The settings with those of the arguments, and with a theme. -/
def Options.merge (o : Options) (base : Config) (theme : Theme) : Config :=
  { base with
    limits := o.limits.apply base.limits
    theme
    policyVersion := (o.policyVersion.map Text.trimString).getD base.policyVersion }

section
variable {o : Options} {file : Option String} {base c : Config} {v : Json}

/-- The arguments replace the limits, the theme and the version of the policy. -/
theorem applyTo_eq_ok : o.applyTo base = .ok c ↔
    ∃ theme, (o.theme.map Theme.ofName?).getD (some base.theme) = some theme ∧
      (o.limits.apply base.limits).check = .ok () ∧ o.merge base theme = c := by
  have hlimits : LimitsPatch.apply
      { maxNodes := o.maxNodes, maxFlows := o.maxFlows, maxResponseBytes := o.maxResponseBytes }
      base.limits = o.limits.apply base.limits := rfl
  unfold Options.applyTo
  simp only [hlimits]
  cases hcheck : (o.limits.apply base.limits).check with
  | error fault =>
    -- Both an unknown theme and the limits can be the failure.
    cases o.theme with
    | none => simp [bind, Except.bind]
    | some name =>
      cases hname : Theme.ofName? name <;> simp [hname, bind, Except.bind]
  | ok =>
    cases o.theme with
    | none => simp [bind, Except.bind, pure_eq_ok, Options.merge]
    | some name =>
      cases hname : Theme.ofName? name <;>
        simp [hname, bind, Except.bind, pure_eq_ok, Options.merge]

/-- The settings that the arguments make of others. -/
theorem exists_applyTo : (∃ c, o.applyTo base = .ok c) ↔
    (∀ name, o.theme = some name → ∃ theme, Theme.ofName? name = some theme) ∧
      ∀ i : Limits.Item, i.Allows ((o.limits.get? i).getD (base.limits.get i)) := by
  simp only [← LimitsPatch.get_apply, ← Limits.check_eq_ok_iff_allows]
  constructor
  · rintro ⟨c, hc⟩
    obtain ⟨theme, htheme, hlimits, -⟩ := applyTo_eq_ok.1 hc
    refine ⟨fun name hname => ⟨theme, ?_⟩, hlimits⟩
    rwa [hname] at htheme
  · rintro ⟨hknown, hlimits⟩
    have htheme : ∃ theme, (o.theme.map Theme.ofName?).getD (some base.theme) = some theme := by
      cases hname : o.theme with
      | none => exact ⟨base.theme, rfl⟩
      | some name => exact hknown name hname
    obtain ⟨theme, htheme⟩ := htheme
    exact ⟨o.merge base theme, applyTo_eq_ok.2 ⟨theme, htheme, hlimits, rfl⟩⟩

/-! ## The file -/

/-- What is said by the file that the arguments name: a value that is read from its text and
    has the types of settings.  Nothing is said if they name none. -/
inductive Source (o : Options) (file : Option String) : Json → Prop
  | none (unnamed : o.configFile = none) : Source o file (.obj [])
  | text {path contents : String} {v : Json} (named : o.configFile = some path)
      (found : file = some contents) (read : Json.readAs ConfigPatch.shape contents = .ok v)
      (typed : ∃ p, ConfigPatch.decode v = some p) : Source o file v

theorem Source.typed (h : Source o file v) : ∃ p, ConfigPatch.decode v = some p := by
  cases h with
  | none => exact ⟨_, rfl⟩
  | text _ _ _ htyped => exact htyped

theorem Source.unique {v' : Json} (h : Source o file v) (h' : Source o file v') : v = v' := by
  cases h with
  | none hunnamed =>
    cases h' with
    | none => rfl
    | text hnamed' => cases hunnamed.symm.trans hnamed'
  | text hnamed hfound hread =>
    cases h' with
    | none hunnamed' => cases hunnamed'.symm.trans hnamed
    | text hnamed' hfound' hread' =>
      cases hfound.symm.trans hfound'
      exact Except.ok.inj (hread.symm.trans hread')

/-- The settings before the arguments replace some of them. -/
theorem exists_base : (∃ v p, Source o file v ∧ ConfigPatch.decode v = some p ∧
    p.apply = .ok base ∧ base.check = .ok ()) ↔ o.configFile = none ∧ base = {} ∨
      ∃ path contents, o.configFile = some path ∧ file = some contents ∧
        Config.parse contents = .ok base := by
  have hempty : ConfigPatch.decode (.obj []) = some {} := rfl
  have hdefault : ({} : ConfigPatch).apply = .ok {} := rfl
  constructor
  · rintro ⟨v, p, hsource, hdecode, hbase, hcheck⟩
    cases hsource with
    | none hunnamed =>
      obtain rfl := Option.some.inj (hempty.symm.trans hdecode)
      exact Or.inl ⟨hunnamed, Except.ok.inj (hbase.symm.trans hdefault)⟩
    | text hnamed hfound hread _ =>
      have hparse := Config.parse_eq_ok.2 ⟨v, p, hread, hdecode, hbase, hcheck⟩
      exact Or.inr ⟨_, _, hnamed, hfound, hparse⟩
  · rintro (⟨hunnamed, rfl⟩ | ⟨path, contents, hnamed, hfound, hparse⟩)
    · exact ⟨_, {}, .none hunnamed, hempty, hdefault, check_default⟩
    · obtain ⟨v, p, hread, hdecode, hbase, hcheck⟩ := Config.parse_eq_ok.1 hparse
      exact ⟨v, p, .text hnamed hfound hread ⟨p, hdecode⟩, hdecode, hbase, hcheck⟩

/-- **Settings are made in two stages**, of the file and of the arguments. -/
theorem resolve_eq_ok : o.resolve file = .ok c ↔ ∃ base, (∃ v p, Source o file v ∧
    ConfigPatch.decode v = some p ∧ p.apply = .ok base ∧ base.check = .ok ()) ∧
      o.applyTo base = .ok c := by
  simp only [exists_base]
  unfold Options.resolve
  cases o.configFile with
  | none => cases happly : o.applyTo {} <;> simp [happly, bind, Except.bind]
  | some path =>
    cases file with
    | none => simp [bind, Except.bind]
    | some contents =>
      cases hparse : Config.parse contents with
      | error e => simp [hparse, bind, Except.bind]
      | ok base => cases happly : o.applyTo base <;> simp [hparse, happly, bind, Except.bind]

/-! ## The layers -/

/-- Each setting is that of the arguments, else that of the file, else the default.  Of the
    arguments, only the limits, the theme and the version of the policy are settings. -/
structure Layered (o : Options) (v : Json) (c : Config) : Prop where
  limit : ∀ i, c.limits.get i =
    (o.limits.get? i <|> Config.limit? v i).getD (({} : Config).limits.get i)
  theme : Theme.ofName? ((o.theme <|> Config.setting? "theme" text v).getD "lanes") = some c.theme
  policyVersion : c.policyVersion =
    ((o.policyVersion <|> Config.setting? "policyVersion" text v).map Text.trimString).getD
      ({} : Config).policyVersion
  measure : ∀ m, c.grid.get m = (Config.measure? v m).getD (({} : Config).grid.get m)
  rules : Config.RulesOf v c.rules
  provider : c.provider = (Config.setting? "provider" text v).getD ({} : Config).provider
  model : c.model = (Config.setting? "model" text v).getD ({} : Config).model

/-- What the arguments say is in order: the theme that they name is known, and their limits
    lie in their ranges, and so do those that they leave to the file. -/
structure Options.Admissible (o : Options) (v : Json) : Prop where
  theme : ∀ name, o.theme = some name → ∃ theme, Theme.ofName? name = some theme
  limit : ∀ i : Limits.Item, i.Allows
    ((o.limits.get? i <|> Config.limit? v i).getD (({} : Config).limits.get i))

theorem limit_of_follows (hbase : base.Follows v) (i : Limits.Item) :
    (o.limits.get? i).getD (base.limits.get i) =
      (o.limits.get? i <|> Config.limit? v i).getD (({} : Config).limits.get i) := by
  rw [hbase.limit i]
  cases o.limits.get? i <;> rfl

theorem layered_of_follows (hbase : base.Follows v) (h : o.applyTo base = .ok c) :
    Layered o v c := by
  obtain ⟨theme, htheme, -, rfl⟩ := applyTo_eq_ok.1 h
  refine ⟨fun i => ?_, ?_, ?_, hbase.measure, hbase.rules, hbase.provider, hbase.model⟩
  · exact (LimitsPatch.get_apply o.limits base.limits i).trans (limit_of_follows hbase i)
  · cases hname : o.theme with
    | none =>
      rw [hname] at htheme
      exact hbase.theme.trans htheme
    | some name =>
      rw [hname] at htheme
      exact htheme
  · rw [Options.merge, hbase.policyVersion]
    cases o.policyVersion <;> rfl

theorem exists_applyTo_iff_admissible (hbase : base.Follows v) :
    (∃ c, o.applyTo base = .ok c) ↔ o.Admissible v := by
  simp only [exists_applyTo, limit_of_follows hbase]
  exact ⟨fun ⟨htheme, hlimit⟩ => ⟨htheme, hlimit⟩, fun h => ⟨h.theme, h.limit⟩⟩

/-- The settings that are made lie in their ranges: the limits are those that the arguments
    leave, the grid is that of the file. -/
theorem check_of_applyTo (hcheck : base.check = .ok ()) (h : o.applyTo base = .ok c) :
    c.check = .ok () := by
  obtain ⟨theme, -, hlimits, rfl⟩ := applyTo_eq_ok.1 h
  exact check_eq_ok.2 ⟨hlimits, (check_eq_ok.1 hcheck).2⟩

end

/-- **The command has settings** exactly if its file says what is in order, and so do its
    arguments together with the file.  Each setting is then that of the arguments, of the
    file, or the default, and no candidate is refused because of the settings. -/
theorem settings_layered (o : Options) (file : Option String) :
    ((∃ c, o.resolve file = .ok c) ↔
      ∃ v, Source o file v ∧ Config.Admissible v ∧ o.Admissible v) ∧
    ∀ c, o.resolve file = .ok c → (∃ v, Source o file v ∧ Layered o v c) ∧
      ∀ raw, (∀ item got, compileText c raw ≠ .error (.limitOutOfRange item got)) ∧
        ∀ got, compileText c raw ≠ .error (.toleranceOutOfRange got) := by
  refine ⟨⟨?_, ?_⟩, ?_⟩
  · rintro ⟨c, hc⟩
    obtain ⟨base, ⟨v, p, hsource, hdecode, hbase, hcheck⟩, happly⟩ := resolve_eq_ok.1 hc
    have hfollows := ConfigPatch.follows_of_apply hdecode hbase
    exact ⟨v, hsource, (Config.admissible_iff hdecode).1 ⟨base, hbase, hcheck⟩,
      (exists_applyTo_iff_admissible hfollows).1 ⟨c, happly⟩⟩
  · rintro ⟨v, hsource, hfile, harguments⟩
    obtain ⟨p, hdecode⟩ := hsource.typed
    obtain ⟨base, hbase, hcheck⟩ := (Config.admissible_iff hdecode).2 hfile
    have hfollows := ConfigPatch.follows_of_apply hdecode hbase
    obtain ⟨c, happly⟩ := (exists_applyTo_iff_admissible hfollows).2 harguments
    exact ⟨c, resolve_eq_ok.2 ⟨base, ⟨v, p, hsource, hdecode, hbase, hcheck⟩, happly⟩⟩
  · intro c hc
    obtain ⟨base, ⟨v, p, hsource, hdecode, hbase, hcheck⟩, happly⟩ := resolve_eq_ok.1 hc
    have hfollows := ConfigPatch.follows_of_apply hdecode hbase
    exact ⟨⟨v, hsource, layered_of_follows hfollows happly⟩,
      fun raw => compileText_ne_settings (check_of_applyTo hcheck happly)⟩

/-- Arguments that replace a limit and the theme of their file, and what the file says. -/
def replacing : Options where
  configFile := some "settings.json"
  maxNodes := some 12
  theme := some "lanes"

/-- Some of the rules, and no others. -/
def replacedRules : Json := .obj
  [("classification", .arr
     [.obj [("name", .str "legal"), ("keywords", .arr [.str "contract", .str "court"]),
        ("kind", .str "businessRuleTask"), ("lane", .str "executive")]]),
   ("defaultLane", .str "management"), ("loopRoles", .obj [("plan", .arr [.str "draft"])]),
   ("standardizeKeywords", .arr []), ("loopLabels", .obj [("end", .str "Done")])]

def replaced : Json := .obj
  [("limits", .obj [("maxNodes", .ofNat 30)]),
   ("layout", .obj [("rowHeight", .ofNat 160)]), ("theme", .str "none"),
   ("rules", replacedRules), ("policyVersion", .str " v ")]

-- The text is read character by character.
set_option maxRecDepth 2000 in
theorem source_replaced : Source replacing (some replaced.compact) replaced := by
  have hread : Json.readAs ConfigPatch.shape replaced.compact = .ok replaced := by
    rw [Json.readAs, Json.readWithin, Json.compact, String.toList_ofList]
    rfl
  exact .text rfl rfl hread ⟨_, rfl⟩

theorem decode_replacedRules : RuleSet.decode replacedRules = some
    { classification := [{ name := "legal", keywords := ["contract", "court"],
                           kind := .businessRuleTask, lane := .executive }]
      defaultLane := .management
      loopRoles := { plan := ["draft"] }
      standardizeKeywords := []
      loopLabels := { finish := "Done" } } := rfl

/-- The arguments go before the file, and the file before the defaults. -/
theorem layered_replaced : ∃ c, replacing.resolve (some replaced.compact) = .ok c ∧
    c.limits.get .maxNodes = 12 ∧ c.limits.get .maxFlows = 40 ∧ c.theme = Theme.lanes ∧
    c.policyVersion = "v" ∧ c.grid.get .rowHeight = Float32.ofNat 160 ∧
    c.grid.get .slotWidth = Float32.ofNat 190 ∧ c.model = "gemini-1.5-flash" ∧
    c.rules =
      { classification := [{ name := "legal", keywords := ["contract", "court"],
                             kind := .businessRuleTask, lane := .executive }]
        defaultKind := .userTask
        defaultLane := .management
        loopRoles := { plan := ["draft"] }
        standardizeKeywords := []
        loopLabels := { finish := "Done" } } := by
  have hfile : Config.Admissible replaced := by
    refine ⟨fun name hname => ?_, fun i => ?_, by decide +kernel⟩
    · obtain rfl := Option.some.inj hname
      exact ⟨_, rfl⟩
    · cases i <;> decide
  have harguments : replacing.Admissible replaced := by
    refine ⟨fun name hname => ?_, fun i => ?_⟩
    · obtain rfl := Option.some.inj hname
      exact ⟨_, rfl⟩
    · cases i <;> decide
  obtain ⟨hiff, hlayers⟩ := settings_layered replacing (some replaced.compact)
  obtain ⟨c, hc⟩ := hiff.2 ⟨replaced, source_replaced, hfile, harguments⟩
  obtain ⟨⟨v, hsource, hlayered⟩, -⟩ := hlayers c hc
  obtain rfl := source_replaced.unique hsource
  have hrules : RuleSet.decode replacedRules = some c.rules := hlayered.rules.decode_eq_some rfl
  refine ⟨c, hc, ?_, ?_, ?_, ?_, ?_, ?_, ?_, ?_⟩
  · exact hlayered.limit .maxNodes
  · exact hlayered.limit .maxFlows
  · exact (Option.some.inj hlayered.theme).symm
  · exact hlayered.policyVersion.trans (by decide +kernel)
  · exact (hlayered.measure .rowHeight).trans (by decide +kernel)
  · exact (hlayered.measure .slotWidth).trans (by decide +kernel)
  · exact hlayered.model
  · exact Option.some.inj (hrules.symm.trans decode_replacedRules)

end Swimlane.CommandLine
