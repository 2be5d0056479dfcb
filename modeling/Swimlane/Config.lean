/-
  Swimlane — settings.

  A `Config` holds everything that compilation depends on besides the
  candidate.  `Config.parse` reads it from a JSON text; what the text leaves
  out keeps its default.  The types of the whole text come first, then the
  theme, the limits and the layout.
-/
import Swimlane.Fault
import Swimlane.Json.Record
import Swimlane.RuleSet
import Swimlane.Text.Blank
import Swimlane.Theme

namespace Swimlane

structure Config where
  limits : Limits := {}
  grid : Grid Float32 := Grid.standard
  theme : Theme := Theme.lanes
  rules : RuleSet := {}
  policyVersion : String := "draft-bpmn-policy-v1"
  provider : String := "gemini"
  model : String := "gemini-1.5-flash"

inductive ConfigError where
  /-- The text is no JSON text, or a value has another type than expected. -/
  | malformed (text : String)
  | unknownTheme (name : String)
  | fault (fault : Fault)

/-- The theme of a name, which has to be known. -/
def Theme.require (name : String) : Except ConfigError Theme :=
  match Theme.ofName? name with
  | some theme => .ok theme
  | none => .error (.unknownTheme name)

/-- The settings have to lie in their ranges: the limits, then the
    layout. -/
def Config.check (c : Config) : Except Fault Unit := do
  c.limits.check
  c.grid.check

open Json (Decoder Shape record? required optional defaulted natural single text listOf named)

/-! ## Limits and grid -/

structure LimitsPatch where
  maxNodes : Option Nat := none
  maxFlows : Option Nat := none
  maxResponseBytes : Option Nat := none

def LimitsPatch.fields : List String := ["maxNodes", "maxFlows", "maxResponseBytes"]

def LimitsPatch.decode : Decoder LimitsPatch := fun v => do
  let fs ← record? fields true v
  return {
    maxNodes := ← optional natural fs "maxNodes"
    maxFlows := ← optional natural fs "maxFlows"
    maxResponseBytes := ← optional natural fs "maxResponseBytes" }

def LimitsPatch.apply (p : LimitsPatch) (l : Limits) : Limits where
  maxNodes := p.maxNodes.getD l.maxNodes
  maxFlows := p.maxFlows.getD l.maxFlows
  maxResponseBytes := p.maxResponseBytes.getD l.maxResponseBytes

structure GridPatch where
  originX : Option Float32 := none
  originY : Option Float32 := none
  poolHeaderWidth : Option Float32 := none
  lanePaddingX : Option Float32 := none
  columnPitch : Option Float32 := none
  slotWidth : Option Float32 := none
  rowHeight : Option Float32 := none
  routeTolerance : Option Float32 := none

def GridPatch.fields : List String :=
  ["originX", "originY", "poolHeaderWidth", "lanePaddingX", "columnPitch", "slotWidth",
   "rowHeight", "routeTolerance"]

def GridPatch.decode : Decoder GridPatch := fun v => do
  let fs ← record? fields true v
  return {
    originX := ← optional single fs "originX"
    originY := ← optional single fs "originY"
    poolHeaderWidth := ← optional single fs "poolHeaderWidth"
    lanePaddingX := ← optional single fs "lanePaddingX"
    columnPitch := ← optional single fs "columnPitch"
    slotWidth := ← optional single fs "slotWidth"
    rowHeight := ← optional single fs "rowHeight"
    routeTolerance := ← optional single fs "routeTolerance" }

def GridPatch.apply (p : GridPatch) (g : Grid Float32) : Grid Float32 where
  originX := p.originX.getD g.originX
  originY := p.originY.getD g.originY
  poolHeaderWidth := p.poolHeaderWidth.getD g.poolHeaderWidth
  lanePaddingX := p.lanePaddingX.getD g.lanePaddingX
  columnPitch := p.columnPitch.getD g.columnPitch
  slotWidth := p.slotWidth.getD g.slotWidth
  rowHeight := p.rowHeight.getD g.rowHeight
  routeTolerance := p.routeTolerance.getD g.routeTolerance

/-! ## Rules -/

def Rule.fields : List String := ["name", "keywords", "kind", "lane"]

/-- Reads a rule; it needs all its fields. -/
def Rule.decode : Decoder Rule := fun v => do
  let fs ← record? fields true v
  return {
    name := ← required text fs "name"
    keywords := ← required (listOf text) fs "keywords"
    kind := ← required (named NodeKind.ofKey?) fs "kind"
    lane := ← required (named Lane.ofKey?) fs "lane" }

def LoopRoles.fields : List String := ["plan", "execute", "check", "act"]

def LoopRoles.decode : Decoder LoopRoles := fun v => do
  let fs ← record? fields false v
  let default : LoopRoles := {}
  return {
    plan := ← defaulted (listOf text) default.plan fs "plan"
    execute := ← defaulted (listOf text) default.execute fs "execute"
    check := ← defaulted (listOf text) default.check fs "check"
    act := ← defaulted (listOf text) default.act fs "act" }

def LoopLabels.fields : List String :=
  ["subprocess", "start", "end", "gateway", "goalMet", "goalNotMet", "exit"]

def LoopLabels.decode : Decoder LoopLabels := fun v => do
  let fs ← record? fields false v
  let default : LoopLabels := {}
  return {
    subprocess := ← defaulted text default.subprocess fs "subprocess"
    start := ← defaulted text default.start fs "start"
    finish := ← defaulted text default.finish fs "end"
    gateway := ← defaulted text default.gateway fs "gateway"
    goalMet := ← defaulted text default.goalMet fs "goalMet"
    goalNotMet := ← defaulted text default.goalNotMet fs "goalNotMet"
    exit := ← defaulted text default.exit fs "exit" }

def RuleSet.fields : List String :=
  ["classification", "defaultKind", "defaultLane", "loopRoles", "standardizeKeywords",
   "loopLabels"]

def RuleSet.decode : Decoder RuleSet := fun v => do
  let fs ← record? fields false v
  let default : RuleSet := {}
  return {
    classification :=
      ← defaulted (listOf Rule.decode) default.classification fs "classification"
    defaultKind := ← defaulted (named NodeKind.ofKey?) default.defaultKind fs "defaultKind"
    defaultLane := ← defaulted (named Lane.ofKey?) default.defaultLane fs "defaultLane"
    loopRoles := ← defaulted LoopRoles.decode default.loopRoles fs "loopRoles"
    standardizeKeywords :=
      ← defaulted (listOf text) default.standardizeKeywords fs "standardizeKeywords"
    loopLabels := ← defaulted LoopLabels.decode default.loopLabels fs "loopLabels" }

/-! ## Shapes -/

/-- A record whose known fields are read in full. -/
def flatShape (names : List String) : Shape := .fields (names.map fun name => (name, .full))

def RuleSet.shape : Shape :=
  .fields [("classification", .each (flatShape Rule.fields)), ("defaultKind", .full),
    ("defaultLane", .full), ("loopRoles", flatShape LoopRoles.fields),
    ("standardizeKeywords", .full), ("loopLabels", flatShape LoopLabels.fields)]

/-! ## Settings -/

/-- Settings as a text gives them. -/
structure ConfigPatch where
  limits : Option LimitsPatch := none
  layout : Option GridPatch := none
  theme : Option String := none
  rules : Option RuleSet := none
  policyVersion : Option String := none
  provider : Option String := none
  model : Option String := none

def ConfigPatch.fields : List String :=
  ["limits", "layout", "theme", "rules", "policyVersion", "provider", "model"]

def ConfigPatch.shape : Shape :=
  .fields [("limits", flatShape LimitsPatch.fields), ("layout", flatShape GridPatch.fields),
    ("theme", .full), ("rules", RuleSet.shape), ("policyVersion", .full), ("provider", .full),
    ("model", .full)]

def ConfigPatch.decode : Decoder ConfigPatch := fun v => do
  let fs ← record? fields true v
  return {
    limits := ← optional LimitsPatch.decode fs "limits"
    layout := ← optional GridPatch.decode fs "layout"
    theme := ← optional text fs "theme"
    rules := ← optional RuleSet.decode fs "rules"
    policyVersion := ← optional text fs "policyVersion"
    provider := ← optional text fs "provider"
    model := ← optional text fs "model" }

def ConfigPatch.parse (contents : String) : Except ConfigError ConfigPatch :=
  match Json.readAs shape contents with
  | .error _ => .error (.malformed contents)
  | .ok v =>
    match decode v with
    | some p => .ok p
    | none => .error (.malformed contents)

/-- The settings that a text gives; the theme is that of its name. -/
def ConfigPatch.apply (p : ConfigPatch) : Except ConfigError Config := do
  let default : Config := {}
  let theme ← match p.theme with
    | some name => Theme.require name
    | none => .ok default.theme
  return {
    limits := (p.limits.getD {}).apply default.limits
    grid := (p.layout.getD {}).apply default.grid
    theme
    rules := p.rules.getD default.rules
    policyVersion := (p.policyVersion.map Text.trimString).getD default.policyVersion
    provider := p.provider.getD default.provider
    model := p.model.getD default.model }

def Config.parse (contents : String) : Except ConfigError Config := do
  let patch ← ConfigPatch.parse contents
  let config ← patch.apply
  match config.check with
  | .ok () => .ok config
  | .error fault => .error (.fault fault)

end Swimlane
