/-
  Swimlane — themes.

  A theme gives colours to the lanes and to repeating sub-processes.  A theme
  without colours leaves the document free of colour attributes.
-/
import Swimlane.Lane

namespace Swimlane

/-- The colours of a lane. -/
structure LaneColor where
  fill : String
  stroke : String
  deriving DecidableEq, Repr

/-- A theme. -/
structure Theme where
  laneColors : Option (Lane → LaneColor)
  /-- The colour of repeating sub-processes. -/
  loopFill : Option String

namespace Theme

/-- No colours. -/
def plain : Theme := ⟨none, none⟩

/-- A colour for each lane. -/
def lanes : Theme where
  laneColors := some fun
    | .operational => ⟨"#F4F8FF", "#7A8AA6"⟩
    | .automation => ⟨"#F1FBF4", "#5E9C72"⟩
    | .management => ⟨"#FFF9EC", "#B8913A"⟩
    | .executive => ⟨"#FDF1F1", "#B55D5D"⟩
  loopFill := some "#EEF2F8"

/-- The theme of a name. -/
def ofName? : String → Option Theme
  | "plain" => some plain
  | "none" => some plain
  | "lanes" => some lanes
  | "default" => some lanes
  | _ => none

/-- The colours of a lane. -/
def laneColor? (t : Theme) (lane : Lane) : Option LaneColor := t.laneColors.map fun f => f lane

/-- Whether the theme has any colour. -/
def usesColor (t : Theme) : Bool := t.laneColors.isSome || t.loopFill.isSome

end Theme

end Swimlane
