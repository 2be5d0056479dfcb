/-
  Swimlane — why a draft cannot be compiled.

  A `Fault` is a cause; `Fault.message` puts it into words.  What it quotes from
  the reader of JSON is in the words of that reader, which are not fixed here.
  All faults but defects lie with whoever sent the candidate or set the limits.
-/
import Swimlane.Decimal.Shortest
import Swimlane.Document.Defect
import Swimlane.Draft.Limits
import Swimlane.Draft.Violation
import Swimlane.Json.Reader
import Swimlane.Layout.Basic

namespace Swimlane

/-- Why a draft cannot be compiled. -/
inductive Fault where
  | limitOutOfRange (item : Limits.Item) (got : Nat)
  | toleranceOutOfRange (got : Float32)
  | responseTooLarge (limit actual : Nat)
  | emptyCandidate
  /-- The text is no JSON text. -/
  | invalidJson (error : Json.ReadError) (text : String)
  | schema (violation : Draft.Violation)
  | defect (defect : Defect)

/-- A measure in words: the fewest digits that identify it, of two equally near
    decimals the one farther from zero, and never an exponent. -/
def measureText (x : Float32) : String :=
  let f := Decimal.Floating.ofFloat32 x
  let sign := if f.negative then "-" else ""
  match f.magnitude with
  | .notANumber => "NaN"
  | .infinite => sign ++ "inf"
  | .finite b => sign ++ String.ofList (b.shortest .awayFromZero).positional

namespace Fault

/-- A fault in words; `words` are those of the reader of JSON about a text that it
    does not read. -/
def message (words : String → String) : Fault → String
  | .limitOutOfRange item got =>
    "invalid limits: " ++ item.name ++ " must be between " ++ toString item.least ++ " and " ++
      toString item.greatest ++ " (got " ++ toString got ++ ")"
  | .toleranceOutOfRange got =>
    "invalid layout config: routeTolerance must be between 0 and " ++
      toString Grid.maxTolerance ++ " (got " ++ measureText got ++ ")"
  | .responseTooLarge limit actual =>
    "draft output exceeds " ++ toString limit ++ " bytes (got " ++ toString actual ++ ")"
  | .emptyCandidate => "draft output is empty"
  | .invalidJson _ text => "draft output is not valid JSON: " ++ words text
  | .schema violation => violation.message
  | .defect d => "internal compiler error: " ++ d.message

/-- A fault in words, and then what it was caused by, if that has words of its own. -/
def chain (words : String → String) (f : Fault) : List String :=
  f.message words ::
    match f with
    | .invalidJson _ text => [words text]
    | _ => []

/-- Whether the fault lies with the candidate or the settings. -/
def isUserFault : Fault → Bool
  | .defect _ => false
  | _ => true

end Fault

/-- The limits have to lie in their ranges. -/
def Limits.check (l : Limits) : Except Fault Unit :=
  match l.firstOutOfRange? with
  | some item => .error (.limitOutOfRange item (l.get item))
  | none => .ok ()

/-- The tolerance of routes has to lie in its range. -/
def Grid.check (g : Grid Float32) : Except Fault Unit :=
  if g.toleranceInRange then .ok () else .error (.toleranceOutOfRange g.routeTolerance)

/-- Limits pass exactly when each of them lies in its range. -/
theorem Limits.check_eq_ok {l : Limits} : l.check = .ok () ↔ ∀ i, l.inRange i = true := by
  rw [← Limits.firstOutOfRange?_eq_none]
  unfold Limits.check
  split
  · rename_i h
    simp [h]
  · rename_i h
    simp [h]

end Swimlane
