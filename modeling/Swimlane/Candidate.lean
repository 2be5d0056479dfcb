/-
  Swimlane — reading the text of a candidate.

  The text may be wrapped in a fence.  Its size is limited before it is
  read.
-/
import Swimlane.Fault
import Swimlane.Text.Fence

namespace Swimlane

/-- The JSON value of a candidate's text. -/
def readCandidate (limits : Limits) (raw : String) : Except Fault Json :=
  let size := (Text.trimString raw).utf8ByteSize
  let text := Text.unfenceString raw
  if limits.maxResponseBytes < size then .error (.responseTooLarge limits.maxResponseBytes size)
  else if text.isEmpty then .error .emptyCandidate
  else match Json.read text with
    | .ok v => .ok v
    | .error e => .error (.invalidJson e text)

end Swimlane
