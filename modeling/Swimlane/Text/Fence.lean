/-
  Swimlane — the fence around a quoted answer.

  Language models like to put their answer between two lines of three
  backticks, the first of which may name the format: three backticks, then
  perhaps `json`, in any case.  `unfence` takes such a fence off; each of its
  two ends may also stand alone, and the blanks next to them go with them.
-/
import Swimlane.Text.Blank

namespace Swimlane.Text

/-- The mark of a fence: three backticks. -/
def fence : List Char := ['\x60', '\x60', '\x60']

/-- The characters that stand for the letters `json` when case is ignored; the
    long s (U+017F) is an s. -/
def formatName : List (List Char) :=
  [['j', 'J'], ['s', 'S', '\u017F'], ['o', 'O'], ['n', 'N']]

/-- The rest of the text if it begins with one character of each class in
    turn. -/
def afterClasses? : List (List Char) → List Char → Option (List Char)
  | [], cs => some cs
  | _ :: _, [] => none
  | k :: ks, c :: cs => if k.contains c then afterClasses? ks cs else none

/-- The text without an opening fence, its format name and the blanks that
    follow. -/
def dropOpeningFence (cs : List Char) : List Char :=
  match afterClasses? (fence.map fun c => [c]) cs with
  | none => cs
  | some rest => ((afterClasses? formatName rest).getD rest).dropWhile isBlank

/-- The text without a closing fence and the blanks before it. -/
def dropClosingFence (cs : List Char) : List Char :=
  match afterClasses? (fence.map fun c => [c]) cs.reverse with
  | none => cs
  | some rest => (rest.dropWhile isBlank).reverse

/-- The text inside its fence, without blanks at its ends. -/
def unfence (cs : List Char) : List Char :=
  trim (dropClosingFence (dropOpeningFence (trim cs)))

/-- `unfence` on strings. -/
def unfenceString (s : String) : String := String.ofList (unfence s.toList)

end Swimlane.Text
