/-
  Swimlane — identifiers.

  An identifier has at most 40 characters of `[a-z0-9_-]` and neither begins nor
  ends with an underscore.

  * `slug` makes one of any text; a text without a usable character takes the
    fallback.
  * `fresh` makes a name differ from those in use: the name itself if it is
    free, otherwise the name with the least numeral that makes it free, cut so
    that both fit.  `fresh_of_free`: a name that is free is only cut.
-/
import Swimlane.Text.Blank
import Swimlane.Text.Letter

namespace Swimlane.Identifier

/-! ## Slugs -/

/-- The greatest length of an identifier, numerals included. -/
def maxLength : Nat := 40

/-- The characters that identifiers keep. -/
def isIdChar (c : Char) : Bool :=
  (97 ≤ c.toNat && c.toNat ≤ 122) || (48 ≤ c.toNat && c.toNat ≤ 57) || c = '_' || c = '-'

/-- Whether a character is the underscore. -/
def isUnderscore (c : Char) : Bool := c = '_'

/-- What every other character becomes. -/
def idChar (c : Char) : Char := if isIdChar c then c else '_'

/-- At most `limit` characters, without underscores at the end.  A cut can bare
    an underscore, so the end is cleaned after it. -/
def cut (limit : Nat) (cs : List Char) : List Char :=
  Text.dropEndWhile isUnderscore (cs.take limit)

/-- The identifier that a text stands for; empty if it has no usable
    character. -/
def slugChars (cs : List Char) : List Char :=
  cut maxLength (Text.trimWhile isUnderscore ((Text.lower cs).map idChar))

/-- The identifier that a text stands for, or the fallback if there is none. -/
def slug (fallback text : String) : String :=
  let cs := slugChars text.toList
  if cs.isEmpty then fallback else String.ofList cs

/-! ## Free names -/

/-- The name `base` with the numeral `k`, cut so that both fit. -/
def numbered (base : List Char) (k : Nat) : String :=
  let tail := '_' :: Nat.toDigits 10 k
  String.ofList (cut (maxLength - tail.length) base ++ tail)

/-- A free name for `name`: its cut form, or the first of the numbered forms
    that is not in use.  One of the first `used.length + 1` numerals is free,
    since they give different names. -/
def fresh (used : List String) (name : String) : String :=
  let base := cut maxLength name.toList
  let plain := String.ofList base
  if used.contains plain then
    (((List.range (used.length + 1)).map fun k => numbered base (k + 1)).find?
      fun s => !used.contains s).getD plain
  else plain

/-- A name that is free already is only cut. -/
theorem fresh_of_free {used : List String} {name : String}
    (h : String.ofList (cut maxLength name.toList) ∉ used) :
    fresh used name = String.ofList (cut maxLength name.toList) := by
  have h' : used.contains (String.ofList (cut maxLength name.toList)) = false := by
    simpa using h
  simp only [fresh, h', Bool.false_eq_true, ite_false]

/-! ## Lists of written names -/

/-- The identifier of the `i`-th written name of a list, counted from 0, when
    `used` are the earlier ones.  The fallback names its place. -/
def assign (stem : String) (used : List String) (i : Nat) (text : String) : String :=
  fresh used (slug (stem ++ "_" ++ toString (i + 1)) text)

end Swimlane.Identifier
