/-
  Swimlane — blank characters and the plain form of a text.

  * `isBlank` is the Unicode property White_Space: 25 characters in ten
    ranges.  The separators U+001C to U+001F, the zero-width characters and the
    byte order mark are not blank.
  * `trim` drops the blanks at both ends, `collapse` turns each run of blanks
    into one space, and `plain` is what the program keeps of a written text:
    trimmed, collapsed and cut to a number of characters.
  * `collapse_blank` and `plain_length`: the only blank of a collapsed text is
    the space, and a plain text keeps its limit.
-/

namespace Swimlane.Text

/-! ## Blank characters -/

/-- The ranges of the property White_Space, both ends included. -/
def blankRanges : List (Nat × Nat) :=
  [(0x09, 0x0D), (0x20, 0x20), (0x85, 0x85), (0xA0, 0xA0), (0x1680, 0x1680),
   (0x2000, 0x200A), (0x2028, 0x2029), (0x202F, 0x202F), (0x205F, 0x205F), (0x3000, 0x3000)]

/-- Whether a character is white space. -/
def isBlank (c : Char) : Bool :=
  blankRanges.any fun r => r.1 ≤ c.toNat && c.toNat ≤ r.2

/-- The number of blank characters is 25. -/
example : (blankRanges.map fun r => r.2 + 1 - r.1).sum = 25 := by decide

@[simp] theorem isBlank_space : isBlank ' ' = true := by decide

/-! ## Trimming -/

/-- The text without the characters at its end that satisfy `p`. -/
def dropEndWhile (p : Char → Bool) (cs : List Char) : List Char :=
  (cs.reverse.dropWhile p).reverse

/-- The text without the characters at both ends that satisfy `p`. -/
def trimWhile (p : Char → Bool) (cs : List Char) : List Char :=
  dropEndWhile p (cs.dropWhile p)

/-- The text without the blanks at both ends. -/
def trim (cs : List Char) : List Char := trimWhile isBlank cs

/-- `trim` on strings. -/
def trimString (s : String) : String := String.ofList (trim s.toList)

theorem dropEndWhile_isPrefixOf (p : Char → Bool) (cs : List Char) : dropEndWhile p cs <+: cs := by
  have h := List.dropWhile_suffix p (l := cs.reverse)
  simpa [dropEndWhile] using List.reverse_prefix.2 h

/-- Trimming only drops characters. -/
theorem trim_length_le (cs : List Char) : (trim cs).length ≤ cs.length :=
  Nat.le_trans (dropEndWhile_isPrefixOf _ _).length_le (List.dropWhile_suffix _).length_le

/-! ## Collapsing -/

/-- Each run of blanks becomes one space; `inRun` says that the run going on
    has been written already. -/
def collapseFrom (inRun : Bool) : List Char → List Char
  | [] => []
  | c :: cs =>
    if isBlank c then
      if inRun then collapseFrom true cs else ' ' :: collapseFrom true cs
    else c :: collapseFrom false cs

/-- Each run of blanks becomes one space. -/
def collapse (cs : List Char) : List Char := collapseFrom false cs

/-- The only blank of a collapsed text is the space. -/
theorem collapseFrom_blank {cs : List Char} {inRun : Bool} {c : Char}
    (hc : c ∈ collapseFrom inRun cs) (hb : isBlank c = true) : c = ' ' := by
  induction cs generalizing inRun with
  | nil => simp [collapseFrom] at hc
  | cons d cs ih =>
    rw [collapseFrom] at hc
    split at hc
    · split at hc
      · exact ih hc
      · rcases List.mem_cons.1 hc with rfl | hc
        · rfl
        · exact ih hc
    · rcases List.mem_cons.1 hc with rfl | hc
      · simp_all
      · exact ih hc

/-- **A collapsed text** has no blank but the space. -/
theorem collapse_blank {cs : List Char} {c : Char} (hc : c ∈ collapse cs)
    (hb : isBlank c = true) : c = ' ' :=
  collapseFrom_blank hc hb

/-! ## The plain form -/

/-- What is kept of a written text: no blanks at its ends, one space between
    words, and at most `limit` characters. -/
def plain (limit : Nat) (cs : List Char) : List Char := (collapse (trim cs)).take limit

/-- `plain` on strings. -/
def plainString (limit : Nat) (s : String) : String := String.ofList (plain limit s.toList)

theorem plain_length (limit : Nat) (cs : List Char) : (plain limit cs).length ≤ limit :=
  List.length_take_le _ _

end Swimlane.Text
