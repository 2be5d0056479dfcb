/-
  Swimlane — lower case and plain letters.

  Names and keywords are compared without case and without accents.

  * `lower` gives the lower case of a character.  It covers the capitals whose
    lower case is an ASCII letter or a Latin-1 letter: the capitals of these
    two blocks, the dotted capital I (which becomes an i and a combining dot)
    and the Kelvin sign.  The other capitals of Unicode go to small letters
    that, like the capitals themselves, occur in no identifier and fold to no
    plain letter, so they are left as they are.
  * `fold` replaces the accented vowels, ç and ñ by the plain letter.
-/

namespace Swimlane.Text

/-- The lower case of a character, as far as an identifier or a keyword can
    tell. -/
def lowerChar (c : Char) : List Char :=
  let n := c.toNat
  if (0x41 ≤ n && n ≤ 0x5A) || (0xC0 ≤ n && n ≤ 0xDE && n != 0xD7) then [Char.ofNat (n + 32)]
  else if n = 0x130 then ['i', '\u0307']
  else if n = 0x212A then ['k']
  else [c]

/-- A text in lower case. -/
def lower (cs : List Char) : List Char := cs.flatMap lowerChar

/-- Each plain letter with the accented letters that fold to it. -/
def accents : List (Char × List Char) :=
  [('a', ['á', 'à', 'â', 'ã', 'ä']),
   ('e', ['é', 'è', 'ê', 'ë']),
   ('i', ['í', 'ì', 'î', 'ï']),
   ('o', ['ó', 'ò', 'ô', 'õ', 'ö']),
   ('u', ['ú', 'ù', 'û', 'ü']),
   ('c', ['ç']),
   ('n', ['ñ'])]

/-- The plain letter of a small accented letter; other characters stay. -/
def foldChar (c : Char) : Char :=
  match accents.find? fun row => row.2.contains c with
  | some row => row.1
  | none => c

/-- A text without accents on its small letters. -/
def fold (cs : List Char) : List Char := cs.map foldChar

/-- `fold` on strings. -/
def foldString (s : String) : String := String.ofList (fold s.toList)

@[simp] theorem fold_length (cs : List Char) : (fold cs).length = cs.length :=
  List.length_map ..

end Swimlane.Text
