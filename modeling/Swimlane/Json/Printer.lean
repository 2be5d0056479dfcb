/-
  Swimlane — the text of a JSON value.

  * `Json.compact` writes no space at all.
  * `Json.pretty` puts each item on a line of its own, indented by two spaces
    per level; an empty array or object stays on its line.

  Both escape only the quote, the backslash and the control characters below
  the space.
-/
import Swimlane.Json.Basic

namespace Swimlane.Json

/-! ## Texts in quotes -/

/-- A hexadecimal digit, in lower case. -/
def hexDigit (n : Nat) : Char := Nat.digitChar n

/-- How a character stands between quotes. -/
def escapeChar (c : Char) : List Char :=
  match c with
  | '"' => ['\\', '"']
  | '\\' => ['\\', '\\']
  | '\n' => ['\\', 'n']
  | '\r' => ['\\', 'r']
  | '\t' => ['\\', 't']
  | '\x08' => ['\\', 'b']
  | '\x0c' => ['\\', 'f']
  | c =>
    if c.toNat < 0x20 then
      ['\\', 'u', '0', '0', hexDigit (c.toNat / 16), hexDigit (c.toNat % 16)]
    else [c]

/-- A text in quotes. -/
def quote (s : String) : List Char := '"' :: s.toList.flatMap escapeChar ++ ['"']

/-! ## Compact form -/

mutual

def compactChars : Json → List Char
  | .null => ['n', 'u', 'l', 'l']
  | .bool true => ['t', 'r', 'u', 'e']
  | .bool false => ['f', 'a', 'l', 's', 'e']
  | .num n => n.chars
  | .str s => quote s
  | .arr items => '[' :: compactItems items ++ [']']
  | .obj fields => '\x7b' :: compactFields fields ++ ['\x7d']

def compactItems : List Json → List Char
  | [] => []
  | [v] => compactChars v
  | v :: w :: rest => compactChars v ++ ',' :: compactItems (w :: rest)

def compactFields : List (String × Json) → List Char
  | [] => []
  | [(k, v)] => quote k ++ ':' :: compactChars v
  | (k, v) :: f :: rest => quote k ++ ':' :: compactChars v ++ ',' :: compactFields (f :: rest)

end

def compact (v : Json) : String := String.ofList (compactChars v)

/-! ## Pretty form -/

/-- A line break and the indentation of a level. -/
def newline (level : Nat) : List Char := '\n' :: List.replicate (2 * level) ' '

mutual

/-- The text of a value whose first line begins at the given level. -/
def prettyChars (level : Nat) : Json → List Char
  | .null => ['n', 'u', 'l', 'l']
  | .bool true => ['t', 'r', 'u', 'e']
  | .bool false => ['f', 'a', 'l', 's', 'e']
  | .num n => n.chars
  | .str s => quote s
  | .arr [] => ['[', ']']
  | .arr (v :: items) =>
    '[' :: newline (level + 1) ++ prettyChars (level + 1) v ++ prettyItems (level + 1) items ++
      newline level ++ [']']
  | .obj [] => ['\x7b', '\x7d']
  | .obj ((k, v) :: fields) =>
    '\x7b' :: newline (level + 1) ++ quote k ++ ':' :: ' ' :: prettyChars (level + 1) v ++
      prettyFields (level + 1) fields ++ newline level ++ ['\x7d']

def prettyItems (level : Nat) : List Json → List Char
  | [] => []
  | v :: rest => ',' :: newline level ++ prettyChars level v ++ prettyItems level rest

def prettyFields (level : Nat) : List (String × Json) → List Char
  | [] => []
  | (k, v) :: rest =>
    ',' :: newline level ++ quote k ++ ':' :: ' ' :: prettyChars level v ++ prettyFields level rest

end

/-- The text of a value with one item on each line. -/
def pretty (v : Json) : String := String.ofList (prettyChars 0 v)

end Swimlane.Json
