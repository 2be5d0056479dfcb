/-
  Swimlane — reading JSON text.

  The reader goes through the text once, character by character.  Its state
  (`Machine`) is the list of the arrays and objects that are still open, each
  part way through, and what may come next (`Mode`).

  * `step` takes one character.  It fails on a character that nothing could
    follow, on nesting deeper than allowed, on a number out of range and on a
    bad escape: such a text is `malformed`.  A text that ends where more was
    required is `incomplete`.
  * A `Shape` says which parts of the text will be looked at.  Fields that
    nobody knows are only skimmed: their numbers may be out of range, their
    escapes may stand for half of a character, and they may nest at will.
  * `read` reads a text in full, `readAs` reads it for a given shape.
-/
import Swimlane.Json.Basic

namespace Swimlane.Json

inductive ReadError where
  /-- A character that nothing could follow. -/
  | malformed
  /-- The text ends where more was required. -/
  | incomplete
  deriving DecidableEq, Repr

/-! ## Shapes -/

/-- How closely the parts of a value are read. -/
inductive Shape where
  /-- Every part counts. -/
  | full
  /-- No part counts, only that the value ends. -/
  | skimmed
  /-- An object with these known fields, or an array of their values in this
      order. -/
  | fields (known : List (String × Shape))
  /-- An array of values of one shape. -/
  | each (item : Shape)

/-- The shape of the next item of an array, after `before`. -/
def Shape.item (s : Shape) (before : List Json) : Shape :=
  match s with
  | .skimmed => .skimmed
  | .each item => item
  | .fields known => (known[before.length]?.map Prod.snd).getD .full
  | .full => .full

/-- The shape of the value of a field. -/
def Shape.field (s : Shape) (key : String) : Shape :=
  match s with
  | .skimmed => .skimmed
  | .fields known => (known.lookup key).getD .skimmed
  | _ => .full

/-- Whether the value is only skimmed. -/
def Shape.isSkimmed : Shape → Bool
  | .skimmed => true
  | _ => false

/-! ## Numbers -/

/-- How far a number has been read. -/
inductive NumberStage where
  | sign
  | zero
  | whole
  | point
  | fraction
  | mark
  | markSign
  | exponent
  deriving DecidableEq, Repr

/-- A number part way through, the digits last first. -/
structure NumberScan where
  stage : NumberStage
  negative : Bool := false
  whole : List Char := []
  fraction : List Char := []
  down : Bool := false
  exponent : List Char := []

/-- What a character does to a number or a text that is being read. -/
inductive Reading (α : Type) where
  | more (scan : α)
  /-- The character ends it. -/
  | ended
  | wrong

/-- The first character of a number. -/
def NumberScan.begin? (c : Char) : Option NumberScan :=
  if c = '-' then some { stage := .sign, negative := true }
  else if c = '0' then some { stage := .zero, whole := [c] }
  else if c.isDigit then some { stage := .whole, whole := [c] }
  else none

def NumberScan.afterDigits (s : NumberScan) (c : Char) (pointAllowed : Bool) : Reading NumberScan :=
  if c = '.' && pointAllowed then .more { s with stage := .point }
  else if c = 'e' || c = 'E' then .more { s with stage := .mark }
  else .ended

def NumberScan.step (s : NumberScan) (c : Char) : Reading NumberScan :=
  match s.stage with
  | .sign =>
    if c = '0' then .more { s with stage := .zero, whole := [c] }
    else if c.isDigit then .more { s with stage := .whole, whole := [c] }
    else .wrong
  | .zero => if c.isDigit then .wrong else s.afterDigits c true
  | .whole => if c.isDigit then .more { s with whole := c :: s.whole } else s.afterDigits c true
  | .point => if c.isDigit then .more { s with stage := .fraction, fraction := [c] } else .wrong
  | .fraction =>
    if c.isDigit then .more { s with fraction := c :: s.fraction } else s.afterDigits c false
  | .mark =>
    if c = '+' then .more { s with stage := .markSign }
    else if c = '-' then .more { s with stage := .markSign, down := true }
    else if c.isDigit then .more { s with stage := .exponent, exponent := [c] }
    else .wrong
  | .markSign => if c.isDigit then .more { s with stage := .exponent, exponent := [c] } else .wrong
  | .exponent => if c.isDigit then .more { s with exponent := c :: s.exponent } else .ended

/-- Whether the number may end here. -/
def NumberScan.isComplete (s : NumberScan) : Bool :=
  match s.stage with
  | .zero | .whole | .fraction | .exponent => true
  | .sign | .point | .mark | .markSign => false

def NumberScan.number (s : NumberScan) : Number where
  negative := s.negative
  whole := s.whole.reverse
  fraction := s.fraction.reverse
  exponent := if s.exponent.isEmpty then none else some (s.down, s.exponent.reverse)

/-- The value of a complete number; it must be in range unless it is skimmed. -/
def NumberScan.value? (skim : Bool) (s : NumberScan) : Option Json :=
  if skim || s.number.numeral?.isSome then some (.num s.number) else none

/-! ## Texts -/

/-- How far an escape has been read. -/
inductive Escape where
  /-- None is open. -/
  | none
  | backslash
  /-- A code of four bytes, after the first half `high` of a pair if there is
      one: the bytes and the value so far, and whether one was no digit. -/
  | code (high : Option Nat) (bytes value : Nat) (bad : Bool)
  /-- The first half of a pair: a backslash must follow. -/
  | pair (high : Nat)
  /-- The first half of a pair and a backslash: the letter u must follow. -/
  | pairBackslash (high : Nat)
  deriving DecidableEq, Repr

/-- A text part way through, its characters last first. -/
structure TextScan where
  chars : List Char := []
  escape : Escape := .none

def hexValue? (c : Char) : Option Nat :=
  let n := c.toNat
  if c.isDigit then some (n - '0'.toNat)
  else if 0x61 ≤ n && n ≤ 0x66 then some (n - 0x61 + 10)
  else if 0x41 ≤ n && n ≤ 0x46 then some (n - 0x41 + 10)
  else Option.none

/-- The character of a short escape. -/
def shortEscape? : Char → Option Char
  | '"' => some '"'
  | '\\' => some '\\'
  | '/' => some '/'
  | 'b' => some '\x08'
  | 'f' => some '\x0c'
  | 'n' => some '\n'
  | 'r' => some '\r'
  | 't' => some '\t'
  | _ => Option.none

def isHigh (n : Nat) : Bool := 0xD800 ≤ n && n ≤ 0xDBFF

def isLow (n : Nat) : Bool := 0xDC00 ≤ n && n ≤ 0xDFFF

/-- Takes a complete code of four digits. -/
def TextScan.takeCode? (skim : Bool) (s : TextScan) (high : Option Nat) (n : Nat) :
    Option TextScan :=
  if skim then some { s with escape := .none }
  else match high with
    | some h =>
      if isLow n then
        some { chars := Char.ofNat (0x10000 + (h - 0xD800) * 0x400 + (n - 0xDC00)) :: s.chars }
      else Option.none
    | Option.none =>
      if isLow n then Option.none
      else if isHigh n then some { s with escape := .pair n }
      else some { chars := Char.ofNat n :: s.chars }

/-- Takes the next character of a text.  A code is judged when four bytes of it
    have been seen. -/
def TextScan.step (skim : Bool) (s : TextScan) (c : Char) : Reading TextScan :=
  match s.escape with
  | .none =>
    if c = '"' then .ended
    else if c = '\\' then .more { s with escape := .backslash }
    else if c.toNat < 0x20 then .wrong
    else .more { s with chars := c :: s.chars }
  | .backslash =>
    if c = 'u' then .more { s with escape := .code Option.none 0 0 false }
    else match shortEscape? c with
      | some d => .more { chars := d :: s.chars }
      | Option.none => .wrong
  | .code high bytes value bad =>
    let digit := hexValue? c
    let bytes := bytes + c.utf8Size
    let value := 16 * value + digit.getD 0
    let bad := bad || digit.isNone
    if bytes < 4 then .more { s with escape := .code high bytes value bad }
    else if bad then .wrong
    else match s.takeCode? skim high value with
      | some s => .more s
      | Option.none => .wrong
  | .pair high => if c = '\\' then .more { s with escape := .pairBackslash high } else .wrong
  | .pairBackslash high =>
    if c = 'u' then .more { s with escape := .code (some high) 0 0 false } else .wrong

def TextScan.text (s : TextScan) : String := String.ofList s.chars.reverse

/-! ## The machine -/

/-- An array or object that is still open, its parts last first. -/
inductive Frame where
  | arr (shape : Shape) (done : List Json)
  /-- The value of `key` is being read. -/
  | obj (shape : Shape) (done : List (String × Json)) (key : String)

/-- What may come next. -/
inductive Mode where
  /-- A value. -/
  | value (shape : Shape)
  /-- A value, or the end of the array. -/
  | firstItem (shape : Shape)
  /-- A key, or the end of the object. -/
  | firstKey (shape : Shape)
  /-- A key, after a comma. -/
  | key (shape : Shape) (done : List (String × Json))
  /-- The rest of a key. -/
  | keyText (shape : Shape) (done : List (String × Json)) (scan : TextScan)
  /-- The colon after a key. -/
  | colon (shape : Shape) (done : List (String × Json)) (key : String)
  /-- The rest of `null`, `true` or `false`. -/
  | word (rest : List Char) (v : Json)
  /-- The rest of a number. -/
  | number (skim : Bool) (scan : NumberScan)
  /-- The rest of a text. -/
  | text (skim : Bool) (scan : TextScan)
  /-- What follows a complete value. -/
  | after (v : Json)

/-- The state of the reader. -/
structure Machine where
  stack : List Frame
  mode : Mode

/-- The space between tokens. -/
def isGap (c : Char) : Bool := c = ' ' || c = '\t' || c = '\n' || c = '\r'

/-- Begins a value with its first character. -/
def beginValue (maxDepth : Nat) (stack : List Frame) (shape : Shape) (c : Char) : Option Machine :=
  let opening (mode : Mode) : Option Machine :=
    if shape.isSkimmed || stack.length < maxDepth then some ⟨stack, mode⟩ else none
  match c with
  | '[' => opening (.firstItem shape)
  | '\x7b' => opening (.firstKey shape)
  | '"' => some ⟨stack, .text shape.isSkimmed {}⟩
  | 'n' => some ⟨stack, .word ['u', 'l', 'l'] .null⟩
  | 't' => some ⟨stack, .word ['r', 'u', 'e'] (.bool true)⟩
  | 'f' => some ⟨stack, .word ['a', 'l', 's', 'e'] (.bool false)⟩
  | c => (NumberScan.begin? c).map fun scan => ⟨stack, .number shape.isSkimmed scan⟩

def afterValue (stack : List Frame) (v : Json) (c : Char) : Option Machine :=
  if isGap c then some ⟨stack, .after v⟩
  else match stack, c with
    | .arr shape done :: stack, ',' =>
      some ⟨.arr shape (v :: done) :: stack, .value (shape.item (v :: done))⟩
    | .arr _ done :: stack, ']' => some ⟨stack, .after (.arr (v :: done).reverse)⟩
    | .obj shape done key :: stack, ',' => some ⟨stack, .key shape ((key, v) :: done)⟩
    | .obj _ done key :: stack, '\x7d' =>
      some ⟨stack, .after (.obj ((key, v) :: done).reverse)⟩
    | _, _ => none

def step (maxDepth : Nat) (m : Machine) (c : Char) : Option Machine :=
  match m.mode with
  | .value shape => if isGap c then some m else beginValue maxDepth m.stack shape c
  | .firstItem shape =>
    if isGap c then some m
    else if c = ']' then some ⟨m.stack, .after (.arr [])⟩
    else beginValue maxDepth (.arr shape [] :: m.stack) (shape.item []) c
  | .firstKey shape =>
    if isGap c then some m
    else if c = '\x7d' then some ⟨m.stack, .after (.obj [])⟩
    else if c = '"' then some ⟨m.stack, .keyText shape [] {}⟩
    else none
  | .key shape done =>
    if isGap c then some m
    else if c = '"' then some ⟨m.stack, .keyText shape done {}⟩
    else none
  | .keyText shape done scan =>
    match scan.step shape.isSkimmed c with
    | .more scan => some ⟨m.stack, .keyText shape done scan⟩
    | .ended => some ⟨m.stack, .colon shape done scan.text⟩
    | .wrong => none
  | .colon shape done key =>
    if isGap c then some m
    else if c = ':' then some ⟨.obj shape done key :: m.stack, .value (shape.field key)⟩
    else none
  | .word rest v =>
    match rest with
    | d :: rest =>
      if c = d then some ⟨m.stack, if rest.isEmpty then .after v else .word rest v⟩ else none
    | [] => none
  | .number skim scan =>
    match scan.step c with
    | .more scan => some ⟨m.stack, .number skim scan⟩
    | .ended => (scan.value? skim).bind fun v => afterValue m.stack v c
    | .wrong => none
  | .text skim scan =>
    match scan.step skim c with
    | .more scan => some ⟨m.stack, .text skim scan⟩
    | .ended => some ⟨m.stack, .after (.str scan.text)⟩
    | .wrong => none
  | .after v => afterValue m.stack v c

def run (maxDepth : Nat) : Machine → List Char → Option Machine
  | m, [] => some m
  | m, c :: cs => (step maxDepth m c).bind fun m => run maxDepth m cs

/-- The value that has been read when the text ends. -/
def finish (m : Machine) : Except ReadError Json :=
  match m.mode with
  | .after v => if m.stack.isEmpty then .ok v else .error .incomplete
  | .number skim scan =>
    if scan.isComplete then
      match scan.value? skim with
      | some v => if m.stack.isEmpty then .ok v else .error .incomplete
      | none => .error .malformed
    else .error .incomplete
  | _ => .error .incomplete

/-- Reads a text whose arrays and objects nest at most `maxDepth` deep. -/
def readWithin (maxDepth : Nat) (shape : Shape) (text : String) : Except ReadError Json :=
  match run maxDepth ⟨[], .value shape⟩ text.toList with
  | some m => finish m
  | none => .error .malformed

/-- How deep arrays and objects may nest. -/
def depthLimit : Nat := 127

/-- Reads a text of which only the parts of the shape count. -/
def readAs (shape : Shape) (text : String) : Except ReadError Json :=
  readWithin depthLimit shape text

def read (text : String) : Except ReadError Json := readAs .full text

theorem run_append (maxDepth : Nat) (m : Machine) (cs ds : List Char) :
    run maxDepth m (cs ++ ds) = (run maxDepth m cs).bind fun m => run maxDepth m ds := by
  induction cs generalizing m with
  | nil => rfl
  | cons c cs ih =>
    simp only [List.cons_append, run]
    cases step maxDepth m c with
    | none => rfl
    | some m => simpa using ih m

end Swimlane.Json
