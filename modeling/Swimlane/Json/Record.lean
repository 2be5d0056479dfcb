/-
  Swimlane — records in JSON.

  A record has known fields.  It is written as an object, in which unknown
  fields are ignored and no known field may be repeated, or as an array of its
  values in the order of its fields.

  * `record?` gives the fields that are present;
  * the decoders below it read one value each, and fail on a value of another
    type.
-/
import Swimlane.Json.Basic

namespace Swimlane.Json

/-- What a decoder makes of a value. -/
abbrev Decoder (α : Type) := Json → Option α

/-- The fields of a record that are present.  An array gives the first fields;
    with `complete` it has to give all of them. -/
def record? (names : List String) (complete : Bool) : Decoder (List (String × Json))
  | .obj fields =>
    let known := fields.filter fun f => names.contains f.1
    if (known.map Prod.fst).Nodup then some known else none
  | .arr items =>
    if items.length = names.length || (!complete && items.length < names.length) then
      some (names.zip items)
    else none
  | _ => none

/-! ## Fields -/

/-- A field that has to be present. -/
def required {α : Type} (d : Decoder α) (fields : List (String × Json)) (key : String) : Option α :=
  (fields.lookup key).bind d

/-- A field that may be absent or `null`. -/
def optional {α : Type} (d : Decoder α) (fields : List (String × Json)) (key : String) :
    Option (Option α) :=
  match fields.lookup key with
  | none | some .null => some none
  | some v => (d v).map some

/-- A field that keeps a default value when it is absent. -/
def defaulted {α : Type} (d : Decoder α) (default : α) (fields : List (String × Json))
    (key : String) : Option α :=
  match fields.lookup key with
  | none => some default
  | some v => d v

/-! ## Values -/

/-- A natural number of 64 bits, written as an integer. -/
def natural : Decoder Nat
  | .num n => n.natural?
  | _ => none

/-- A number, rounded to 32 bits. -/
def single : Decoder Float32
  | .num n => n.numeral?.map Numeral.toFloat32
  | _ => none

def text : Decoder String
  | .str s => some s
  | _ => none

def truth : Decoder Bool
  | .bool b => some b
  | _ => none

/-- An array whose items all decode. -/
def listOf {α : Type} (d : Decoder α) : Decoder (List α)
  | .arr items => items.mapM d
  | _ => none

/-- One of several named values: its name, or an object with `null` under that
    name. -/
def named {α : Type} (ofName? : String → Option α) : Decoder α
  | .str s => ofName? s
  | .obj [(s, .null)] => ofName? s
  | _ => none

end Swimlane.Json
