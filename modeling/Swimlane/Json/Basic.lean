/-
  Swimlane — JSON values.

  A value keeps the fields of an object as they are written, repeated keys
  included; `Json.get?` takes the last field of a key.
-/
import Swimlane.Json.Number

namespace Swimlane

/-- A JSON value. -/
inductive Json where
  | null
  | bool (b : Bool)
  | num (n : Json.Number)
  | str (s : String)
  | arr (items : List Json)
  | obj (fields : List (String × Json))
  deriving Inhabited, Repr

namespace Json

/-- The last of the fields with this key. -/
def lastField? (key : String) : List (String × Json) → Option Json
  | [] => none
  | f :: fs => (lastField? key fs).orElse fun _ => if f.1 = key then some f.2 else none

/-- The field of an object; of repeated keys the last one counts. -/
def get? (v : Json) (key : String) : Option Json :=
  match v with
  | .obj fields => lastField? key fields
  | _ => none

def ofNat (n : Nat) : Json := .num (.ofNat n)

/-- A floating-point number as a value; `null` stands for what is neither finite
    nor a number. -/
def ofFloat32 (x : Float32) : Json :=
  match Number.ofFloat32 x with
  | some n => .num n
  | none => .null

def ofStrings (ss : List String) : Json := .arr (ss.map .str)

/-- The field `key`, left out when there is no value. -/
def optionalField (key : String) (v : Option Json) : List (String × Json) :=
  match v with
  | some v => [(key, v)]
  | none => []

/-- A value that may be missing; `null` stands for a missing one. -/
def orNull (v : Option Json) : Json := v.getD .null

end Json

end Swimlane
