/-
  Swimlane — compilation for a web page.

  The page passes the text of a candidate and perhaps options as a JSON text,
  and gets the document, or the whole answer in compact form.
-/
import Swimlane.Compile
import Swimlane.Json.Printer

namespace Swimlane.Browser

open Json (Decoder Shape record? optional natural text truth)

structure Options where
  limits : LimitsPatch := {}
  theme : Option String := none
  policyVersion : Option String := none
  createdAt : Option String := none
  /-- Whether the whole answer is wanted instead of the document. -/
  resultEnvelope : Option Bool := none

inductive Error where
  /-- The text of the options is no JSON text or has a value of another type. -/
  | malformedOptions (text : String)
  | unknownTheme (name : String)
  | fault (fault : Fault)

/-- An error in words; `candidate` and `options` are those of the reader of JSON about
    a text that it does not read, or not as options. -/
def Error.message (candidate options : String → String) : Error → String
  | .malformedOptions text => options text
  | .unknownTheme name => "unknown theme '" ++ name ++ "'"
  | .fault f => f.message candidate

def Options.fields : List String :=
  ["maxNodes", "maxFlows", "maxResponseBytes", "theme", "policyVersion", "createdAt",
   "resultEnvelope"]

def Options.decode : Decoder Options := fun v => do
  let fs ← record? fields true v
  return {
    limits := {
      maxNodes := ← optional natural fs "maxNodes"
      maxFlows := ← optional natural fs "maxFlows"
      maxResponseBytes := ← optional natural fs "maxResponseBytes" }
    theme := ← optional text fs "theme"
    policyVersion := ← optional text fs "policyVersion"
    createdAt := ← optional text fs "createdAt"
    resultEnvelope := ← optional truth fs "resultEnvelope" }

def Options.parse (contents : String) : Except Error Options :=
  match Json.readAs (flatShape fields) contents with
  | .error _ => .error (.malformedOptions contents)
  | .ok v =>
    match decode v with
    | some o => .ok o
    | none => .error (.malformedOptions contents)

def Options.config (o : Options) : Except Error Config := do
  let default : Config := {}
  let theme ← match o.theme with
    | some name =>
      match Theme.ofName? name with
      | some theme => .ok theme
      | none => .error (.unknownTheme name)
    | none => .ok default.theme
  return { default with
    limits := o.limits.apply default.limits
    theme
    policyVersion := (o.policyVersion.map Text.trimString).getD default.policyVersion }

def compileWith (o : Options) (raw : String) : Except Error String := do
  let config ← o.config
  match compileText config raw with
  | .error fault => .error (.fault fault)
  | .ok compiled =>
    if o.resultEnvelope.getD false then
      return (compiled.envelope config o.createdAt).compact
    else return compiled.xml

/-- Compiles a candidate with the options in a text; without a text all
    options have their defaults. -/
def compile (raw : String) (options : Option String) : Except Error String := do
  let o ← match options with
    | some contents => Options.parse contents
    | none => .ok {}
  compileWith o raw

end Swimlane.Browser
