/-
  Swimlane — the arguments of the command.

  * A long option is `--name value` or `--name=value`, a short one `-n value`,
    `-nvalue` or `-n=value`.  A value that stands alone may not begin with a
    hyphen, unless it is a single hyphen.
  * No option may be given twice, and nothing but options is understood.
  * An option that is still without its value is settled when the next option
    comes or the arguments end; only an unknown argument goes first.
  * `Option.environment` names the variables that stand in for an option which
    is not given; they are read after the arguments.
-/

namespace Swimlane.CommandLine

/-! ## Options -/

/-- An option that takes a value. -/
inductive Name where
  | input
  | output
  | outputFormat
  | configFile
  | maxNodes
  | maxFlows
  | maxResponseBytes
  | policyVersion
  | theme
  | createdAt
  deriving DecidableEq, Repr

/-- What is written. -/
inductive OutputFormat where
  /-- The document. -/
  | xml
  /-- The whole answer. -/
  | result
  /-- The layout listing. -/
  | layout
  deriving DecidableEq, Repr

/-- Why the arguments are refused, or what else than compiling they ask
    for. -/
inductive UsageError where
  | invalidValue
  | valueValidation
  | unknownArgument
  | argumentConflict
  | tooManyValues
  | displayHelp
  | displayVersion
  deriving DecidableEq, Repr

def Name.long : Name → String
  | .input => "input"
  | .output => "output"
  | .outputFormat => "outputFormat"
  | .configFile => "configFile"
  | .maxNodes => "maxNodes"
  | .maxFlows => "maxFlows"
  | .maxResponseBytes => "maxResponseBytes"
  | .policyVersion => "policyVersion"
  | .theme => "theme"
  | .createdAt => "createdAt"

def Name.short? : Name → Option Char
  | .input => some 'i'
  | .output => some 'o'
  | .outputFormat => some 'e'
  | .configFile => some 'c'
  | .theme => some 't'
  | _ => none

/-- The variable that stands in for an option. -/
def Name.environment? : Name → Option String
  | .maxNodes => some "AI_DRAFT_MAX_NODES"
  | .maxFlows => some "AI_DRAFT_MAX_FLOWS"
  | .maxResponseBytes => some "AI_DRAFT_MAX_RESPONSE_BYTES"
  | .policyVersion => some "AI_DRAFT_POLICY_VERSION"
  | _ => none

def Name.all : List Name :=
  [.input, .output, .outputFormat, .configFile, .maxNodes, .maxFlows, .maxResponseBytes,
   .policyVersion, .theme, .createdAt]

/-- The arguments as they are understood. -/
structure Options where
  input : Option String := none
  output : Option String := none
  outputFormat : OutputFormat := .xml
  configFile : Option String := none
  maxNodes : Option Nat := none
  maxFlows : Option Nat := none
  maxResponseBytes : Option Nat := none
  policyVersion : Option String := none
  theme : Option String := none
  createdAt : Option String := none
  deriving DecidableEq, Repr

/-! ## Values -/

/-- A natural number of 64 bits: decimal digits, perhaps after a plus sign. -/
def naturalOf? (s : String) : Option Nat :=
  let digits := match s.toList with
    | '+' :: rest => rest
    | cs => cs
  if digits.isEmpty || !digits.all Char.isDigit then none
  else
    let n := digits.foldl (fun n d => 10 * n + (d.toNat - '0'.toNat)) 0
    if n < UInt64.size then some n else none

/-- The format of a name. -/
def OutputFormat.ofName? : String → Option OutputFormat
  | "xml" => some .xml
  | "result" => some .result
  | "layout" => some .layout
  | _ => none

/-- A natural number as the value of an option. -/
def naturalValue (s : String) : Except UsageError (Option Nat) :=
  match naturalOf? s with
  | some n => .ok (some n)
  | none => .error .valueValidation

/-- A file name as the value of an option. -/
def pathValue (s : String) : Except UsageError (Option String) :=
  if s.isEmpty then .error .invalidValue else .ok (some s)

def Options.set (o : Options) (name : Name) (value : String) : Except UsageError Options :=
  match name with
  | .input => (pathValue value).map fun v => { o with input := v }
  | .output => (pathValue value).map fun v => { o with output := v }
  | .configFile => (pathValue value).map fun v => { o with configFile := v }
  | .outputFormat =>
    match OutputFormat.ofName? value with
    | some f => .ok { o with outputFormat := f }
    | none => .error .invalidValue
  | .maxNodes => (naturalValue value).map fun v => { o with maxNodes := v }
  | .maxFlows => (naturalValue value).map fun v => { o with maxFlows := v }
  | .maxResponseBytes => (naturalValue value).map fun v => { o with maxResponseBytes := v }
  | .policyVersion => .ok { o with policyVersion := some value }
  | .theme => .ok { o with theme := some value }
  | .createdAt => .ok { o with createdAt := some value }

/-! ## Arguments -/

inductive Argument where
  /-- An option, with its value if the value is attached. -/
  | option (name : Name) (value : Option String)
  | help
  | version
  /-- A request for help or the version with a value, which neither takes. -/
  | surplusValue
  /-- Two hyphens: only plain arguments follow. -/
  | endOfOptions
  /-- An argument that is no option. -/
  | plain (value : String)
  | unknown
  deriving DecidableEq, Repr

/-- A long option: its name up to the first equals sign. -/
def Argument.ofLong (cs : List Char) : Argument :=
  let name := String.ofList (cs.takeWhile fun c => c != '=')
  let value := match cs.dropWhile fun c => c != '=' with
    | _ :: rest => some (String.ofList rest)
    | [] => none
  if name = "help" then if value.isSome then .surplusValue else .help
  else if name = "version" then if value.isSome then .surplusValue else .version
  else match Name.all.find? fun n => n.long = name with
    | some n => .option n value
    | none => .unknown

/-- A short option and what follows it. -/
def Argument.ofShort (c : Char) (rest : List Char) : Argument :=
  let value := match rest with
    | [] => none
    | '=' :: rest => some (String.ofList rest)
    | rest => some (String.ofList rest)
  if c = 'h' then .help
  else if c = 'V' then .version
  else match Name.all.find? fun n => n.short? = some c with
    | some n => .option n value
    | none => .unknown

def Argument.of (s : String) : Argument :=
  match s.toList with
  | ['-', '-'] => .endOfOptions
  | '-' :: '-' :: cs => ofLong cs
  | '-' :: c :: cs => ofShort c cs
  | _ => .plain s

/-- The arguments understood so far. -/
structure Progress where
  options : Options := {}
  given : List Name := []
  /-- An option that is not settled yet, and its value if that has come. -/
  pending : Option (Name × Option String) := none
  /-- Whether the pending option still takes the next argument. -/
  wantsValue : Bool := false

/-- Sets an option; it must have a value and must not have been given before. -/
def Progress.give (p : Progress) (name : Name) (value : Option String) :
    Except UsageError Progress :=
  match value with
  | none => .error .invalidValue
  | some v =>
    if p.given.contains name then .error .argumentConflict
    else (p.options.set name v).map fun o =>
      { options := o, given := name :: p.given }

/-- Settles the pending option. -/
def Progress.settle (p : Progress) : Except UsageError Progress :=
  match p.pending with
  | none => .ok p
  | some (name, value) => p.give name value

/-- Goes through the arguments.  After two hyphens everything is plain. -/
def Progress.take (p : Progress) : List String → Except UsageError Progress
  | [] => p.settle
  | s :: rest =>
    match Argument.of s with
    | .option name none => do
      let p ← p.settle
      { p with pending := some (name, none), wantsValue := true }.take rest
    | .option name (some value) => do
      let p ← p.settle
      (← p.give name (some value)).take rest
    | .help => do
      let _ ← p.settle
      .error .displayHelp
    | .version => do
      let _ ← p.settle
      .error .displayVersion
    | .surplusValue => .error .tooManyValues
    | .unknown => .error .unknownArgument
    | .endOfOptions => if rest.isEmpty then p.settle else .error .unknownArgument
    | .plain value =>
      match p.pending, p.wantsValue with
      | some (name, _), true =>
        { p with pending := some (name, some value), wantsValue := false }.take rest
      | _, _ => .error .unknownArgument

/-- Sets the options that are not given from the environment. -/
def Progress.fillFrom (environment : String → Option String) (p : Progress) :
    List Name → Except UsageError Options
  | [] => .ok p.options
  | name :: rest =>
    match name.environment?.bind environment with
    | some value =>
      if p.given.contains name then p.fillFrom environment rest
      else do
        let o ← p.options.set name value
        { p with options := o }.fillFrom environment rest
    | none => p.fillFrom environment rest

/-- Understands the arguments. -/
def Options.parse (environment : String → Option String) (args : List String) :
    Except UsageError Options := do
  let p ← ({} : Progress).take args
  p.fillFrom environment Name.all

end Swimlane.CommandLine
