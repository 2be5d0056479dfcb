/-
  Swimlane — the command.

  `run` is the whole command: arguments, settings, input, compilation, output,
  in this order; the first failure ends it, and nothing is written before all
  of the others have succeeded.

  It reads and writes through a `Console`, so that the same definition serves
  real files and a `Folder` kept in memory.
-/
import Swimlane.CommandLine.Options
import Swimlane.Compile
import Swimlane.Json.Printer
import Swimlane.Outline

namespace Swimlane.CommandLine

/-! ## Failures -/

/-- Why the command fails. -/
inductive Cause where
  | usage (error : UsageError)
  | fault (fault : Fault)
  /-- The settings are no JSON text or have a value of another type. -/
  | malformedConfig (text : String)
  | unknownTheme (name : String)
  /-- A file cannot be read as a text or cannot be written, or the standard input
      cannot be read as a text. -/
  | file

/-- A cause, and what was being done, outermost first. -/
structure Failure where
  context : List String := []
  cause : Cause

/-- The cause for refused settings. -/
def Cause.ofConfigError : ConfigError → Cause
  | .malformed text => .malformedConfig text
  | .unknownTheme name => .unknownTheme name
  | .fault f => .fault f

/-- What the command works on. -/
structure Console (m : Type → Type) where
  /-- What a file says, if it can be read and is a text. -/
  readFile : String → m (Option String)
  /-- What the standard input says, if it is a text. -/
  readInput : m (Option String)
  /-- Whether the file could be written. -/
  writeFile : String → String → m Bool
  writeOutput : String → m Unit

/-! ## Settings -/

/-- The settings with those replaced that the arguments give. -/
def Options.applyTo (o : Options) (config : Config) : Except Cause Config := do
  let limits := LimitsPatch.apply
    { maxNodes := o.maxNodes, maxFlows := o.maxFlows, maxResponseBytes := o.maxResponseBytes }
    config.limits
  let theme ← match o.theme with
    | none => .ok config.theme
    | some name =>
      match Theme.ofName? name with
      | some theme => .ok theme
      | none => .error (.unknownTheme name)
  match limits.check with
  | .error fault => .error (.fault fault)
  | .ok () =>
    return { config with
      limits, theme
      policyVersion := (o.policyVersion.map Text.trimString).getD config.policyVersion }

/-- The settings for the arguments, given the text of the settings file if one is
    named; a file that cannot be read has none. -/
def Options.resolve (o : Options) (file : Option String) : Except Failure Config := do
  let config ← match o.configFile with
    | none => .ok {}
    | some path =>
      let context := ["failed to load config " ++ path]
      match file with
      | none => .error { context, cause := .file }
      | some contents =>
        match Config.parse contents with
        | .ok config => .ok config
        | .error e => .error { context, cause := .ofConfigError e }
  match o.applyTo config with
  | .ok config => .ok config
  | .error cause => .error { cause }

/-! ## Output -/

/-- The text to write; a listing in a file has no line break at its end. -/
def Options.outputText (o : Options) (config : Config) (compiled : Compiled) : String :=
  match o.outputFormat with
  | .xml => compiled.xml
  | .result => (compiled.envelope config o.createdAt).pretty ++ "\n"
  | .layout =>
    let listing := ((Outline.of compiled.layout compiled.graph).toJson Json.ofFloat32).pretty
    if o.output.isSome then listing else listing ++ "\n"

/-- What was being done when a file could not be written; a listing is written
    without saying so. -/
def Options.writeContext (o : Options) (path : String) : List String :=
  match o.outputFormat with
  | .layout => []
  | _ => ["failed to write " ++ path]

/-! ## The command -/

/-- Whether a file name stands for the standard input: a single hyphen, perhaps
    followed by steps that stay where they are. -/
def isStandardInput (path : String) : Bool :=
  match path.splitOn "/" with
  | first :: rest => first = "-" && rest.all fun part => part = "" || part = "."
  | [] => false

section
variable {m : Type → Type} [Monad m]

def readConfig (console : Console m) (o : Options) : ExceptT Failure m Config := do
  let file ← match o.configFile with
    | some path => console.readFile path
    | none => pure none
  match o.resolve file with
  | .ok config => return config
  | .error failure => throw failure

def readStandardInput (console : Console m) : ExceptT Failure m String := do
  match ← console.readInput with
  | some contents => return contents
  | none => throw { cause := .file }

def readText (console : Console m) (o : Options) : ExceptT Failure m String := do
  match o.input with
  | none => readStandardInput console
  | some path =>
    if isStandardInput path then readStandardInput console
    else
      match ← console.readFile path with
      | some contents => return contents
      | none => throw { context := ["failed to read " ++ path], cause := .file }

/-- Writes the output. -/
def writeText (console : Console m) (o : Options) (contents : String) :
    ExceptT Failure m Unit := do
  match o.output with
  | none => console.writeOutput contents
  | some path =>
    if ← console.writeFile path contents then return ()
    else throw { context := o.writeContext path, cause := .file }

/-- The command with understood arguments. -/
def runWith (console : Console m) (o : Options) : ExceptT Failure m Unit := do
  let config ← readConfig console o
  let raw ← readText console o
  match compileText config raw with
  | .error fault => throw { cause := .fault fault }
  | .ok compiled => writeText console o (o.outputText config compiled)

def run (console : Console m) (environment : String → Option String) (args : List String) :
    ExceptT Failure m Unit := do
  match Options.parse environment args with
  | .error e => throw { cause := .usage e }
  | .ok o => runWith console o

end

/-! ## A folder in memory -/

/-- A working folder, the standard input, and what has been written to the
    standard output. -/
structure Folder where
  /-- The files, in the order of their names. -/
  files : List (String × String)
  /-- The standard input, if it is a text. -/
  input : Option String
  output : String := ""
  deriving DecidableEq, Repr

/-- The name of a file in the folder: a path may begin with steps that stay in
    the folder. -/
def fileName? (path : String) : Option String :=
  match (path.splitOn "/").reverse with
  | [name] => if name = "." || name = ".." || name = "" then none else some name
  | name :: steps =>
    let inside := (steps.reverse.head? = some ".") && steps.all fun s => s = "." || s = ""
    if !inside || name = "." || name = ".." || name = "" then none else some name
  | [] => none

/-- The console of a folder. -/
def Folder.console : Console (StateM Folder) where
  readFile path := do
    let folder ← get
    return (fileName? path).bind fun name => Keyed.get? name folder.files
  readInput := do
    let folder ← get
    return folder.input
  writeFile path contents :=
    match fileName? path with
    | some name => do
      modify fun folder => { folder with files := Keyed.insert name contents folder.files }
      return true
    | none => return false
  writeOutput contents := modify fun folder => { folder with output := folder.output ++ contents }

def Folder.run (folder : Folder) (environment : String → Option String) (args : List String) :
    Except Failure Unit × Folder :=
  Id.run ((CommandLine.run Folder.console environment args).run.run folder)

end Swimlane.CommandLine
