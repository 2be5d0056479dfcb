/-
  Swimlane — the program.

  It runs the command on real files.  Help and version go to the standard
  output; a refusal of the arguments ends with code 2, any other failure with
  code 1.  `wording` has the words of this program for the errors that are
  passed on.
-/
import Swimlane.CommandLine.Message

open Swimlane.CommandLine

/-- The console of the running program. -/
def terminal : Console IO where
  readFile path := do
    try
      return some (← IO.FS.readFile path)
    catch _ => return none
  readInput := do
    try
      let stdin ← IO.getStdin
      return some (← stdin.readToEnd)
    catch _ => return none
  writeFile path contents := do
    try
      IO.FS.writeFile path contents
      return true
    catch _ => return false
  writeOutput contents := do
    let stdout ← IO.getStdout
    stdout.putStr contents
    stdout.flush

/-- How the command is used. -/
def helpText : String :=
  "Compile an AI-drafted process candidate into BPMN 2.0 XML\n\n" ++
  "Usage: bpmn-draft [OPTIONS]\n\n" ++
  "Options:\n" ++
  "  -i, --input <INPUT>                  Candidate JSON file or '-' for stdin\n" ++
  "  -o, --output <OUTPUT>                Output file. Defaults to stdout if omitted\n" ++
  "  -e, --outputFormat <OUTPUT_FORMAT>   Output format: xml, result or layout\n" ++
  "  -c, --configFile <CONFIG>            Config JSON file (limits, layout, theme, rules)\n" ++
  "      --maxNodes <MAX_NODES>           [env: AI_DRAFT_MAX_NODES]\n" ++
  "      --maxFlows <MAX_FLOWS>           [env: AI_DRAFT_MAX_FLOWS]\n" ++
  "      --maxResponseBytes <BYTES>       [env: AI_DRAFT_MAX_RESPONSE_BYTES]\n" ++
  "      --policyVersion <VERSION>        [env: AI_DRAFT_POLICY_VERSION]\n" ++
  "  -t, --theme <THEME>                  Theme name: lanes (default) or plain\n" ++
  "      --createdAt <TIME>               Timestamp copied into the result envelope\n" ++
  "  -h, --help                           Print help\n" ++
  "  -V, --version                        Print version\n"

def versionText : String := "bpmn-draft 0.1.0\n"

def wording : Wording where
  candidate _ := "it cannot be read"
  settings _ := "the config is not valid JSON of the expected form"
  arguments
    | .invalidValue => "a value is missing or not one of the possible values"
    | .valueValidation => "a value is not a natural number"
    | .unknownArgument => "unexpected argument"
    | .argumentConflict => "an option is given more than once"
    | .tooManyValues => "unexpected value for a flag"
    | .displayHelp => helpText
    | .displayVersion => versionText
  file := "it cannot be read or written"

/-- The values of the variables that the options name. -/
def readEnvironment : IO (String → Option String) := do
  let values ← (Name.all.filterMap Name.environment?).mapM fun name => do
    return (name, ← IO.getEnv name)
  return fun name => (values.lookup name).bind id

def main (args : List String) : IO UInt32 := do
  let environment ← readEnvironment
  match ← (run terminal environment args).run with
  | .ok () => return 0
  | .error { cause := .usage .displayHelp, .. } =>
    IO.print helpText
    return 0
  | .error { cause := .usage .displayVersion, .. } =>
    IO.print versionText
    return 0
  | .error failure =>
    IO.eprintln ("error: " ++ failure.report wording)
    match failure.cause with
    | .usage _ => return 2
    | _ => return 1
