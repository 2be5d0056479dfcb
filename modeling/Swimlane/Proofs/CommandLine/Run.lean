/-
  Swimlane — the command in a folder.

  The command reads its settings and the candidate, compiles, and only then writes.  All
  that comes before the writing depends on the folder and leaves it as it is.

  * `Folder.after`, `Folder.runWith`: what a part of the command, or all of it, gives in a
    folder; `after_bind`: one part after the other.
  * `Folder.contents?`, `Folder.standard`, `Folder.candidate`, `Folder.compile`: what is
    read and compiled.  `after_readConfig`, `after_readText`: the parts that read give this;
    `compile_eq_ok`: when there is something to write.
  * `after_writeText_output`, `after_writeText_file`: the part that writes.
  * `runWith_eq_compile`: the command compiles and then writes.
-/
import Swimlane.CommandLine.Session
import Swimlane.Proofs.Stages

namespace Swimlane.CommandLine

/-- What a part of the command gives in a folder. -/
def Folder.after {β : Type} (folder : Folder) (x : ExceptT Failure (StateM Folder) β) :
    Except Failure β × Folder :=
  Id.run (x.run.run folder)

/-- The command with understood arguments, in a folder. -/
def Folder.runWith (folder : Folder) (o : Options) : Except Failure Unit × Folder :=
  folder.after (CommandLine.runWith Folder.console o)

/-- The folder after a text has been written to the standard output. -/
def Folder.print (folder : Folder) (contents : String) : Folder :=
  { folder with output := folder.output ++ contents }

/-- The folder after a text has been written to a file. -/
def Folder.save (folder : Folder) (name contents : String) : Folder :=
  { folder with files := Keyed.insert name contents folder.files }

/-! ## What is read -/

/-- What a file of the folder says. -/
def Folder.contents? (folder : Folder) (path : String) : Option String :=
  (fileName? path).bind fun name => Keyed.get? name folder.files

/-- The standard input, which has to be a text. -/
def Folder.standard (folder : Folder) : Except Failure String :=
  match folder.input with
  | some contents => .ok contents
  | none => .error { cause := .file }

/-- The text of the candidate that the options name. -/
def Folder.candidate (folder : Folder) (o : Options) : Except Failure String :=
  match o.input with
  | none => folder.standard
  | some path =>
    if isStandardInput path then folder.standard
    else
      match folder.contents? path with
      | some contents => .ok contents
      | none => .error { context := ["failed to read " ++ path], cause := .file }

/-- What the command makes of its options before it writes anything. -/
def Folder.compile (folder : Folder) (o : Options) : Except Failure (Config × Compiled) := do
  let config ← o.resolve (o.configFile.bind folder.contents?)
  let raw ← folder.candidate o
  match compileText config raw with
  | .error fault => .error { cause := .fault fault }
  | .ok compiled => .ok (config, compiled)

section
variable {folder : Folder} {o : Options}

theorem after_bind {β γ : Type} (x : ExceptT Failure (StateM Folder) β)
    (f : β → ExceptT Failure (StateM Folder) γ) : folder.after (x >>= f) =
      match folder.after x with
      | (.ok b, folder) => folder.after (f b)
      | (.error failure, folder) => (.error failure, folder) := by
  simp only [Folder.after, ExceptT.run_bind, StateT.run_bind, Id.run_bind]
  obtain ⟨b | failure, folder⟩ := (x.run.run folder).run <;> rfl

theorem after_readFile (path : String) :
    folder.after (liftM (Folder.console.readFile path)) = (.ok (folder.contents? path), folder) :=
  rfl

theorem after_readConfig : folder.after (readConfig Folder.console o) =
    (o.resolve (o.configFile.bind folder.contents?), folder) := by
  unfold readConfig
  cases o.configFile with
  | none =>
    simp only [pure_bind, Option.bind_none]
    cases o.resolve none <;> rfl
  | some path =>
    simp only [after_bind, after_readFile, Option.bind_some]
    cases o.resolve (folder.contents? path) <;> rfl

theorem after_readStandardInput :
    folder.after (readStandardInput Folder.console) = (folder.standard, folder) := by
  have hinput : folder.after (liftM Folder.console.readInput) = (.ok folder.input, folder) := rfl
  unfold readStandardInput Folder.standard
  simp only [after_bind, hinput]
  cases folder.input <;> rfl

theorem after_readText :
    folder.after (readText Folder.console o) = (folder.candidate o, folder) := by
  unfold readText Folder.candidate
  cases o.input with
  | none => exact after_readStandardInput
  | some path =>
    simp only
    by_cases hstandard : isStandardInput path = true
    · rw [if_pos hstandard, if_pos hstandard]
      exact after_readStandardInput
    · rw [if_neg hstandard, if_neg hstandard]
      simp only [after_bind, after_readFile]
      cases folder.contents? path <;> rfl

/-- The command has a text to write if its settings, the candidate and the compilation
    are in order. -/
theorem compile_eq_ok {config : Config} {compiled : Compiled} :
    folder.compile o = .ok (config, compiled) ↔
      o.resolve (o.configFile.bind folder.contents?) = .ok config ∧
        ∃ raw, folder.candidate o = .ok raw ∧ compileText config raw = .ok compiled := by
  unfold Folder.compile
  rw [bind_eq_ok]
  constructor
  · rintro ⟨config', hconfig, h⟩
    obtain ⟨raw, hraw, h⟩ := bind_eq_ok.1 h
    split at h
    · cases h
    · rename_i hcompiled
      cases h
      exact ⟨hconfig, raw, hraw, hcompiled⟩
  · rintro ⟨hconfig, raw, hraw, hcompiled⟩
    refine ⟨config, hconfig, bind_eq_ok.2 ⟨raw, hraw, ?_⟩⟩
    rw [hcompiled]

/-! ## What is written -/

theorem after_writeText_output (houtput : o.output = none) (contents : String) :
    folder.after (writeText Folder.console o contents) = (.ok (), folder.print contents) := by
  rw [writeText, houtput]
  rfl

/-- A file has to be in the folder to be written. -/
theorem after_writeText_file {path : String} (houtput : o.output = some path)
    (contents : String) : folder.after (writeText Folder.console o contents) =
      match fileName? path with
      | some name => (.ok (), folder.save name contents)
      | none => (.error { context := o.writeContext path, cause := .file }, folder) := by
  unfold writeText
  simp only [houtput, Folder.console]
  cases fileName? path <;> rfl

/-- **The command** compiles and then writes. -/
theorem runWith_eq_compile : folder.runWith o =
    match folder.compile o with
    | .error failure => (.error failure, folder)
    | .ok (config, compiled) =>
      folder.after (writeText Folder.console o (o.outputText config compiled)) := by
  unfold Folder.runWith CommandLine.runWith Folder.compile
  rw [after_bind, after_readConfig]
  cases o.resolve (o.configFile.bind folder.contents?) with
  | error failure => rfl
  | ok config =>
    simp only [after_bind, after_readText]
    cases folder.candidate o with
    | error failure => rfl
    | ok raw =>
      simp only [bind, Except.bind]
      cases compileText config raw <;> rfl

end

end Swimlane.CommandLine
