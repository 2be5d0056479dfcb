/-
  Swimlane — what the command writes, and where.

  The command writes its text to a file or to the standard output.  A document or an
  answer is the same text in both places.  A listing ends with a line break on the standard
  output and without one in a file, although an answer ends with one in both.

  * `Options.into`: the same options for another place.  `OutputFormat.lineEnd`: the line
    break that a file does not get; `outputText_into`: the texts differ in nothing else.
  * `Delivered`, `delivered`: how a run that writes to a file ends, and how the same run
    ends that writes to the standard output.
  * `runWith_of_compile_error`, `unchanged_of_error`: a run that fails writes nothing.
  * `file_holds_output`: what the file holds; `listing_unended`: a listing for which this
    is not what the standard output gets.
-/
import Swimlane.Proofs.CommandLine.Run
import Swimlane.Proofs.Legible

namespace Swimlane.CommandLine

/-- The same options, for another file or for the standard output. -/
def Options.into (o : Options) (destination : Option String) : Options :=
  { o with output := destination }

/-- What only the standard output gets, after the text. -/
def OutputFormat.lineEnd : OutputFormat → String
  | .layout => "\n"
  | .xml | .result => ""

theorem lineEnd_of_ne {f : OutputFormat} (h : f ≠ .layout) : f.lineEnd = "" := by
  cases f with
  | layout => exact absurd rfl h
  | _ => rfl

section
variable {folder left : Folder} {o : Options} {path : String} {destination : Option String}
  {config : Config} {compiled : Compiled} {failure : Failure}

/-- The texts for the standard output and for a file. -/
theorem outputText_into (path : String) : (o.into none).outputText config compiled =
    (o.into (some path)).outputText config compiled ++ o.outputFormat.lineEnd := by
  unfold Options.outputText Options.into OutputFormat.lineEnd
  cases o.outputFormat <;> simp

/-- Where the text goes makes no difference before it is written. -/
theorem compile_into : folder.compile (o.into destination) = folder.compile o := rfl

/-- **A run that fails before it writes** leaves the folder as it is. -/
theorem runWith_of_compile_error (hcompile : folder.compile o = .error failure) :
    folder.runWith (o.into destination) = (.error failure, folder) := by
  rw [runWith_eq_compile, compile_into, hcompile]

theorem runWith_into_none (hcompile : folder.compile o = .ok (config, compiled)) :
    folder.runWith (o.into none) =
      (.ok (), folder.print ((o.into none).outputText config compiled)) := by
  rw [runWith_eq_compile, compile_into, hcompile]
  exact after_writeText_output rfl _

theorem runWith_into_some (hcompile : folder.compile o = .ok (config, compiled)) (path : String) :
    folder.runWith (o.into (some path)) =
      match fileName? path with
      | some name => (.ok (), folder.save name ((o.into (some path)).outputText config compiled))
      | none => (.error { context := o.writeContext path, cause := .file }, folder) := by
  rw [runWith_eq_compile, compile_into, hcompile]
  exact after_writeText_file rfl _

/-- How a run that writes to a file ends, and the same run that writes to the standard
    output. -/
inductive Delivered (folder : Folder) (o : Options) (path : String) :
    Except Failure Unit × Folder → Except Failure Unit × Folder → Prop
  /-- Both write the same text, but for the line break.  Nothing else changes. -/
  | written {name text : String} (hname : fileName? path = some name) :
      Delivered folder o path (.ok (), folder.save name text)
        (.ok (), folder.print (text ++ o.outputFormat.lineEnd))
  /-- The file cannot be written. -/
  | unwritable {text : String} (hname : fileName? path = none) :
      Delivered folder o path (.error { context := o.writeContext path, cause := .file }, folder)
        (.ok (), folder.print text)
  /-- Both fail before they write. -/
  | refused {failure : Failure} (hcompile : folder.compile o = .error failure) :
      Delivered folder o path (.error failure, folder) (.error failure, folder)

/-- **Both runs** end in the same way, unless the file cannot be written. -/
theorem delivered (folder : Folder) (o : Options) (path : String) :
    Delivered folder o path (folder.runWith (o.into (some path)))
      (folder.runWith (o.into none)) := by
  cases hcompile : folder.compile o with
  | error failure =>
    rw [runWith_of_compile_error hcompile, runWith_of_compile_error hcompile]
    exact .refused hcompile
  | ok compiled =>
    rw [runWith_into_none hcompile, runWith_into_some hcompile, outputText_into path]
    cases hname : fileName? path with
    | none => exact .unwritable hname
    | some name => exact .written hname

/-- **A run that fails** writes nothing. -/
theorem unchanged_of_error (h : folder.runWith (o.into destination) = (.error failure, left)) :
    left = folder := by
  cases hcompile : folder.compile o with
  | error failure =>
    rw [runWith_of_compile_error hcompile] at h
    cases h
    rfl
  | ok compiled =>
    cases destination with
    | none =>
      rw [runWith_into_none hcompile] at h
      cases h
    | some path =>
      rw [runWith_into_some hcompile] at h
      split at h
      · cases h
      · cases h
        rfl

end

/-- **The file holds what the standard output gets**, but for the line break after a
    listing.  A run to a file succeeds if it may write the file and the same run to the
    standard output succeeds.  A run that fails writes nothing, and where it writes makes no
    difference to a failure before. -/
theorem file_holds_output (folder : Folder) (o : Options) (path : String) :
    (∀ saved, folder.runWith (o.into (some path)) = (.ok (), saved) →
      ∃ name text, fileName? path = some name ∧ saved = folder.save name text ∧
        Keyed.get? name saved.files = some text ∧
        (o.outputFormat ≠ .layout →
          folder.runWith (o.into none) = (.ok (), folder.print text)) ∧
        (o.outputFormat = .layout →
          folder.runWith (o.into none) = (.ok (), folder.print (text ++ "\n")))) ∧
    ((folder.runWith (o.into (some path))).1 = .ok () ↔
      (fileName? path).isSome ∧ (folder.runWith (o.into none)).1 = .ok ()) ∧
    (∀ failure, folder.compile o = .error failure → ∀ destination,
      folder.runWith (o.into destination) = (.error failure, folder)) ∧
    ∀ destination failure left,
      folder.runWith (o.into destination) = (.error failure, left) → left = folder := by
  refine ⟨?_, ?_, fun failure h _ => runWith_of_compile_error h, fun _ _ _ => unchanged_of_error⟩
  · intro saved hsaved
    have hboth := delivered folder o path
    rw [hsaved] at hboth
    generalize folder.runWith (o.into none) = screen at hboth
    cases hboth with
    | @written name text hname =>
      refine ⟨name, text, hname, rfl, Keyed.get?_insert_self _ _ _, ?_, ?_⟩
      · intro hformat
        rw [lineEnd_of_ne hformat, String.append_empty]
      · intro hformat
        rw [hformat, OutputFormat.lineEnd]
  · have hboth := delivered folder o path
    revert hboth
    generalize folder.runWith (o.into (some path)) = x
    generalize folder.runWith (o.into none) = y
    intro hboth
    cases hboth with
    | written hname => simp [hname]
    | unwritable hname => simp [hname]
    | refused => simp

/-! ## A listing -/

/-- A folder with a candidate as its standard input. -/
def unlisted : Folder where
  files := []
  input := some controlled.compact

/-- The format has no part in the settings. -/
theorem resolve_format (f : OutputFormat) :
    ({ outputFormat := f } : Options).resolve none = .ok {} := by
  have hlimits : ({} : Limits).check = .ok () := rfl
  have happly : ({ outputFormat := f } : Options).applyTo {} = .ok {} := by
    simp only [Options.applyTo, LimitsPatch.apply, Option.getD_none, Option.map_none, bind,
      Except.bind, hlimits]
    rfl
  simp only [Options.resolve, bind, Except.bind, happly]

/-- The candidate is compiled, in every format. -/
theorem exists_compile_unlisted (f : OutputFormat) :
    ∃ compiled, unlisted.compile { outputFormat := f } = .ok ({}, compiled) := by
  obtain ⟨hlimits, hgrid⟩ := check_eq_ok.1 check_default
  obtain ⟨compiled, hcompiled⟩ := exists_compileRead.2
    ⟨hlimits, hgrid, _, readCandidate_compact_controlled, _, validate_controlled⟩
  rw [← compileText_eq] at hcompiled
  exact ⟨compiled, compile_eq_ok.2 ⟨resolve_format f, _, rfl, hcompiled⟩⟩

theorem fileName?_listing : fileName? "l.json" = some "l.json" := by
  have hsplit : "l.json".splitOn "/" = ["l.json"] := by
    rw [String.splitOn, if_neg (by decide)]
    iterate 6 rw [String.splitOnAux, if_neg (by decide), if_neg (by decide)]
    rw [String.splitOnAux, if_pos (by decide)]
    decide
  rw [fileName?, hsplit]
  rfl

/-- The answer is the same in a file and on the standard output. -/
theorem answer_unlisted : ∃ answer,
    unlisted.runWith (({ outputFormat := .result } : Options).into (some "l.json")) =
        (.ok (), unlisted.save "l.json" answer) ∧
      unlisted.runWith (({ outputFormat := .result } : Options).into none) =
        (.ok (), unlisted.print answer) := by
  obtain ⟨hsame, hsucceeds, -, -⟩ :=
    file_holds_output unlisted { outputFormat := .result } "l.json"
  obtain ⟨compiled, hcompile⟩ := exists_compile_unlisted .result
  have hfile := hsucceeds.2 ⟨by rw [fileName?_listing]; rfl, by rw [runWith_into_none hcompile]⟩
  rcases hrun : unlisted.runWith (({ outputFormat := .result } : Options).into (some "l.json"))
    with ⟨outcome, saved⟩
  rw [hrun] at hfile
  obtain rfl : outcome = .ok () := hfile
  obtain ⟨name, answer, hname, rfl, -, hprinted, -⟩ := hsame saved hrun
  obtain rfl : "l.json" = name := Option.some.inj (fileName?_listing.symm.trans hname)
  exact ⟨answer, rfl, hprinted (by simp)⟩

/-- **A listing in a file** lacks the line break that it has on the standard output. -/
theorem listing_unended : ∃ listing,
    unlisted.run (fun _ => none) ["-e", "layout", "-o", "l.json"] =
        (.ok (), unlisted.save "l.json" listing) ∧
      unlisted.run (fun _ => none) ["-e", "layout"] = (.ok (), unlisted.print (listing ++ "\n")) ∧
      Keyed.get? "l.json" (unlisted.save "l.json" listing).files ≠
        some (unlisted.print (listing ++ "\n")).output := by
  obtain ⟨compiled, hcompile⟩ := exists_compile_unlisted .layout
  have hfile : unlisted.run (fun _ => none) ["-e", "layout", "-o", "l.json"] =
      unlisted.runWith (({ outputFormat := .layout } : Options).into (some "l.json")) := rfl
  have hscreen : unlisted.run (fun _ => none) ["-e", "layout"] =
      unlisted.runWith (({ outputFormat := .layout } : Options).into none) := rfl
  rw [hfile, hscreen, runWith_into_none hcompile, runWith_into_some hcompile, fileName?_listing,
    outputText_into "l.json"]
  refine ⟨_, rfl, rfl, ?_⟩
  generalize Options.outputText _ _ _ = listing
  intro hsame
  rw [Folder.save, Keyed.get?_insert_self] at hsame
  have hlength := congrArg String.length (Option.some.inj hsame)
  simp [Folder.print, unlisted] at hlength

end Swimlane.CommandLine
