/-
  Swimlane — the page and the command agree.

  A candidate can be compiled on a web page or by the command.  Both merge the options
  into the settings in their own way: the command checks the limits at once, the page
  leaves that to the compilation.  With the same options both give the same document or
  the same answer, or fail for the same reason.

  A failure is told in the same words.  In the line that the command prints, the words of
  the reader of JSON about a candidate stand twice: once within the failure, and once more
  as its cause.

  * `Options.ofBrowser`: the options of the page, given to the command.
  * `Folder.feed`: the candidate as the standard input.  `runWith_eq`: what the command does
    with the standard input and output.
  * `applyTo_ofBrowser`: both make the same settings; `runWith_ofBrowser`: the early check
    makes no difference.
  * `read_envelope`: both forms of an answer are read as the same value.
  * `Agree`: the same outcome; `agree_of_error`: so it is if the compilation fails.
    `browser_agrees`: the outcomes of the page and the command.
-/
import Swimlane.Browser
import Swimlane.CommandLine.Message
import Swimlane.Proofs.CommandLine.Run
import Swimlane.Proofs.Compile
import Swimlane.Proofs.Draft.Resubmission

namespace Swimlane.CommandLine

/-! ## The command -/

/-- The options of the page, given to the command. -/
def Options.ofBrowser (o : Browser.Options) : Options where
  outputFormat := if o.resultEnvelope.getD false then .result else .xml
  maxNodes := o.limits.maxNodes
  maxFlows := o.limits.maxFlows
  maxResponseBytes := o.limits.maxResponseBytes
  policyVersion := o.policyVersion
  theme := o.theme
  createdAt := o.createdAt

/-- The folder with a candidate as its standard input. -/
def Folder.feed (folder : Folder) (raw : String) : Folder := { folder with input := some raw }

section
variable {folder : Folder} {raw : String} {o : Options}

/-- The command without file names. -/
theorem runWith_eq (hconfig : o.configFile = none) (hinput : o.input = none)
    (houtput : o.output = none) (hraw : folder.input = some raw) : folder.runWith o =
      match o.resolve none with
      | .error failure => (.error failure, folder)
      | .ok config =>
        match compileText config raw with
        | .error fault => (.error { cause := .fault fault }, folder)
        | .ok compiled => (.ok (), folder.print (o.outputText config compiled)) := by
  rw [runWith_eq_compile, Folder.compile, hconfig, Folder.candidate, hinput, Folder.standard, hraw]
  simp only [after_writeText_output houtput, Option.bind_none, bind, Except.bind]
  cases o.resolve none with
  | error failure => rfl
  | ok config =>
    simp only
    cases compileText config raw <;> rfl

end

/-! ## Settings -/

/-- The cause for an error of the page; the text of its options are its settings. -/
def Cause.ofBrowserError : Browser.Error → Cause
  | .malformedOptions text => .malformedConfig text
  | .unknownTheme name => .unknownTheme name
  | .fault f => .fault f

/-- **Both make the same settings** of the options; only the command checks the limits at
    once. -/
theorem applyTo_ofBrowser (o : Browser.Options) : (Options.ofBrowser o).applyTo {} =
    match o.config with
    | .error e => .error (Cause.ofBrowserError e)
    | .ok config =>
      match config.limits.check with
      | .error fault => .error (.fault fault)
      | .ok () => .ok config := by
  simp only [Options.applyTo, Options.ofBrowser, Browser.Options.config, bind, Except.bind]
  cases o.theme with
  | none => rfl
  | some name =>
    cases hname : Theme.ofName? name <;> simp only [hname] <;> rfl

/-- What the command does with the options of the page.  That it checks the limits before
    it reads the candidate makes no difference. -/
theorem runWith_ofBrowser {folder : Folder} {raw : String} (hraw : folder.input = some raw)
    (o : Browser.Options) : folder.runWith (.ofBrowser o) = match o.config with
      | .error e => (.error { cause := Cause.ofBrowserError e }, folder)
      | .ok config =>
        match compileText config raw with
        | .error fault => (.error { cause := .fault fault }, folder)
        | .ok c => (.ok (), folder.print ((Options.ofBrowser o).outputText config c)) := by
  have hresolve : (Options.ofBrowser o).resolve none =
      ((Options.ofBrowser o).applyTo {}).mapError fun cause => { cause } := by
    have hfile : (Options.ofBrowser o).configFile = none := rfl
    rw [Options.resolve, hfile]
    simp only [bind, Except.bind]
    cases (Options.ofBrowser o).applyTo {} <;> rfl
  rw [runWith_eq rfl rfl rfl hraw, hresolve, applyTo_ofBrowser]
  cases o.config with
  | error e => rfl
  | ok config =>
    cases hlimits : config.limits.check with
    | error f =>
      have hcompile : compileText config raw = .error f :=
        compileText_eq.trans (compileRead_eq_error.2 (.limits hlimits))
      simp only [hlimits, hcompile, Except.mapError]
    | ok => simp only [hlimits, Except.mapError]

/-! ## Answers -/

open Json (Nests InRange)

/-- An answer nests four deep; its numbers are two counts and a size. -/
theorem nests_envelope {p : ℕ → Prop} {c : Compiled} (config : Config) (createdAt : Option String)
    (hnodes : p c.draft.nodes.length) (hflows : p c.draft.flows.length)
    (hsize : p c.xml.utf8ByteSize) : Nests p 4 (c.envelope config createdAt) := by
  refine .obj (List.forall_mem_append.2 ⟨Json.nests_optionalField, fun f hf => ?_⟩)
  simp only [List.mem_cons, List.not_mem_nil, or_false] at hf
  rcases hf with rfl | rfl | rfl | rfl | rfl | rfl | rfl | rfl
  · exact .str
  · exact .str
  · exact .str
  · exact Draft.nests_draft c.draft
  · exact .str
  · exact .ofNat hnodes
  · exact .ofNat hflows
  · exact .ofNat hsize

/-- The counts of an accepted draft are small, because the limits are. -/
theorem counts_of_compileText {config : Config} {raw : String} {c : Compiled}
    (h : compileText config raw = .ok c) :
    c.draft.nodes.length < UInt64.size ∧ c.draft.flows.length < UInt64.size := by
  obtain ⟨⟨⟩, hcheck, h⟩ := bind_eq_ok.1 h
  obtain ⟨v, -, h⟩ := bind_eq_ok.1 h
  unfold compileChecked at h
  split at h
  · rename_i d hvalid
    have hranges := Limits.check_eq_ok.1 (check_eq_ok.1 hcheck).1
    have hmaxNodes : config.limits.maxNodes ≤ 40 := of_decide_eq_true
      (Bool.and_eq_true_iff.1 (hranges .maxNodes)).2
    have hmaxFlows : config.limits.maxFlows ≤ 80 := of_decide_eq_true
      (Bool.and_eq_true_iff.1 (hranges .maxFlows)).2
    have hsize : 80 < UInt64.size := by decide
    have hformed := Draft.wellFormed_of_validate (by omega) (by omega) hvalid
    have hdraft : c.draft = d := by
      unfold Draft.compile at h
      simp only at h
      split at h
      · cases h
        rfl
      · cases h
    have hnodes := hformed.nodes_length.2
    have hflows := hformed.flows_length.2
    rw [hdraft]
    omega
  · cases h

/-- The page and the command have the same outcome for a candidate. -/
inductive Agree (w : Wording) (o : Browser.Options) (raw : String) (folder : Folder) :
    Except Browser.Error String → Except Failure Unit × Folder → Prop
  /-- Both give the same document. -/
  | document {xml : String} (hform : o.resultEnvelope.getD false = false) :
      Agree w o raw folder (.ok xml) (.ok (), folder.print xml)
  /-- Both give the same answer, in its two forms.  The forms are read as the same value,
      and that is the answer itself unless the size of the document has more than 64 bits. -/
  | answer {config : Config} {c : Compiled} {v : Json} (hform : o.resultEnvelope.getD false = true)
      (hconfig : o.config = .ok config) (hcompiled : compileText config raw = .ok c)
      (hv : v = c.envelope config o.createdAt)
      (hsame : Json.read (v.pretty ++ "\n") = Json.read v.compact)
      (hread : c.xml.utf8ByteSize < UInt64.size → Json.read v.compact = .ok v) :
      Agree w o raw folder (.ok v.compact) (.ok (), folder.print (v.pretty ++ "\n"))
  /-- Both fail for the same reason, in the same words, and nothing is written.  The line
      that the command prints has these words. -/
  | refused {e : Browser.Error} {failure : Failure}
      (hcause : failure.cause = Cause.ofBrowserError e)
      (hmessage : ∀ options, failure.message w = e.message w.candidate options)
      (hreport : failure.report w = failure.message w) :
      Agree w o raw folder (.error e) (.error failure, folder)
  /-- Both fail because the candidate is no JSON text, in the words of the reader about the
      text without its fence.  The line that the command prints has these words twice. -/
  | unread {error : Json.ReadError} {text : String} {e : Browser.Error} {failure : Failure}
      (htext : text = Text.unfenceString raw)
      (he : e = .fault (.invalidJson error text))
      (hcause : failure.cause = Cause.ofBrowserError e)
      (hmessage : ∀ options, failure.message w = e.message w.candidate options)
      (hwords : failure.message w = "draft output is not valid JSON: " ++ w.candidate text)
      (hreport : failure.report w = failure.message w ++ ": " ++ w.candidate text) :
      Agree w o raw folder (.error e) (.error failure, folder)

/-- A failed compilation is told in the same words. -/
theorem agree_of_error (w : Wording) (o : Browser.Options) (folder : Folder) {config : Config}
    {raw : String} {f : Fault} (h : compileText config raw = .error f) :
    Agree w o raw folder (.error (.fault f)) (.error { cause := .fault f }, folder) := by
  cases f with
  | invalidJson error text =>
    exact .unread (eq_unfence_of_invalidJson h) rfl rfl (fun _ => rfl) rfl rfl
  | _ => exact .refused rfl (fun _ => rfl) rfl

/-- An answer is read back from both of its forms. -/
theorem read_envelope {config : Config} {raw : String} {c : Compiled}
    (h : compileText config raw = .ok c) (createdAt : Option String) :
    Json.read ((c.envelope config createdAt).pretty ++ "\n") =
        Json.read (c.envelope config createdAt).compact ∧
      (c.xml.utf8ByteSize < UInt64.size → Json.read (c.envelope config createdAt).compact =
        .ok (c.envelope config createdAt)) := by
  classical
  obtain ⟨hnodes, hflows⟩ := counts_of_compileText h
  have hnests : Nests (fun _ => True) 4 (c.envelope config createdAt) :=
    nests_envelope config createdAt trivial trivial trivial
  have hdepth : 4 ≤ Json.depthLimit := by decide
  constructor
  · exact (Json.read_pretty hnests hdepth).trans (Json.read_compact hnests hdepth).symm
  · intro hsize
    have hrange : InRange (c.envelope config createdAt) :=
      (nests_envelope config createdAt hnodes hflows hsize).inRange
    exact (Json.read_compact hnests hdepth).trans (if_pos hrange)

/-- The settings of the page can only fail for their theme. -/
theorem exists_of_config_eq_error {o : Browser.Options} {e : Browser.Error}
    (h : o.config = .error e) : ∃ name, e = .unknownTheme name := by
  simp only [Browser.Options.config, bind, Except.bind] at h
  cases htheme : o.theme with
  | none => simp [htheme, pure, Except.pure] at h
  | some name =>
    cases hname : Theme.ofName? name with
    | none =>
      simp only [htheme, hname] at h
      exact ⟨name, (Except.error.inj h).symm⟩
    | some theme => simp [htheme, hname, pure, Except.pure] at h

/-- **The page and the command agree.**  With the same options and the same candidate, one
    succeeds exactly if the other does, and they have the same outcome, whatever the words of
    others are. -/
theorem browser_agrees (w : Wording) (o : Browser.Options) (raw : String) (folder : Folder) :
    ((∃ text, Browser.compileWith o raw = .ok text) ↔
      ((folder.feed raw).runWith (.ofBrowser o)).1 = .ok ()) ∧
    Agree w o raw (folder.feed raw) (Browser.compileWith o raw)
      ((folder.feed raw).runWith (.ofBrowser o)) := by
  have hagree : Agree w o raw (folder.feed raw) (Browser.compileWith o raw)
      ((folder.feed raw).runWith (.ofBrowser o)) := by
    rw [runWith_ofBrowser rfl, Browser.compileWith]
    cases hconfig : o.config with
    | error e =>
      obtain ⟨name, rfl⟩ := exists_of_config_eq_error hconfig
      exact .refused rfl (fun _ => rfl) rfl
    | ok config =>
      simp only [bind, Except.bind]
      cases hcompile : compileText config raw with
      | error f => exact agree_of_error w o _ hcompile
      | ok c =>
        cases hform : o.resultEnvelope.getD false with
        | false =>
          simp only [Options.outputText, Options.ofBrowser, hform]
          exact .document hform
        | true =>
          obtain ⟨hsame, hread⟩ := read_envelope hcompile o.createdAt
          simp only [Options.outputText, Options.ofBrowser, hform]
          exact .answer hform hconfig hcompile rfl hsame hread
  refine ⟨?_, hagree⟩
  revert hagree
  generalize Browser.compileWith o raw = x
  generalize (folder.feed raw).runWith (.ofBrowser o) = y
  intro hagree
  cases hagree <;> simp

end Swimlane.CommandLine
