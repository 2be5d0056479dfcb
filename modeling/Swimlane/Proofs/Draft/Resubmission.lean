/-
  Swimlane — checking a draft again.

  An accepted draft may be written as JSON and checked once more.  Its
  identifiers, kinds and ends come back as they are, and so do its texts, but
  for one thing: the cut to a length follows the trimming, so that it may bare a
  space at the end of a text, and the second check drops that space.

  * `Draft.trimmed`: the draft without spaces at the ends of its texts.
  * `Normal d`: the normal form of an accepted draft, apart from its size.
  * `Normal.validate_toJson`: a draft in normal form is accepted again, as its
    trimmed form.
  * `validate_again`: so the second check gives the trimmed form, the third one
    changes nothing, and the second one changes nothing exactly if no text ends
    with a space.  `not_fixed_of_cut` is a draft that does change.
  * `read_compact_toJson`: a draft is written and read as a text, whatever it is.
-/
import Swimlane.Proofs.Draft.WellFormed
import Swimlane.Proofs.Json.RoundTrip

namespace Swimlane

/-! ## Trimmed drafts -/

def Flow.trimmed (f : Flow) : Flow := { f with label := f.label.map Text.trimString }

def Draft.Node.trimmed (n : Draft.Node) : Draft.Node := { n with label := Text.trimString n.label }

theorem Draft.Node.trimmed_eq_self_iff {n : Draft.Node} :
    n.trimmed = n ↔ Text.trimString n.label = n.label := by
  cases n
  simp [Draft.Node.trimmed]

theorem Flow.trimmed_eq_self_iff {f : Flow} :
    f.trimmed = f ↔ ∀ label, f.label = some label → Text.trimString label = label := by
  obtain ⟨id, source, target, label⟩ := f
  cases label <;> simp [Flow.trimmed]

/-- The draft without blanks at the ends of its texts. -/
def Draft.trimmed (d : Draft) : Draft :=
  { name := Text.trimString d.name
    nodes := d.nodes.map Draft.Node.trimmed
    flows := d.flows.map Flow.trimmed }

/-- The texts of a draft: its name and its labels. -/
def Draft.texts (d : Draft) : List String :=
  d.name :: d.nodes.map Draft.Node.label ++ d.flows.filterMap Flow.label

/-! ## Identifiers as texts -/

namespace Identifier

theorem isBlank_of_isIdChar {c : Char} (h : isIdChar c = true) : Text.isBlank c = false := by
  have hrange : 45 ≤ c.toNat ∧ c.toNat ≤ 122 := by
    simp only [isIdChar, Bool.or_eq_true, Bool.and_eq_true, decide_eq_true_eq] at h
    rcases h with ((h | h) | rfl) | rfl
    · omega
    · omega
    · decide
    · decide
  rw [← Bool.not_eq_true, Text.isBlank, List.any_eq_true]
  simp only [Text.blankRanges, List.mem_cons, List.not_mem_nil, or_false, Bool.and_eq_true,
    decide_eq_true_eq, not_exists, not_and]
  rintro r (rfl | rfl | rfl | rfl | rfl | rfl | rfl | rfl | rfl | rfl) <;> dsimp only <;> omega

/-- An identifier has no blanks at its ends. -/
theorem IsIdentifier.trimString_eq {id : String} (h : IsIdentifier id) :
    Text.trimString id = id := by
  have hblank : ∀ c ∈ id.toList, Text.isBlank c = false := fun c hc =>
    isBlank_of_isIdChar (h.chars c hc)
  have hdrop : id.toList.dropWhile Text.isBlank = id.toList :=
    List.dropWhile_eq_self_iff.2 fun hlen => by simp [hblank _ (List.getElem_mem hlen)]
  have hend : Text.dropEndWhile Text.isBlank id.toList = id.toList :=
    List.rdropWhile_eq_self_iff.2 fun hne => by simp [hblank _ (List.getLast_mem hne)]
  rw [Text.trimString, Text.trim, Text.trimWhile, hdrop, hend, String.ofList_toList]

end Identifier

namespace Draft

open Identifier (IsIdentifier)
open Text (IsPlain)

/-! ## Values that are read again -/

section
variable {place : Place} {limit : ℕ} {s : String}

theorem requireText_of_trim (h : Text.trim s.toList ≠ []) :
    requireText place (some (.str s)) = .ok (Text.trimString s) :=
  requireText_eq_ok.2 ⟨s, rfl, h, rfl⟩

theorem requireText_of_isPlain (h : IsPlain limit s.toList) :
    requireText place (some (.str s)) = .ok (Text.trimString s) :=
  requireText_of_trim h.trim.ne_nil

theorem requireText_of_isIdentifier (h : IsIdentifier s) :
    requireText place (some (.str s)) = .ok s := by
  have htrim : Text.trim s.toList = s.toList := by
    simpa [Text.trimString] using congrArg String.toList h.trimString_eq
  rw [requireText_of_trim (by rw [htrim]; exact h.ne_nil), h.trimString_eq]

/-- The plain form of a plain text is its trimmed form. -/
theorem plainString_of_isPlain (h : IsPlain limit s.toList) :
    Text.plainString limit s = Text.trimString s := by
  rw [Text.plainString, h.plain_eq, Text.trimString]

theorem plainString_trimString (h : IsPlain limit s.toList) :
    Text.plainString limit (Text.trimString s) = Text.trimString s := by
  have htrim : IsPlain limit (Text.trimString s).toList := by
    rw [Text.trimString, String.toList_ofList]
    exact h.trim
  rw [plainString_of_isPlain htrim, Text.trimString, Text.trimString, String.toList_ofList,
    Text.trim_trim]

end

/-- **Items that are written** are read again, if each is when its identifier is
    free. -/
theorem readItems_map {α : Type} {read : List String → ℕ → Json → Except Violation α}
    {idOf : α → String} (write : α → Json) (norm : α → α) (hid : ∀ a, idOf (norm a) = idOf a)
    {values : List α}
    (hread : ∀ a ∈ values, ∀ used i, idOf a ∉ used → read used i (write a) = .ok (norm a))
    (hnodup : (values.map idOf).Nodup) {used : List String} (hfree : ∀ a ∈ values, idOf a ∉ used)
    (i : ℕ) : readItems read idOf used i (values.map write) = .ok (values.map norm) := by
  induction values generalizing used i with
  | nil => rfl
  | cons a values ih =>
    obtain ⟨ha, hrest⟩ := List.forall_mem_cons.1 hread
    obtain ⟨hfreeA, hfreeRest⟩ := List.forall_mem_cons.1 hfree
    obtain ⟨hnotin, hnodup⟩ := List.nodup_cons.1 hnodup
    refine bind_eq_ok.2 ⟨norm a, ha used i hfreeA, bind_eq_ok.2 ⟨values.map norm, ?_, rfl⟩⟩
    refine ih hrest hnodup (fun b hb => ?_) (i + 1)
    rw [hid, List.mem_cons, not_or]
    exact ⟨fun heq => hnotin (heq ▸ List.mem_map_of_mem hb), hfreeRest b hb⟩

/-! ## Nodes and flows -/

theorem readNode_toJson {n : Node} (hid : IsIdentifier n.id)
    (hlabel : IsPlain maxLabel n.label.toList) {used : List String} (hfree : n.id ∉ used)
    (i : ℕ) : readNode used i n.toJson = .ok n.trimmed := by
  have htoken : requireText (.field .nodes i .type) (some (.str n.kind.token)) =
      .ok n.kind.token := by cases n.kind <;> rfl
  refine readNode_eq_ok.2 ⟨⟨_, rfl⟩, n.kind.token, n.id, Text.trimString n.label, htoken,
    Kind.ofToken?_token _, requireText_of_isIdentifier hid, requireText_of_isPlain hlabel, ?_, ?_⟩
  · exact (Identifier.assign_of_isIdentifier hid hfree _ _).symm
  · exact (plainString_trimString hlabel).symm

theorem get?_toJson_flow (f : Flow) : f.toJson.get? "id" = some (.str f.id) ∧
    f.toJson.get? "source" = some (.str f.source) ∧
    f.toJson.get? "target" = some (.str f.target) ∧
    f.toJson.get? "label" = f.label.map .str := by
  obtain ⟨id, source, target, label⟩ := f
  cases label <;> exact ⟨rfl, rfl, rfl, rfl⟩

/-- An end that is the identifier of a node is read again. -/
theorem readEnd_of_mem {nodeIds : List String} {id : String} (hid : IsIdentifier id)
    (hmem : id ∈ nodeIds) {v : Json} {key : Key} (hv : v.get? key.name = some (.str id)) (i : ℕ)
    (flow : String) : readEnd nodeIds i flow key v = .ok id :=
  readEnd_eq_ok.2 ⟨id, hv ▸ requireText_of_isIdentifier hid,
    (Identifier.slug_of_isIdentifier hid "").symm, hmem⟩

theorem readFlowLabel_toJson {f : Flow}
    (hlabel : ∀ label, f.label = some label → IsPlain maxFlowLabel label.toList) :
    readFlowLabel f.toJson = f.trimmed.label := by
  rw [readFlowLabel, (get?_toJson_flow f).2.2.2, Flow.trimmed]
  cases hf : f.label with
  | none => rfl
  | some label =>
    have hplain := hlabel label hf
    simp only [Option.map_some, List.isEmpty_iff, hplain.trim.ne_nil, if_false,
      plainString_of_isPlain hplain]

theorem readFlow_toJson {nodeIds : List String} {f : Flow} (hid : IsIdentifier f.id)
    (hends : ∀ id ∈ [f.source, f.target], IsIdentifier id ∧ id ∈ nodeIds)
    (hne : f.source ≠ f.target)
    (hlabel : ∀ label, f.label = some label → IsPlain maxFlowLabel label.toList)
    {used : List String} (hfree : f.id ∉ used) (i : ℕ) :
    readFlow nodeIds used i f.toJson = .ok f.trimmed := by
  obtain ⟨hgetId, hgetSource, hgetTarget, -⟩ := get?_toJson_flow f
  obtain ⟨hsource, hsourceMem⟩ := hends f.source (by simp)
  obtain ⟨htarget, htargetMem⟩ := hends f.target (by simp)
  exact readFlow_eq_ok.2 ⟨⟨_, rfl⟩,
    ⟨f.id, hgetId ▸ requireText_of_isIdentifier hid,
      (Identifier.assign_of_isIdentifier hid hfree _ _).symm⟩,
    readEnd_of_mem hsource hsourceMem hgetSource i _,
    readEnd_of_mem htarget htargetMem hgetTarget i _, hne, (readFlowLabel_toJson hlabel).symm⟩

/-! ## Drafts -/

/-- A draft in its normal form, of whatever size. -/
structure Normal (d : Draft) : Prop extends Coherent d where
  nodes : ∀ n ∈ d.nodes, IsIdentifier n.id ∧ IsPlain maxLabel n.label.toList
  flows : ∀ f ∈ d.flows, IsIdentifier f.id ∧
    ∀ label, f.label = some label → IsPlain maxFlowLabel label.toList
  name : IsPlain maxLabel d.name.toList

/-- The draft keeps the bounds on its size. -/
def InBounds (limits : Limits) (d : Draft) : Prop :=
  checkCount .nodes minNodes limits.maxNodes d.nodes.length = .ok () ∧
    checkCount .flows minFlows limits.maxFlows d.flows.length = .ok ()

section
variable {limits : Limits} {d : Draft}

theorem inBounds_of_validate {v : Json} (h : validate limits v = .ok d) : d.InBounds limits := by
  obtain ⟨-, name, rawNodes, rawFlows, -, -, -, hcountNodes, hcountFlows, hnodes, hflows, -⟩ :=
    validate_eq_ok.1 h
  rw [← length_of_readItems hnodes] at hcountNodes
  rw [← length_of_readItems hflows] at hcountFlows
  exact ⟨hcountNodes, hcountFlows⟩

/-- An accepted draft is in normal form. -/
theorem normal_of_validate {v : Json} (hmaxNodes : limits.maxNodes < UInt64.size)
    (hmaxFlows : limits.maxFlows < UInt64.size) (h : validate limits v = .ok d) : d.Normal := by
  obtain ⟨hcountNodes, hcountFlows⟩ := inBounds_of_validate h
  have hleNodes := (checkCount_eq_ok.1 hcountNodes).2
  have hleFlows := (checkCount_eq_ok.1 hcountFlows).2
  have hwords : UInt64.size ≤ Identifier.maxNumeral := by decide
  obtain ⟨-, name, rawNodes, rawFlows, hname, -, -, -, -, hnodes, hflows, -, hdname⟩ :=
    validate_eq_ok.1 h
  exact {
    toCoherent := coherent_of_validate h
    nodes := fun n hn => shape_of_readNodes hnodes (by omega) hn
    flows := fun f hf => shape_of_readFlows hflows (by omega) hf
    name := by
      rw [hdname]
      exact Text.isPlain_plainString (by decide) (trim_ne_nil_of_requireText hname) }

theorem map_id_trimmed (nodes : List Node) :
    (nodes.map Node.trimmed).map Node.id = nodes.map Node.id := by
  rw [List.map_map]
  rfl

/-- The demands on the whole do not look at texts. -/
theorem Coherent.checkWhole_trimmed (h : d.Coherent) :
    checkWhole d.trimmed.nodes d.trimmed.flows = .ok () := by
  obtain ⟨start, hstart, f, hf, hsource⟩ := h.start
  obtain ⟨n, hn, hkind, e, he, htarget⟩ := h.finish
  refine checkWhole_eq_ok.2 ⟨start.trimmed, ?_, ⟨f.trimmed, List.mem_map_of_mem hf, hsource⟩,
    n.trimmed, List.mem_map_of_mem hn, hkind, e.trimmed, List.mem_map_of_mem he, htarget⟩
  rw [ofKind, trimmed, List.filter_map]
  exact congrArg (List.map Node.trimmed) hstart

namespace Normal

theorem readNodes_toJson (h : d.Normal) :
    readNodes (d.nodes.map Node.toJson) = .ok d.trimmed.nodes := by
  have hnode : ∀ n ∈ d.nodes, ∀ used i, n.id ∉ used →
      readNode used i n.toJson = .ok n.trimmed := fun n hn used i hfree =>
    readNode_toJson (h.nodes n hn).1 (h.nodes n hn).2 hfree i
  exact readItems_map Node.toJson Node.trimmed (fun _ => rfl) hnode h.nodeIds_nodup
    (fun n hn => List.not_mem_nil) 0

theorem readFlows_toJson (h : d.Normal) :
    readFlows (d.nodes.map Node.id) (d.flows.map Flow.toJson) = .ok d.trimmed.flows := by
  have hids : ∀ id ∈ d.nodes.map Node.id, IsIdentifier id := by
    intro id hid
    obtain ⟨n, hn, rfl⟩ := List.mem_map.1 hid
    exact (h.nodes n hn).1
  have hflow : ∀ f ∈ d.flows, ∀ used i, f.id ∉ used →
      readFlow (d.nodes.map Node.id) used i f.toJson = .ok f.trimmed := by
    intro f hf used i hfree
    obtain ⟨hsource, htarget, hne⟩ := h.ends f hf
    refine readFlow_toJson (h.flows f hf).1 ?_ hne (h.flows f hf).2 hfree i
    intro id hid
    rcases List.mem_pair.1 hid with rfl | rfl
    · exact ⟨hids _ hsource, hsource⟩
    · exact ⟨hids _ htarget, htarget⟩
  exact readItems_map Flow.toJson Flow.trimmed (fun _ => rfl) hflow h.flowIds_nodup
    (fun f hf => List.not_mem_nil) 0

/-- **A draft in normal form is accepted again**, as its trimmed form. -/
theorem validate_toJson (h : d.Normal) (hbounds : d.InBounds limits) :
    validate limits d.toJson = .ok d.trimmed := by
  obtain ⟨hcountNodes, hcountFlows⟩ := hbounds
  have hflows := h.readFlows_toJson
  rw [← map_id_trimmed] at hflows
  refine validate_eq_ok.2 ⟨⟨_, rfl⟩, Text.trimString d.name, d.nodes.map Node.toJson,
    d.flows.map Flow.toJson, requireText_of_isPlain h.name, rfl, rfl, ?_, ?_, h.readNodes_toJson,
    hflows, h.checkWhole_trimmed, (plainString_trimString h.name).symm⟩
  · rwa [List.length_map]
  · rwa [List.length_map]

end Normal

/-- The trimmed form is its own trimmed form. -/
theorem trimmed_trimmed (d : Draft) : d.trimmed.trimmed = d.trimmed := by
  have htext : ∀ s, Text.trimString (Text.trimString s) = Text.trimString s := fun s => by
    rw [Text.trimString, Text.trimString, String.toList_ofList, Text.trim_trim]
  have hnode : ∀ n : Node, n.trimmed.trimmed = n.trimmed := fun n => by
    simp [Node.trimmed, htext]
  have hflow : ∀ f : Flow, f.trimmed.trimmed = f.trimmed := fun f => by
    simp [Flow.trimmed, htext, Function.comp_def]
  simp [trimmed, htext, hnode, hflow, Function.comp_def]

theorem map_eq_self_iff {α : Type} {f : α → α} {as : List α} :
    as.map f = as ↔ ∀ a ∈ as, f a = a := by
  simpa using List.map_inj_left (f := f) (g := id) (l := as)

/-- A draft is trimmed exactly if its texts are. -/
theorem trimmed_eq_self_iff : d.trimmed = d ↔ ∀ s ∈ d.texts, Text.trimString s = s := by
  obtain ⟨name, nodes, flows⟩ := d
  have hnodes : nodes.map Node.trimmed = nodes ↔
      ∀ n ∈ nodes, Text.trimString n.label = n.label := by
    simp only [map_eq_self_iff, Node.trimmed_eq_self_iff]
  have hflows : flows.map Flow.trimmed = flows ↔
      ∀ f ∈ flows, ∀ label, f.label = some label → Text.trimString label = label := by
    simp only [map_eq_self_iff, Flow.trimmed_eq_self_iff]
  simp only [trimmed, texts, Draft.mk.injEq, hnodes, hflows, List.cons_append, List.forall_mem_cons,
    List.forall_mem_append, List.forall_mem_map, List.mem_filterMap]
  constructor
  · rintro ⟨hname, hlabels, hflowLabels⟩
    exact ⟨hname, hlabels, fun s ⟨f, hf, hs⟩ => hflowLabels f hf s hs⟩
  · rintro ⟨hname, hlabels, hflowLabels⟩
    exact ⟨hname, hlabels, fun f hf s hs => hflowLabels s ⟨f, hf, hs⟩⟩

/-- The texts of a draft in normal form are plain. -/
theorem Normal.isPlain_of_mem (h : d.Normal) {s : String} (hs : s ∈ d.texts) :
    IsPlain maxLabel s.toList := by
  rcases List.mem_cons.1 hs with rfl | hs
  · exact h.name
  · rcases List.mem_append.1 hs with hs | hs
    · obtain ⟨n, hn, rfl⟩ := List.mem_map.1 hs
      exact (h.nodes n hn).2
    · obtain ⟨f, hf, hs⟩ := List.mem_filterMap.1 hs
      have hplain := (h.flows f hf).2 s hs
      exact { hplain with length_le := hplain.length_le.trans (by decide) }

/-- A draft in normal form is trimmed exactly if no text of it ends with a
    space. -/
theorem Normal.trimmed_eq_self_iff (h : d.Normal) :
    d.trimmed = d ↔ ∀ s ∈ d.texts, s.toList.getLast? ≠ some ' ' := by
  rw [Draft.trimmed_eq_self_iff]
  refine forall₂_congr fun s hs => ?_
  rw [← (h.isPlain_of_mem hs).trim_eq_self_iff, Text.trimString, ← String.toList_inj,
    String.toList_ofList]

/-! ## Drafts as texts -/

section
open Json (Nests)

variable {p : ℕ → Prop}

theorem nests_node (n : Node) : Nests p 1 n.toJson := by
  refine .obj fun f hf => ?_
  simp only [List.mem_cons, List.not_mem_nil, or_false] at hf
  rcases hf with rfl | rfl | rfl <;> exact .str

theorem nests_flow (f : Flow) : Nests p 1 f.toJson := by
  refine .obj (List.forall_mem_append.2 ⟨fun f hf => ?_, Json.nests_optionalField⟩)
  simp only [List.mem_cons, List.not_mem_nil, or_false] at hf
  rcases hf with rfl | rfl | rfl <;> exact .str

/-- A draft nests three deep, and there are no numbers in it. -/
theorem nests_draft (d : Draft) : Nests p 3 d.toJson := by
  refine .obj fun f hf => ?_
  simp only [List.mem_cons, List.not_mem_nil, or_false] at hf
  rcases hf with rfl | rfl | rfl
  · exact .str
  · exact .arr (List.forall_mem_map.2 fun n _ => nests_node n)
  · exact .arr (List.forall_mem_map.2 fun f _ => nests_flow f)

open scoped Classical in
/-- **A draft is read back** from its text. -/
theorem read_compact_toJson (d : Draft) : Json.read d.toJson.compact = .ok d.toJson := by
  have hnests : Nests (· < UInt64.size) 3 d.toJson := nests_draft d
  exact (Json.read_compact hnests (by decide)).trans (if_pos hnests.inRange)

end

/-! ## Accepted drafts -/

/-- **An accepted draft is accepted again.**  The second check gives its trimmed
    form, which is a fixed point of the check; it is the draft itself exactly if no
    text of the draft ends with a space. -/
theorem validate_again {v : Json} (hmaxNodes : limits.maxNodes < UInt64.size)
    (hmaxFlows : limits.maxFlows < UInt64.size) (h : validate limits v = .ok d) :
    validate limits d.toJson = .ok d.trimmed ∧
      validate limits d.trimmed.toJson = .ok d.trimmed ∧
      (d.trimmed = d ↔ ∀ s ∈ d.texts, s.toList.getLast? ≠ some ' ') := by
  have hnormal := normal_of_validate hmaxNodes hmaxFlows h
  have hagain := hnormal.validate_toJson (inBounds_of_validate h)
  have hnormal' := normal_of_validate hmaxNodes hmaxFlows hagain
  refine ⟨hagain, ?_, hnormal.trimmed_eq_self_iff⟩
  rw [hnormal'.validate_toJson (inBounds_of_validate hagain), trimmed_trimmed]

end

/-! ## A cut that bares a space -/

/-- A name of 119 letters and one more word. -/
def overlongName : List Char := List.replicate 119 'x' ++ [' ', 'y']

/-- What is kept of that name. -/
def shortenedName : List Char := List.replicate 119 'x' ++ [' ']

/-- A candidate with that name. -/
def overlong : Json :=
  .obj [("processName", .str (String.ofList overlongName)),
    ("nodes", .arr [
      .obj [("id", .str "a"), ("type", .str "start"), ("label", .str "Begin")],
      .obj [("id", .str "b"), ("type", .str "task"), ("label", .str "Work")],
      .obj [("id", .str "c"), ("type", .str "end"), ("label", .str "Done")]]),
    ("flows", .arr [
      .obj [("id", .str "f"), ("source", .str "a"), ("target", .str "b")],
      .obj [("id", .str "g"), ("source", .str "b"), ("target", .str "c")]])]

/-- The draft of `overlong`. -/
def shortened : Draft :=
  { name := String.ofList shortenedName
    nodes := [⟨"a", .start, "Begin"⟩, ⟨"b", .task, "Work"⟩, ⟨"c", .finish, "Done"⟩]
    flows := [⟨"f", "a", "b", none⟩, ⟨"g", "b", "c", none⟩] }

theorem validate_overlong : validate {} overlong = .ok shortened := by
  have htrim : Text.trim overlongName = overlongName := by decide +kernel
  have hplain : Text.plain maxLabel overlongName = shortenedName := by decide +kernel
  refine validate_eq_ok.2 ⟨⟨_, rfl⟩, String.ofList overlongName, _, _, ?_, rfl, rfl,
    by decide +kernel, by decide +kernel, by decide +kernel, by decide +kernel,
    by decide +kernel, ?_⟩
  · refine requireText_eq_ok.2 ⟨String.ofList overlongName, rfl, ?_, ?_⟩
    · rw [String.toList_ofList, htrim]
      decide
    · rw [String.toList_ofList, htrim]
  · rw [Text.plainString, String.toList_ofList, hplain]
    rfl

theorem validate_again_overlong : validate {} overlong = .ok shortened ∧
    validate {} shortened.toJson = .ok shortened.trimmed ∧
    validate {} shortened.trimmed.toJson = .ok shortened.trimmed ∧
    (shortened.trimmed = shortened ↔ ∀ s ∈ shortened.texts, s.toList.getLast? ≠ some ' ') :=
  ⟨validate_overlong, validate_again (by decide) (by decide) validate_overlong⟩

/-- **The check may change a draft that it has accepted**: the cut has bared a
    space. -/
theorem not_fixed_of_cut : ¬ ∀ limits v d, validate limits v = .ok d →
    validate limits d.toJson = .ok d := by
  intro hall
  have hnormal := normal_of_validate (by decide) (by decide) validate_overlong
  have hagain := hnormal.validate_toJson (inBounds_of_validate validate_overlong)
  have hsame : shortened.trimmed = shortened :=
    Except.ok.inj (hagain.symm.trans (hall {} overlong shortened validate_overlong))
  refine hnormal.trimmed_eq_self_iff.1 hsame shortened.name List.mem_cons_self ?_
  rw [shortened, String.toList_ofList]
  decide

end Draft

end Swimlane
