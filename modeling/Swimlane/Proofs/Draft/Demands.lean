/-
  Swimlane — the demands on a candidate.

  `demands limits v` lists all that is demanded of a candidate, in the order in
  which it is checked, and what is reported if a demand is not met.  A demand
  says what it says whether or not the earlier ones are met: a field that is
  missing has the empty text, and what is no list has no items.

  * `identifiers stem items`: the identifiers that the items of a list get.
  * `Reports x ds`: the check `x` fails exactly with the first unmet demand of
    `ds`.  `Reports.bind`: checks one after the other report their demands one
    after the other.
  * `validate_reports_first`: a candidate is accepted exactly if all demands are
    met, and otherwise the first unmet one is reported.
-/
import Swimlane.Proofs.Draft.Reading

namespace Swimlane.Draft

/-! ## Values of a candidate -/

def isObject : Json → Bool
  | .obj _ => true
  | _ => false

/-- The items of a list. -/
def itemsOf : Option Json → List Json
  | some (.arr items) => items
  | _ => []

def isArray : Option Json → Bool
  | some (.arr _) => true
  | _ => false

/-- The text of a value, trimmed. -/
def textOf : Option Json → String
  | some (.str s) => Text.trimString s
  | _ => ""

def isText : Option Json → Bool
  | some (.str _) => true
  | _ => false

/-- The text in a field of an item, trimmed. -/
def fieldText (key : Key) (item : Json) : String := textOf (item.get? key.name)

/-- The identifiers of the items from the `i`-th on, when `used` are those of the
    earlier ones. -/
def identifiersFrom (stem : String) (used : List String) (i : ℕ) : List Json → List String
  | [] => []
  | item :: items =>
    let id := Identifier.assign stem used i (fieldText .id item)
    id :: identifiersFrom stem (id :: used) (i + 1) items

/-- The identifiers of the items of a list. -/
def identifiers (stem : String) (items : List Json) : List String := identifiersFrom stem [] 0 items

/-- The node identifier for which the text in a field of a flow stands. -/
def reference (key : Key) (flow : Json) : String := Identifier.slug "" (fieldText key flow)

/-! ## Demands -/

/-- A demand on a candidate, and what is reported if it is not met. -/
structure Demand where
  met : Bool
  violation : Violation

/-- The value is a text and not blank. -/
def textDemands (place : Place) (v : Option Json) : List Demand :=
  [⟨isText v, place, .notString⟩, ⟨textOf v ≠ "", place, .empty⟩]

def fieldDemands (part : Part) (i : ℕ) (key : Key) (item : Json) : List Demand :=
  textDemands (.field part i key) (item.get? key.name)

def countDemands (part : Part) (least greatest actual : ℕ) : List Demand :=
  [⟨least ≤ actual, .list part, .tooFew least actual⟩,
   ⟨actual ≤ greatest, .list part, .tooMany greatest actual⟩]

/-- The tokens that are supported as types of nodes. -/
def tokens : List String := ["start", "task", "gateway_exclusive", "gatewayExclusive", "end"]

/-- The demands on the items of a list, one after the other; `demandsOf` tells them
    by the place, the identifier and the item. -/
def listDemands (stem : String) (demandsOf : ℕ → String → Json → List Demand)
    (items : List Json) : List Demand :=
  (items.zip (identifiers stem items)).zipIdx.flatMap fun v => demandsOf v.2 v.1.2 v.1.1

/-- The demands on the `i`-th node. -/
def nodeDemands (i : ℕ) (node : Json) : List Demand :=
  let token := fieldText .type node
  ⟨isObject node, .item .nodes i, .notObject⟩ :: fieldDemands .nodes i .type node ++
    ⟨tokens.contains token, .field .nodes i .type, .unsupportedType token⟩ ::
      fieldDemands .nodes i .id node ++ fieldDemands .nodes i .label node

/-- The demands on one end of the `i`-th flow, with the identifier `id`. -/
def endDemands (nodeIds : List String) (i : ℕ) (id : String) (key : Key) (flow : Json) :
    List Demand :=
  fieldDemands .flows i key flow ++
    [⟨nodeIds.contains (reference key flow), .field .flows i key,
      .unknownNode id (reference key flow)⟩]

/-- The demands on the `i`-th flow, with the identifier `id`. -/
def flowDemands (nodeIds : List String) (i : ℕ) (id : String) (flow : Json) : List Demand :=
  ⟨isObject flow, .item .flows i, .notObject⟩ :: fieldDemands .flows i .id flow ++
    endDemands nodeIds i id .source flow ++ endDemands nodeIds i id .target flow ++
    [⟨reference .source flow ≠ reference .target flow, .item .flows i, .selfLoop id⟩]

/-- The identifiers of the nodes of which the type is the token. -/
def idsOfType (token : String) (nodes : List Json) : List String :=
  (((identifiers "node" nodes).zip nodes).filter fun n => fieldText .type n.2 = token).map Prod.fst

/-- The demands on the whole: one start, from which a flow leaves, and an end, at
    which one arrives. -/
def wholeDemands (nodes flows : List Json) : List Demand :=
  let starts := idsOfType "start" nodes
  let finishes := idsOfType "end" nodes
  [⟨starts.length = 1, .list .nodes, .startCount starts.length⟩,
   ⟨!finishes.isEmpty, .list .nodes, .missingFinish⟩,
   ⟨starts.any fun id => flows.any fun f => reference .source f = id, .list .flows,
    .startWithoutOutgoing (starts.headD "")⟩,
   ⟨finishes.any fun id => flows.any fun f => reference .target f = id, .list .flows,
    .finishWithoutIncoming⟩]

/-- **The demands on a candidate**, in order. -/
def demands (limits : Limits) (v : Json) : List Demand :=
  let nodes := itemsOf (v.get? "nodes")
  let flows := itemsOf (v.get? "flows")
  ⟨isObject v, .payload, .notObject⟩ :: textDemands .processName (v.get? "processName") ++
    [⟨isArray (v.get? "nodes"), .list .nodes, .notArray⟩,
     ⟨isArray (v.get? "flows"), .list .flows, .notArray⟩] ++
    countDemands .nodes 3 limits.maxNodes nodes.length ++
    countDemands .flows 2 limits.maxFlows flows.length ++
    listDemands "node" (fun i _ => nodeDemands i) nodes ++
    listDemands "flow" (flowDemands (identifiers "node" nodes)) flows ++
    wholeDemands nodes flows

/-! ## Reports -/

/-- The violation of the first demand that is not met. -/
def firstUnmet? (ds : List Demand) : Option Violation :=
  (ds.find? fun d => !d.met).map Demand.violation

theorem firstUnmet?_append (ds es : List Demand) :
    firstUnmet? (ds ++ es) = (firstUnmet? ds).or (firstUnmet? es) := by
  rw [firstUnmet?, List.find?_append, Option.map_or]
  rfl

theorem firstUnmet?_eq_none {ds : List Demand} :
    firstUnmet? ds = none ↔ ∀ d ∈ ds, d.met = true := by
  simp [firstUnmet?]

theorem firstUnmet?_eq_some {ds : List Demand} {e : Violation} :
    firstUnmet? ds = some e ↔ ∃ before d after, ds = before ++ d :: after ∧
      (∀ b ∈ before, b.met = true) ∧ d.met = false ∧ d.violation = e := by
  simp only [firstUnmet?, Option.map_eq_some_iff, List.find?_eq_some_iff_append, Bool.not_eq_true',
    Bool.not_not]
  constructor
  · rintro ⟨d, ⟨hunmet, before, after, rfl, hbefore⟩, rfl⟩
    exact ⟨before, d, after, rfl, hbefore, hunmet, rfl⟩
  · rintro ⟨before, d, after, rfl, hbefore, hunmet, rfl⟩
    exact ⟨d, ⟨hunmet, before, after, rfl, hbefore⟩, rfl⟩

section
variable {α β : Type}

/-- The check fails with the first unmet demand, and succeeds if all are met. -/
inductive Reports : Except Violation α → List Demand → Prop
  | ok {a : α} {ds : List Demand} (first : firstUnmet? ds = none) : Reports (.ok a) ds
  | error {e : Violation} {ds : List Demand} (first : firstUnmet? ds = some e) :
      Reports (.error e) ds

theorem reports_ok (a : α) : Reports (.ok a) [] := .ok rfl

/-- The first demand is not met. -/
theorem reports_unmet {d : Demand} (h : d.met = false) (ds : List Demand) :
    Reports (.error d.violation : Except Violation α) (d :: ds) := .error (by simp [firstUnmet?, h])

theorem Reports.cons {x : Except Violation α} {ds : List Demand} (h : Reports x ds) {d : Demand}
    (hd : d.met = true) : Reports x (d :: ds) := by
  have hcons : firstUnmet? (d :: ds) = firstUnmet? ds := by simp [firstUnmet?, hd]
  cases h with
  | ok first => exact .ok (hcons.trans first)
  | error first => exact .error (hcons.trans first)

/-- A check that refuses the case in which one demand is not met. -/
theorem reports_refusal {p : Prop} [Decidable p] {d : Demand} (h : d.met = true ↔ ¬ p) (a : α) :
    Reports (if p then .error d.violation else .ok a) [d] := by
  by_cases hp : p
  · rw [if_pos hp]
    exact reports_unmet (by simpa [hp] using h) []
  · rw [if_neg hp]
    exact (reports_ok a).cons (h.2 hp)

/-- **Checks one after the other** report their demands one after the other. -/
theorem Reports.bind {x : Except Violation α} {f : α → Except Violation β} {ds es : List Demand}
    (hx : Reports x ds) (hf : ∀ a, x = .ok a → Reports (f a) es) :
    Reports (x >>= f) (ds ++ es) := by
  cases hx with
  | error first => exact .error (by rw [firstUnmet?_append, first, Option.some_or])
  | @ok a _ first =>
    have hrest : firstUnmet? (ds ++ es) = firstUnmet? es := by
      rw [firstUnmet?_append, first, Option.none_or]
    have hfa := hf a rfl
    change Reports (f a) (ds ++ es)
    cases hb : f a with
    | ok b =>
      rw [hb] at hfa
      cases hfa with
      | ok first => exact .ok (hrest.trans first)
    | error e =>
      rw [hb] at hfa
      cases hfa with
      | error first => exact .error (hrest.trans first)

end

/-! ## Values -/

theorem reports_requireObject (place : Place) (v : Json) :
    Reports (requireObject place v) [⟨isObject v, place, .notObject⟩] := by
  cases v with
  | obj fields => exact (reports_ok ()).cons rfl
  | _ => exact reports_unmet (d := ⟨false, place, .notObject⟩) rfl []

theorem reports_requireArray (place : Place) (v : Option Json) :
    Reports (requireArray place v) [⟨isArray v, place, .notArray⟩] := by
  unfold requireArray
  split
  · exact (reports_ok _).cons rfl
  · rename_i hne
    refine reports_unmet (d := ⟨isArray v, place, .notArray⟩) ?_ []
    unfold isArray
    split
    · rename_i items
      exact absurd rfl (hne items)
    · rfl

theorem reports_requireText (place : Place) (v : Option Json) :
    Reports (requireText place v) (textDemands place v) := by
  unfold requireText
  split
  · rename_i s
    have hempty : (textOf (some (.str s)) ≠ "") ↔ Text.trim s.toList ≠ [] := by
      rw [textOf, Text.trimString, ne_eq, ne_eq, ← String.toList_inj, String.toList_ofList,
        String.toList_empty]
    by_cases hs : Text.trim s.toList = []
    · simp only [hs, List.isEmpty_nil, if_true]
      refine Reports.cons (reports_unmet (d := ⟨_, place, .empty⟩) ?_ []) rfl
      simpa using fun h => hempty.1 h hs
    · simp only [List.isEmpty_iff, hs, if_false]
      refine Reports.cons (Reports.cons (reports_ok _) ?_) rfl
      simpa using hempty.2 hs
  · rename_i hne
    refine reports_unmet (d := ⟨_, place, .notString⟩) ?_ _
    unfold isText
    split
    · rename_i s
      exact absurd rfl (hne s)
    · rfl

/-- A text that is read is the text of the value. -/
theorem eq_textOf {place : Place} {v : Option Json} {s : String} (h : requireText place v = .ok s) :
    s = textOf v := by
  obtain ⟨t, rfl, -, rfl⟩ := requireText_eq_ok.1 h
  rfl

theorem reports_checkCount (part : Part) (least greatest actual : ℕ) :
    Reports (checkCount part least greatest actual) (countDemands part least greatest actual) := by
  unfold checkCount
  split
  · exact reports_unmet (d := ⟨_, .list part, .tooFew least actual⟩) (by simpa) _
  · refine Reports.cons ?_ (by simpa using Nat.not_lt.1 ‹_›)
    split
    · exact reports_unmet (d := ⟨_, .list part, .tooMany greatest actual⟩) (by simpa) _
    · exact (reports_ok ()).cons (by simpa using Nat.not_lt.1 ‹_›)

/-! ## Items -/

section
variable {α : Type} {read : List String → ℕ → Json → Except Violation α} {idOf : α → String}
  {stem : String}

/-- **Items that are read one after the other** report their demands one after the
    other, if each of them does when it gets its identifier. -/
theorem reports_readItems (demandsOf : ℕ → String → Json → List Demand)
    (hid : ∀ used i v a, read used i v = .ok a →
      idOf a = Identifier.assign stem used i (fieldText .id v))
    (hread : ∀ used i v, Reports (read used i v)
      (demandsOf i (Identifier.assign stem used i (fieldText .id v)) v))
    (used : List String) (i : ℕ) (items : List Json) :
    Reports (readItems read idOf used i items)
      (((items.zip (identifiersFrom stem used i items)).zipIdx i).flatMap fun v =>
        demandsOf v.2 v.1.2 v.1.1) := by
  induction items generalizing used i with
  | nil => exact reports_ok _
  | cons v rest ih =>
    rw [identifiersFrom, List.zip_cons_cons, List.zipIdx_cons, List.flatMap_cons]
    refine (hread used i v).bind fun a ha => ?_
    rw [← hid used i v a ha]
    rw [← List.append_nil (List.flatMap _ _)]
    exact (ih _ _).bind fun _ _ => reports_ok _

/-- What is told by each item is told by the list. -/
theorem map_of_readItems {γ : Type} {key : α → γ} {keyOf : Json → γ}
    (hkey : ∀ used i v a, read used i v = .ok a → key a = keyOf v) {used : List String} {i : ℕ}
    {items : List Json} {values : List α} (h : readItems read idOf used i items = .ok values) :
    values.map key = items.map keyOf := by
  induction items generalizing used i values with
  | nil =>
    cases h
    rfl
  | cons v rest ih =>
    obtain ⟨a, ha, h⟩ := bind_eq_ok.1 h
    obtain ⟨others, hothers, h⟩ := bind_eq_ok.1 h
    obtain rfl := pure_eq_ok.1 h
    rw [List.map_cons, List.map_cons, hkey _ _ _ _ ha, ih hothers]

/-- The values have the identifiers of the items. -/
theorem ids_of_readItems
    (hid : ∀ used i v a, read used i v = .ok a →
      idOf a = Identifier.assign stem used i (fieldText .id v))
    {used : List String} {i : ℕ} {items : List Json} {values : List α}
    (h : readItems read idOf used i items = .ok values) :
    values.map idOf = identifiersFrom stem used i items := by
  induction items generalizing used i values with
  | nil =>
    cases h
    rfl
  | cons v rest ih =>
    obtain ⟨a, ha, h⟩ := bind_eq_ok.1 h
    obtain ⟨others, hothers, h⟩ := bind_eq_ok.1 h
    obtain rfl := pure_eq_ok.1 h
    rw [identifiersFrom, List.map_cons, ih hothers, hid _ _ _ _ ha]

end

/-! ## Nodes -/

theorem ofToken?_eq_none {token : String} :
    Kind.ofToken? token = none ↔ tokens.contains token = false := by
  unfold Kind.ofToken?
  split <;> simp_all [tokens]

theorem ofToken?_eq_some_start {token : String} :
    Kind.ofToken? token = some .start ↔ token = "start" := by
  unfold Kind.ofToken?
  split <;> simp_all

theorem ofToken?_eq_some_finish {token : String} :
    Kind.ofToken? token = some .finish ↔ token = "end" := by
  unfold Kind.ofToken?
  split <;> simp_all

theorem reports_readNode (used : List String) (i : ℕ) (v : Json) :
    Reports (readNode used i v) (nodeDemands i v) := by
  unfold readNode nodeDemands
  simp only [List.cons_append, List.append_assoc]
  refine (reports_requireObject _ v).bind fun _ _ => ?_
  refine (reports_requireText _ _).bind fun token htoken => ?_
  obtain rfl : token = fieldText .type v := eq_textOf htoken
  split
  · rename_i hkind
    exact reports_unmet (d := ⟨_, .field .nodes i .type, .unsupportedType (fieldText .type v)⟩)
      (ofToken?_eq_none.1 hkind) _
  · rename_i kind hkind
    have hknown : tokens.contains (fieldText .type v) = true := by
      rw [← Bool.not_eq_false, ← ofToken?_eq_none, hkind]
      exact Option.some_ne_none kind
    refine Reports.cons ?_ hknown
    refine (reports_requireText _ _).bind fun id _ => ?_
    rw [← List.append_nil (fieldDemands _ _ _ _)]
    exact (reports_requireText _ _).bind fun label _ => reports_ok _

theorem key_of_readNode {used : List String} {i : ℕ} {v : Json} {n : Node}
    (h : readNode used i v = .ok n) :
    n.id = Identifier.assign "node" used i (fieldText .id v) ∧
      Kind.ofToken? (fieldText .type v) = some n.kind := by
  obtain ⟨-, token, id, label, htoken, hkind, hid, -, hassign, -⟩ := readNode_eq_ok.1 h
  rw [eq_textOf htoken] at hkind
  rw [eq_textOf hid] at hassign
  exact ⟨hassign, hkind⟩

/-! ## Flows -/

theorem reports_readEnd (nodeIds : List String) (i : ℕ) (id : String) (key : Key) (v : Json) :
    Reports (readEnd nodeIds i id key v) (endDemands nodeIds i id key v) := by
  unfold readEnd endDemands
  refine (reports_requireText _ _).bind fun text htext => ?_
  obtain rfl : text = fieldText key v := eq_textOf htext
  rw [← reference]
  dsimp only
  split
  · rename_i hmem
    exact (reports_ok _).cons hmem
  · rename_i hmem
    exact reports_unmet (d := ⟨_, .field .flows i key, .unknownNode id (reference key v)⟩)
      (by simpa using hmem) []

theorem eq_reference {nodeIds : List String} {i : ℕ} {id : String} {key : Key} {v : Json}
    {finish : String} (h : readEnd nodeIds i id key v = .ok finish) : finish = reference key v := by
  obtain ⟨text, htext, hslug, -⟩ := readEnd_eq_ok.1 h
  rw [hslug, eq_textOf htext]
  rfl

theorem reports_readFlow (nodeIds used : List String) (i : ℕ) (v : Json) :
    Reports (readFlow nodeIds used i v)
      (flowDemands nodeIds i (Identifier.assign "flow" used i (fieldText .id v)) v) := by
  unfold readFlow flowDemands
  simp only [List.cons_append, List.append_assoc]
  refine (reports_requireObject _ v).bind fun _ _ => ?_
  refine (reports_requireText _ _).bind fun text htext => ?_
  obtain rfl : text = fieldText .id v := eq_textOf htext
  refine (reports_readEnd _ _ _ _ _).bind fun source hsource => ?_
  refine (reports_readEnd _ _ _ _ _).bind fun target htarget => ?_
  rw [eq_reference hsource, eq_reference htarget]
  exact reports_refusal (d := ⟨_, .item .flows i, .selfLoop _⟩) (by simp) _

theorem keys_of_readFlow {nodeIds used : List String} {i : ℕ} {v : Json} {f : Flow}
    (h : readFlow nodeIds used i v = .ok f) :
    f.id = Identifier.assign "flow" used i (fieldText .id v) ∧
      f.source = reference .source v ∧ f.target = reference .target v := by
  obtain ⟨-, ⟨id, hid, hassign⟩, hsource, htarget, -⟩ := readFlow_eq_ok.1 h
  rw [eq_textOf hid] at hassign
  exact ⟨hassign, eq_reference hsource, eq_reference htarget⟩

/-! ## The draft as a whole -/

section
variable {rawNodes rawFlows : List Json} {nodes : List Node} {flows : List Flow}

/-- The nodes of a kind are the items with its token. -/
theorem idsOfType_eq {token : String} {kind : Kind}
    (htoken : ∀ t, Kind.ofToken? t = some kind ↔ t = token)
    (hids : nodes.map Node.id = identifiers "node" rawNodes)
    (hkinds : nodes.map (fun n => some n.kind) =
      rawNodes.map fun v => Kind.ofToken? (fieldText .type v)) :
    idsOfType token rawNodes = (ofKind kind nodes).map Node.id := by
  rw [idsOfType, ← hids, ofKind]
  clear hids
  induction nodes generalizing rawNodes with
  | nil => rfl
  | cons n nodes ih =>
    obtain ⟨v, rest, rfl⟩ : ∃ v rest, rawNodes = v :: rest :=
      List.exists_cons_of_ne_nil fun hnil => by simp [hnil] at hkinds
    simp only [List.map_cons, List.cons.injEq] at hkinds
    obtain ⟨hkind, hrest⟩ := hkinds
    have hiff : fieldText .type v = token ↔ n.kind = kind := by
      rw [← htoken, ← hkind, Option.some.injEq]
    by_cases h : n.kind = kind
    · simp [hiff.2 h, h, ih hrest]
    · simp [mt hiff.1 h, h, ih hrest]

/-- Whether a flow has a certain end is told by its item. -/
theorem any_eq_of_map_eq {α β : Type} {as : List α} {bs : List β} {f : α → String} {g : β → String}
    (h : as.map f = bs.map g) (id : String) :
    (bs.any fun b => g b = id) = as.any fun a => f a = id := by
  have hany := congrArg (fun ss : List String => ss.any fun s => s = id) h
  simpa [List.any_map, Function.comp_def] using hany.symm

theorem reports_checkWhole (hids : nodes.map Node.id = identifiers "node" rawNodes)
    (hkinds : nodes.map (fun n => some n.kind) =
      rawNodes.map fun v => Kind.ofToken? (fieldText .type v))
    (hsources : flows.map Flow.source = rawFlows.map (reference .source))
    (htargets : flows.map Flow.target = rawFlows.map (reference .target)) :
    Reports (checkWhole nodes flows) (wholeDemands rawNodes rawFlows) := by
  have hstarts := idsOfType_eq (fun _ => ofToken?_eq_some_start) hids hkinds
  have hfinishes := idsOfType_eq (fun _ => ofToken?_eq_some_finish) hids hkinds
  unfold checkWhole wholeDemands
  simp only [hstarts, hfinishes, any_eq_of_map_eq hsources, any_eq_of_map_eq htargets,
    List.any_map, List.isEmpty_map, List.length_map]
  split
  · rename_i start hstart
    refine Reports.cons ?_ (by simp [hstart])
    simp only [hstart, List.map_cons, List.map_nil, List.headD_cons, List.any_cons, List.any_nil,
      Bool.or_false, Function.comp_apply]
    split
    · exact reports_unmet (d := ⟨_, .list .nodes, .missingFinish⟩) (by simp_all) _
    · refine Reports.cons ?_ (by simp_all)
      split
      · exact reports_unmet (d := ⟨_, .list .flows, .startWithoutOutgoing start.id⟩) (by simp_all) _
      · refine Reports.cons ?_ (by simp_all)
        split
        · exact reports_unmet (d := ⟨_, .list .flows, .finishWithoutIncoming⟩) (by simp_all) _
        · exact (reports_ok ()).cons (by simp_all)
  · rename_i hne
    refine reports_unmet
      (d := ⟨_, .list .nodes, .startCount (ofKind .start nodes).length⟩) ?_ _
    simpa [List.length_eq_one_iff] using hne

end

/-! ## Candidates -/

/-- The check of a candidate reports its demands. -/
theorem reports_validate (limits : Limits) (v : Json) :
    Reports (validate limits v) (demands limits v) := by
  unfold validate demands
  simp only [List.cons_append, List.append_assoc, List.nil_append]
  refine (reports_requireObject _ v).bind fun _ _ => ?_
  refine (reports_requireText _ _).bind fun name _ => ?_
  refine (reports_requireArray _ _).bind fun rawNodes hnodes => ?_
  refine (reports_requireArray _ _).bind fun rawFlows hflows => ?_
  rw [requireArray_eq_ok] at hnodes hflows
  simp only [hnodes, hflows, itemsOf]
  refine (reports_checkCount _ _ _ _).bind fun _ _ => ?_
  refine (reports_checkCount _ _ _ _).bind fun _ _ => ?_
  have hnodeKey := fun used i v n (h : readNode used i v = .ok n) => key_of_readNode h
  refine (reports_readItems (fun i _ => nodeDemands i)
    (fun used i v n h => (hnodeKey used i v n h).1)
    (fun used i v => reports_readNode used i v) [] 0 rawNodes).bind fun nodes hnodes => ?_
  have hids : nodes.map Node.id = identifiers "node" rawNodes :=
    ids_of_readItems (fun used i v n h => (hnodeKey used i v n h).1) hnodes
  have hkinds : nodes.map (fun n => some n.kind) =
      rawNodes.map fun v => Kind.ofToken? (fieldText .type v) :=
    map_of_readItems (fun used i v n h => (hnodeKey used i v n h).2.symm) hnodes
  rw [← hids]
  have hflowKeys := fun used i v f (h : readFlow (nodes.map Node.id) used i v = .ok f) =>
    keys_of_readFlow h
  refine (reports_readItems (flowDemands (nodes.map Node.id))
    (fun used i v f h => (hflowKeys used i v f h).1)
    (fun used i v => reports_readFlow _ used i v) [] 0 rawFlows).bind fun flows hflows => ?_
  have hsources : flows.map Flow.source = rawFlows.map (reference .source) :=
    map_of_readItems (fun used i v f h => (hflowKeys used i v f h).2.1) hflows
  have htargets : flows.map Flow.target = rawFlows.map (reference .target) :=
    map_of_readItems (fun used i v f h => (hflowKeys used i v f h).2.2) hflows
  rw [← List.append_nil (wholeDemands _ _)]
  exact (reports_checkWhole hids hkinds hsources htargets).bind fun _ _ => reports_ok _

/-- **A candidate is accepted** exactly if all demands on it are met.  Otherwise
    the first one that is not met is reported. -/
theorem validate_reports_first (limits : Limits) (v : Json) :
    ((∃ d, validate limits v = .ok d) ↔ ∀ r ∈ demands limits v, r.met = true) ∧
      ∀ e, validate limits v = .error e ↔ ∃ before r after,
        demands limits v = before ++ r :: after ∧ (∀ b ∈ before, b.met = true) ∧
          r.met = false ∧ r.violation = e := by
  have hreports := reports_validate limits v
  rw [← firstUnmet?_eq_none]
  simp only [← firstUnmet?_eq_some]
  cases hvalid : validate limits v with
  | ok d =>
    rw [hvalid] at hreports
    cases hreports with
    | ok first => simp [first]
  | error e =>
    rw [hvalid] at hreports
    cases hreports with
    | error first => simp [first]

end Swimlane.Draft
