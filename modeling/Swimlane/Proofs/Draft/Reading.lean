/-
  Swimlane — what the checks of a candidate accept.

  For each check, the values that pass it and what it gives for them.

  * `getElem?_of_readItems`: the `k`-th value was read from the `k`-th item, the
    identifiers before it being those of the earlier values.
  * `readNode_eq_ok`, `readFlow_eq_ok`: the nodes and flows that are read.
  * `checkWhole_eq_ok`: the demands on the draft as a whole.
  * `validate_eq_ok`: a candidate is accepted exactly when all checks pass.
-/
import Swimlane.Draft.Validate
import Swimlane.Proofs.Identifier
import Swimlane.Proofs.Stages

namespace Swimlane.Draft

/-! ## Values -/

theorem requireObject_eq_ok {place : Place} {v : Json} :
    requireObject place v = .ok () ↔ ∃ fields, v = .obj fields := by
  unfold requireObject
  split <;> simp_all

theorem requireArray_eq_ok {place : Place} {v : Option Json} {items : List Json} :
    requireArray place v = .ok items ↔ v = some (.arr items) := by
  unfold requireArray
  split <;> simp_all

/-- A text is accepted if it is not blank, and trimmed. -/
theorem requireText_eq_ok {place : Place} {v : Option Json} {s : String} :
    requireText place v = .ok s ↔
      ∃ t, v = some (.str t) ∧ Text.trim t.toList ≠ [] ∧ s = String.ofList (Text.trim t.toList) := by
  unfold requireText
  split
  · rename_i t
    by_cases h : Text.trim t.toList = []
    · simp [h]
    · simp only [List.isEmpty_iff, h, if_false, Except.ok.injEq, Option.some.injEq, Json.str.injEq,
        exists_eq_left', ne_eq, not_false_eq_true, true_and]
      exact eq_comm
  · rename_i hne
    simp only [reduceCtorEq, false_iff, not_exists, not_and]
    exact fun t ht => absurd ht (hne t)

/-- What is accepted as a text is not blank. -/
theorem trim_ne_nil_of_requireText {place : Place} {v : Option Json} {s : String}
    (h : requireText place v = .ok s) : Text.trim s.toList ≠ [] := by
  obtain ⟨t, -, hne, rfl⟩ := requireText_eq_ok.1 h
  rwa [String.toList_ofList, Text.trim_trim]

theorem checkCount_eq_ok {part : Part} {least greatest actual : ℕ} :
    checkCount part least greatest actual = .ok () ↔ least ≤ actual ∧ actual ≤ greatest := by
  unfold checkCount
  split
  · simp
    omega
  · split
    · simp
      omega
    · simp
      omega

/-! ## Items -/

section
variable {α : Type} {read : List String → ℕ → Json → Except Violation α} {idOf : α → String}

/-- **Each value was read from its item**, knowing the identifiers of the earlier
    values. -/
theorem getElem?_of_readItems {used : List String} {i : ℕ} {items : List Json} {values : List α}
    (h : readItems read idOf used i items = .ok values) {k : ℕ} {a : α}
    (hk : values[k]? = some a) :
    ∃ v, items[k]? = some v ∧
      read (((values.take k).map idOf).reverse ++ used) (i + k) v = .ok a := by
  induction items generalizing used i values k with
  | nil =>
    cases h
    cases hk
  | cons v rest ih =>
    obtain ⟨first, hfirst, h⟩ := bind_eq_ok.1 h
    obtain ⟨others, hothers, h⟩ := bind_eq_ok.1 h
    obtain rfl := pure_eq_ok.1 h
    cases k with
    | zero =>
      cases hk
      exact ⟨v, rfl, hfirst⟩
    | succ k =>
      obtain ⟨w, hw, hread⟩ := ih hothers (by simpa using hk)
      refine ⟨w, by simpa using hw, ?_⟩
      rw [show i + (k + 1) = i + 1 + k by omega]
      simpa using hread

/-- A value is read at a place and with a number of earlier identifiers below the
    number of values. -/
theorem exists_read_of_mem {items : List Json} {values : List α}
    (h : readItems read idOf [] 0 items = .ok values) {a : α} (ha : a ∈ values) :
    ∃ used i v, used.length < values.length ∧ i < values.length ∧ read used i v = .ok a := by
  obtain ⟨k, hk⟩ := List.mem_iff_getElem?.1 ha
  have hlt : k < values.length := (List.getElem?_eq_some_iff.1 hk).1
  obtain ⟨v, -, hread⟩ := getElem?_of_readItems h hk
  refine ⟨_, _, v, ?_, ?_, hread⟩
  · simp
    omega
  · omega

/-- Items that get an identifier not in use have identifiers that differ. -/
theorem nodup_of_readItems (hread : ∀ used i v a, read used i v = .ok a → idOf a ∉ used)
    {items : List Json} {values : List α} (h : readItems read idOf [] 0 items = .ok values) :
    (values.map idOf).Nodup := by
  rw [List.nodup_iff_getElem?_ne_getElem?]
  intro j k hjk hk heq
  rw [List.length_map] at hk
  obtain ⟨v, -, hv⟩ := getElem?_of_readItems h (List.getElem?_eq_getElem hk)
  refine hread _ _ _ _ hv ?_
  have hj : values[j]? = some values[j] := List.getElem?_eq_getElem (hjk.trans hk)
  rw [List.getElem?_map, List.getElem?_map, hj, List.getElem?_eq_getElem hk] at heq
  rw [← Option.some.inj heq, List.append_nil, List.mem_reverse]
  exact List.mem_map_of_mem (List.mem_of_getElem? (by rw [List.getElem?_take_of_lt hjk, hj]))

end

/-! ## Nodes and flows -/

/-- **A node that is read**: its type is a token of its kind, its identifier is
    free, and its label is plain. -/
theorem readNode_eq_ok {used : List String} {i : ℕ} {v : Json} {n : Node} :
    readNode used i v = .ok n ↔ (∃ fields, v = .obj fields) ∧
      ∃ token id label, requireText (.field .nodes i .type) (v.get? "type") = .ok token ∧
        Kind.ofToken? token = some n.kind ∧
        requireText (.field .nodes i .id) (v.get? "id") = .ok id ∧
        requireText (.field .nodes i .label) (v.get? "label") = .ok label ∧
        n.id = Identifier.assign "node" used i id ∧
        n.label = Text.plainString maxLabel label := by
  constructor
  · intro h
    obtain ⟨⟨⟩, hobject, h⟩ := bind_eq_ok.1 h
    obtain ⟨token, htoken, h⟩ := bind_eq_ok.1 h
    split at h
    · cases h
    · rename_i kind hkind
      obtain ⟨id, hid, h⟩ := bind_eq_ok.1 h
      obtain ⟨label, hlabel, h⟩ := bind_eq_ok.1 h
      obtain rfl := pure_eq_ok.1 h
      exact ⟨requireObject_eq_ok.1 hobject, token, id, label, htoken, hkind, hid, hlabel, rfl, rfl⟩
  · rintro ⟨hobject, token, id, label, htoken, hkind, hid, hlabel, hnid, hnlabel⟩
    obtain ⟨nid, kind, nlabel⟩ := n
    subst hnid hnlabel
    refine bind_eq_ok.2 ⟨(), requireObject_eq_ok.2 hobject, bind_eq_ok.2 ⟨token, htoken, ?_⟩⟩
    rw [hkind]
    exact bind_eq_ok.2 ⟨id, hid, bind_eq_ok.2 ⟨label, hlabel, rfl⟩⟩

/-- The end of a flow names a node. -/
theorem readEnd_eq_ok {nodeIds : List String} {i : ℕ} {flow : String} {key : Key} {v : Json}
    {id : String} : readEnd nodeIds i flow key v = .ok id ↔
      ∃ text, requireText (.field .flows i key) (v.get? key.name) = .ok text ∧
        id = Identifier.slug "" text ∧ id ∈ nodeIds := by
  constructor
  · intro h
    obtain ⟨text, htext, h⟩ := bind_eq_ok.1 h
    dsimp only at h
    split at h
    · rename_i hmem
      obtain rfl := Except.ok.inj h
      exact ⟨text, htext, rfl, by simpa using hmem⟩
    · cases h
  · rintro ⟨text, htext, hid, hmem⟩
    rw [hid] at hmem ⊢
    refine bind_eq_ok.2 ⟨text, htext, ?_⟩
    simp [hmem]

/-- **A flow that is read** leads from one node to another. -/
theorem readFlow_eq_ok {nodeIds used : List String} {i : ℕ} {v : Json} {f : Flow} :
    readFlow nodeIds used i v = .ok f ↔ (∃ fields, v = .obj fields) ∧
      (∃ id, requireText (.field .flows i .id) (v.get? "id") = .ok id ∧
        f.id = Identifier.assign "flow" used i id) ∧
      readEnd nodeIds i f.id .source v = .ok f.source ∧
      readEnd nodeIds i f.id .target v = .ok f.target ∧
      f.source ≠ f.target ∧ f.label = readFlowLabel v := by
  constructor
  · intro h
    obtain ⟨⟨⟩, hobject, h⟩ := bind_eq_ok.1 h
    obtain ⟨id, hid, h⟩ := bind_eq_ok.1 h
    obtain ⟨source, hsource, h⟩ := bind_eq_ok.1 h
    obtain ⟨target, htarget, h⟩ := bind_eq_ok.1 h
    split at h
    · cases h
    · rename_i hne
      obtain rfl := pure_eq_ok.1 h
      exact ⟨requireObject_eq_ok.1 hobject, ⟨id, hid, rfl⟩, hsource, htarget, hne, rfl⟩
  · rintro ⟨hobject, ⟨id, hid, hfid⟩, hsource, htarget, hne, hlabel⟩
    obtain ⟨fid, source, target, label⟩ := f
    subst hfid hlabel
    refine bind_eq_ok.2 ⟨(), requireObject_eq_ok.2 hobject, bind_eq_ok.2 ⟨id, hid,
      bind_eq_ok.2 ⟨source, hsource, bind_eq_ok.2 ⟨target, htarget, ?_⟩⟩⟩⟩
    rw [if_neg hne]
    rfl

/-! ## The draft as a whole -/

/-- **The demands on the whole draft.** -/
theorem checkWhole_eq_ok {nodes : List Node} {flows : List Flow} :
    checkWhole nodes flows = .ok () ↔ ∃ start, ofKind .start nodes = [start] ∧
      (∃ f ∈ flows, f.source = start.id) ∧
      ∃ n ∈ nodes, n.kind = .finish ∧ ∃ f ∈ flows, f.target = n.id := by
  unfold checkWhole
  split
  · rename_i start hstart
    have hnone : (ofKind .finish nodes).isEmpty = true ↔ ¬ ∃ n ∈ nodes, n.kind = .finish := by
      simp [ofKind]
    have hleft : (flows.any fun f => f.source = start.id) = true ↔
        ∃ f ∈ flows, f.source = start.id := by simp
    have hreached : ((ofKind .finish nodes).any fun n => flows.any fun f => f.target = n.id) = true ↔
        ∃ n ∈ nodes, n.kind = .finish ∧ ∃ f ∈ flows, f.target = n.id := by
      simp [ofKind]
    simp only [hstart, List.cons.injEq, and_true, exists_eq_left', ← hleft, ← hreached]
    split
    · rename_i hempty
      simp only [reduceCtorEq, false_iff, not_and, hreached]
      rintro - ⟨n, hn, hkind, -⟩
      exact hnone.1 hempty ⟨n, hn, hkind⟩
    · split
      · rename_i hnleft
        simp only [reduceCtorEq, false_iff]
        rintro ⟨hl, -⟩
        rw [hl] at hnleft
        cases hnleft
      · rename_i hl
        split
        · rename_i hnreached
          simp only [reduceCtorEq, false_iff]
          rintro ⟨-, hr⟩
          rw [hr] at hnreached
          cases hnreached
        · rename_i hr
          simp only [Bool.not_eq_true', Bool.not_eq_false] at hl hr
          exact ⟨fun _ => ⟨hl, hr⟩, fun _ => rfl⟩
  · rename_i hne
    simp only [reduceCtorEq, false_iff]
    rintro ⟨start, hstart, -⟩
    exact hne start hstart

/-- **A candidate is accepted** exactly when all its checks pass. -/
theorem validate_eq_ok {limits : Limits} {v : Json} {d : Draft} :
    validate limits v = .ok d ↔ (∃ fields, v = .obj fields) ∧
      ∃ name rawNodes rawFlows, requireText .processName (v.get? "processName") = .ok name ∧
        v.get? "nodes" = some (.arr rawNodes) ∧
        v.get? "flows" = some (.arr rawFlows) ∧
        checkCount .nodes minNodes limits.maxNodes rawNodes.length = .ok () ∧
        checkCount .flows minFlows limits.maxFlows rawFlows.length = .ok () ∧
        readNodes rawNodes = .ok d.nodes ∧
        readFlows (d.nodes.map Node.id) rawFlows = .ok d.flows ∧
        checkWhole d.nodes d.flows = .ok () ∧ d.name = Text.plainString maxLabel name := by
  constructor
  · intro h
    obtain ⟨⟨⟩, hobject, h⟩ := bind_eq_ok.1 h
    obtain ⟨name, hname, h⟩ := bind_eq_ok.1 h
    obtain ⟨rawNodes, hrawNodes, h⟩ := bind_eq_ok.1 h
    obtain ⟨rawFlows, hrawFlows, h⟩ := bind_eq_ok.1 h
    obtain ⟨⟨⟩, hcountNodes, h⟩ := bind_eq_ok.1 h
    obtain ⟨⟨⟩, hcountFlows, h⟩ := bind_eq_ok.1 h
    obtain ⟨nodes, hnodes, h⟩ := bind_eq_ok.1 h
    obtain ⟨flows, hflows, h⟩ := bind_eq_ok.1 h
    obtain ⟨⟨⟩, hwhole, h⟩ := bind_eq_ok.1 h
    obtain rfl := pure_eq_ok.1 h
    exact ⟨requireObject_eq_ok.1 hobject, name, rawNodes, rawFlows, hname,
      requireArray_eq_ok.1 hrawNodes, requireArray_eq_ok.1 hrawFlows, hcountNodes, hcountFlows,
      hnodes, hflows, hwhole, rfl⟩
  · rintro ⟨hobject, name, rawNodes, rawFlows, hname, hrawNodes, hrawFlows, hcountNodes,
      hcountFlows, hnodes, hflows, hwhole, hdname⟩
    obtain ⟨dname, nodes, flows⟩ := d
    subst hdname
    exact bind_eq_ok.2 ⟨(), requireObject_eq_ok.2 hobject, bind_eq_ok.2 ⟨name, hname,
      bind_eq_ok.2 ⟨rawNodes, requireArray_eq_ok.2 hrawNodes,
      bind_eq_ok.2 ⟨rawFlows, requireArray_eq_ok.2 hrawFlows, bind_eq_ok.2 ⟨(), hcountNodes,
      bind_eq_ok.2 ⟨(), hcountFlows, bind_eq_ok.2 ⟨nodes, hnodes, bind_eq_ok.2 ⟨flows, hflows,
      bind_eq_ok.2 ⟨(), hwhole, rfl⟩⟩⟩⟩⟩⟩⟩⟩⟩

end Swimlane.Draft
