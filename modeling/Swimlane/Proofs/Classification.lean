/-
  Swimlane — rules that are added.

  The first rule with a matching keyword tells what a task is.  A keyword or a rule
  that is added therefore counts for the labels that it matches and no earlier rule
  does, and for no others.

  * `Rule.Matches`, `RuleSet.FreeBefore`: a rule matches a label, and none of the rules
    before a place does.
  * `classify_addRule_of_matches`, `classify_addRule_of_not`: what a rule more does.
    `classify_addKeyword`: a keyword more does what a rule with this keyword alone does.
  * `Retypes`: two graphs that differ in the kind and the lane of some tasks only.
    `retypes_ofDraft`: so do the graphs of a draft if the rules differ for some labels
    only.
  * `RuleSet.Extends`: the rules change for some labels only, and so do the graphs;
    `added_rules_contained`: a keyword and a rule more extend the rules like that.
-/
import Swimlane.Classification
import Swimlane.Proofs.Graph

namespace Swimlane

open Vocabulary (words matchesKeyword matchesAny)

/-! ## The first rule that matches -/

/-- The label matches a keyword of the rule. -/
def Rule.Matches (rule : Rule) (label : String) : Prop :=
  ∃ keyword ∈ rule.keywords, matchesKeyword (words label) keyword = true

theorem Rule.matches_iff {rule : Rule} {label : String} :
    matchesAny (words label) rule.keywords = true ↔ rule.Matches label :=
  List.any_eq_true

namespace RuleSet

/-- The rules with a keyword more, the `j`-th one of the `i`-th rule. -/
def addKeyword (rules : RuleSet) (i j : ℕ) (keyword : String) : RuleSet :=
  { rules with
    classification := rules.classification.modify i fun rule =>
      { rule with keywords := rule.keywords.insertIdx j keyword } }

/-- The rules with a rule more, the `i`-th one. -/
def addRule (rules : RuleSet) (i : ℕ) (rule : Rule) : RuleSet :=
  { rules with classification := rules.classification.insertIdx i rule }

/-- No rule before the `i`-th one matches the label. -/
def FreeBefore (rules : RuleSet) (i : ℕ) (label : String) : Prop :=
  ∀ rule ∈ rules.classification.take i, ¬ rule.Matches label

section
variable {rules : RuleSet} {i j : ℕ} {rule : Rule} {keyword label : String}
  {before after : List Rule}

/-- The rules before and after a place, when a rule is added there. -/
theorem exists_split_addRule (hi : i ≤ rules.classification.length) (rule : Rule) :
    ∃ before after, rules.classification = before ++ after ∧ before.length = i ∧
      (rules.addRule i rule).classification = before ++ rule :: after :=
  List.exists_of_modifyTailIdx (List.cons rule) hi

theorem freeBefore_iff (hsplit : rules.classification = before ++ after)
    (hlength : before.length = i) : rules.FreeBefore i label ↔
      (before.find? fun rule => matchesAny (words label) rule.keywords) = none := by
  rw [FreeBefore, hsplit, ← hlength, List.take_left, List.find?_eq_none]
  simp only [Rule.matches_iff]

/-- **A new rule decides** the labels that it matches and no earlier rule does. -/
theorem classify_addRule_of_matches (hi : i ≤ rules.classification.length)
    (h : rule.Matches label) (hfree : rules.FreeBefore i label) :
    (rules.addRule i rule).classify label = (rule.kind, rule.lane) := by
  obtain ⟨before, after, hsplit, hlength, hadd⟩ := exists_split_addRule hi rule
  have hnone := (freeBefore_iff hsplit hlength).1 hfree
  simp only [classify, hadd, List.find?_append, hnone, List.find?_cons, Rule.matches_iff.2 h,
    Option.none_or]

/-- **A new rule leaves the other labels** as they were. -/
theorem classify_addRule_of_not (hi : i ≤ rules.classification.length)
    (h : ¬ (rule.Matches label ∧ rules.FreeBefore i label)) :
    (rules.addRule i rule).classify label = rules.classify label := by
  obtain ⟨before, after, hsplit, hlength, hadd⟩ := exists_split_addRule hi rule
  simp only [classify, hadd, hsplit, List.find?_append]
  cases hfind : before.find? fun rule => matchesAny (words label) rule.keywords with
  | some earlier => rfl
  | none =>
    have hno : matchesAny (words label) rule.keywords = false := by
      rw [← Bool.not_eq_true, Rule.matches_iff]
      exact fun hmatches => h ⟨hmatches, (freeBefore_iff hsplit hlength).2 hfind⟩
    simp only [List.find?_cons, hno]
    rfl

/-- A keyword more is matched like the keywords together with it. -/
theorem matchesAny_insertIdx (ws : List Vocabulary.Word) {keywords : List String}
    (hj : j ≤ keywords.length) (keyword : String) :
    matchesAny ws (keywords.insertIdx j keyword) =
      (matchesKeyword ws keyword || matchesAny ws keywords) := by
  rw [matchesAny, (List.perm_insertIdx keyword keywords hj).any_eq, List.any_cons]
  rfl

/-- **A keyword more** does what a rule with this keyword alone, of the same kind and
    lane, does before the rule. -/
theorem classify_addKeyword (hi : i < rules.classification.length)
    (hj : j ≤ (rules.classification[i]).keywords.length) :
    (rules.addKeyword i j keyword).classify label =
      (rules.addRule i { rules.classification[i] with keywords := [keyword] }).classify label := by
  obtain ⟨before, rule, after, hsplit, hlength, hmodify⟩ := List.exists_of_modify
    (fun rule : Rule => { rule with keywords := rule.keywords.insertIdx j keyword }) hi
  have hrule : rules.classification[i] = rule := by
    simp [hsplit, ← hlength]
  have hadd : (rules.addRule i { rule with keywords := [keyword] }).classification =
      before ++ { rule with keywords := [keyword] } :: rule :: after := by
    rw [addRule, hsplit, ← hlength]
    exact List.modifyTailIdx_add (List.cons _) 0 before (rule :: after)
  have hany := matchesAny_insertIdx (words label) (hrule ▸ hj) keyword
  rw [hrule]
  simp only [classify, addKeyword, hmodify, hadd, List.find?_append]
  cases before.find? fun rule => matchesAny (words label) rule.keywords with
  | some earlier => rfl
  | none =>
    have hone : matchesAny (words label) [keyword] = matchesKeyword (words label) keyword :=
      Bool.or_false _
    simp only [List.find?_cons, hany, hone]
    cases matchesKeyword (words label) keyword with
    | true => rfl
    | false =>
      rw [Bool.false_or]
      cases matchesAny (words label) rule.keywords <;> rfl

end

end RuleSet

/-! ## The graph of a draft -/

section
variable {rules : RuleSet} {n : Draft.Node}

theorem Node.ofDraft_of_task (rules : RuleSet) (h : n.kind = .task) :
    Node.ofDraft rules n =
      { id := n.id
        kind := (rules.classify n.label).1
        label := n.label
        lane := some (rules.classify n.label).2 } := by
  unfold Node.ofDraft
  rw [h]

theorem Node.ofDraft_of_ne (rules : RuleSet) (h : n.kind ≠ .task) :
    Node.ofDraft rules n = { id := n.id, kind := n.kind.nodeKind, label := n.label } := by
  unfold Node.ofDraft
  split
  · rename_i htask
    exact absurd htask h
  · rfl

end

/-- Two graphs of a draft that differ in its tasks with affected labels only, which in
    the second one are of a given kind and in a given lane. -/
structure Retypes (affected : String → Prop) (kind : NodeKind) (lane : Lane) (d : Draft)
    (old new : Graph) : Prop where
  name_eq : new.name = old.name
  flows_eq : new.flows = old.flows
  ids_eq : new.nodeIds = old.nodeIds
  labels_eq : new.nodes.map Node.label = old.nodes.map Node.label
  /-- An affected task gets the kind and the lane, and stays the same apart from that. -/
  retyped : ∀ (k : ℕ) (n : Draft.Node), d.nodes[k]? = some n → n.kind = .task →
    affected n.label → ∃ m, old.nodes[k]? = some m ∧
      new.nodes[k]? = some { m with kind := kind, lane := some lane }
  /-- The other nodes stay the same. -/
  kept : ∀ (k : ℕ) (n : Draft.Node), d.nodes[k]? = some n →
    ¬ (n.kind = .task ∧ affected n.label) → new.nodes[k]? = old.nodes[k]?
  /-- What is no task keeps the kind that it was drafted with, and has no lane. -/
  control : ∀ (k : ℕ) (n : Draft.Node), d.nodes[k]? = some n → n.kind ≠ .task →
    ∃ m, new.nodes[k]? = some m ∧ m.kind = n.kind.nodeKind ∧ m.lane = none

/-- **Rules that differ for some labels** give graphs that differ for these. -/
theorem retypes_ofDraft {old new : RuleSet} {affected : String → Prop} {kind : NodeKind}
    {lane : Lane} (hgain : ∀ label, affected label → new.classify label = (kind, lane))
    (hkeep : ∀ label, ¬ affected label → new.classify label = old.classify label) (d : Draft) :
    Retypes affected kind lane d (Graph.ofDraft old d) (Graph.ofDraft new d) := by
  have hnodes : ∀ (rules : RuleSet) {k : ℕ} {n : Draft.Node}, d.nodes[k]? = some n →
      (Graph.ofDraft rules d).nodes[k]? = some (Node.ofDraft rules n) := by
    intro rules k n hn
    rw [Graph.ofDraft, List.getElem?_map, hn]
    rfl
  constructor
  case name_eq => rfl
  case flows_eq => rfl
  case ids_eq => rw [Graph.nodeIds_ofDraft, Graph.nodeIds_ofDraft]
  case labels_eq => simp [Graph.ofDraft, Function.comp_def]
  case retyped =>
    intro k n hn htask haffected
    refine ⟨_, hnodes old hn, ?_⟩
    rw [hnodes new hn, Node.ofDraft_of_task new htask, Node.ofDraft_of_task old htask,
      hgain n.label haffected]
  case kept =>
    intro k n hn hother
    rw [hnodes new hn, hnodes old hn]
    by_cases htask : n.kind = .task
    · rw [Node.ofDraft_of_task new htask, Node.ofDraft_of_task old htask,
        hkeep n.label fun haffected => hother ⟨htask, haffected⟩]
    · rw [Node.ofDraft_of_ne new htask, Node.ofDraft_of_ne old htask]
  case control =>
    intro k n hn hcontrol
    rw [hnodes new hn, Node.ofDraft_of_ne new hcontrol]
    exact ⟨_, rfl, rfl, rfl⟩

/-! ## Rules that are added -/

namespace RuleSet

/-- The rules change for the affected labels only, and these get a given kind and
    lane. -/
structure Extends (affected : String → Prop) (kind : NodeKind) (lane : Lane)
    (old new : RuleSet) : Prop where
  gained : ∀ label, affected label → new.classify label = (kind, lane)
  kept : ∀ label, ¬ affected label → new.classify label = old.classify label
  graphs : ∀ d, Retypes affected kind lane d (Graph.ofDraft old d) (Graph.ofDraft new d)

theorem extends_addRule {rules : RuleSet} {i : ℕ} (hi : i ≤ rules.classification.length)
    (rule : Rule) : Extends (fun label => rule.Matches label ∧ rules.FreeBefore i label)
      rule.kind rule.lane rules (rules.addRule i rule) := by
  have hgain : ∀ label, rule.Matches label ∧ rules.FreeBefore i label →
      (rules.addRule i rule).classify label = (rule.kind, rule.lane) :=
    fun label h => classify_addRule_of_matches hi h.1 h.2
  have hkeep : ∀ label, ¬ (rule.Matches label ∧ rules.FreeBefore i label) →
      (rules.addRule i rule).classify label = rules.classify label :=
    fun label => classify_addRule_of_not hi
  exact ⟨hgain, hkeep, retypes_ofDraft hgain hkeep⟩

/-- **What is added to the rules is contained.**  A keyword more, at any place of any
    rule, changes the labels that match it and no keyword of an earlier rule; they get
    the kind and the lane of its rule.  A rule more, at any place, does the same to the
    labels that match it and no earlier rule.  All other labels keep what they had,
    and the graphs of drafts change in the kind and the lane of such tasks only. -/
theorem added_rules_contained (rules : RuleSet) :
    (∀ (i : Fin rules.classification.length)
        (j : Fin (rules.classification[i].keywords.length + 1)) (keyword : String),
      Extends (fun label => matchesKeyword (words label) keyword = true ∧ rules.FreeBefore i label)
        rules.classification[i].kind rules.classification[i].lane rules
        (rules.addKeyword i j keyword)) ∧
    ∀ (i : Fin (rules.classification.length + 1)) (rule : Rule),
      Extends (fun label => rule.Matches label ∧ rules.FreeBefore i label)
        rule.kind rule.lane rules (rules.addRule i rule) := by
  refine ⟨fun i j keyword => ?_, fun i rule => extends_addRule (Nat.le_of_lt_succ i.isLt) rule⟩
  have hrule := extends_addRule i.isLt.le { rules.classification[i] with keywords := [keyword] }
  have hmatches : ∀ label, ({ rules.classification[i] with keywords := [keyword] } : Rule).Matches
      label ↔ matchesKeyword (words label) keyword = true := by
    intro label
    simp [Rule.Matches]
  simp only [hmatches] at hrule
  have heq : ∀ label, (rules.addKeyword i j keyword).classify label = (rules.addRule i
      { rules.classification[i] with keywords := [keyword] }).classify label :=
    fun label => classify_addKeyword i.isLt (Nat.le_of_lt_succ j.isLt)
  have hgain := fun label haffected => (heq label).trans (hrule.gained label haffected)
  have hkeep := fun label hother => (heq label).trans (hrule.kept label hother)
  exact ⟨hgain, hkeep, retypes_ofDraft hgain hkeep⟩

/-- A keyword of the last rule does not count for a label that an earlier rule matches. -/
example :
    let rules := ({} : RuleSet).addKeyword 3 0 "mercadoria"
    rules.classify "Separar mercadoria" = (.userTask, .management) ∧
      rules.classify "Sistema separa mercadoria" = (.serviceTask, .automation) := by
  decide +kernel

end RuleSet

end Swimlane
