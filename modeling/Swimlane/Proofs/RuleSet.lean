/-
  Swimlane — the rules that a value gives.

  Rules are read from records.  Their fields hold texts, lists of texts, and the names of
  kinds and lanes.  A rule has all its fields; what else is missing keeps its default, and
  `null` is no value.

  * `Json.IsText`, `Json.IsList`, `Json.IsName`: what a value says.
  * `Json.Holds`, `Json.HoldsOr`: what a field of a record says, or else its default.
  * `Rule.Said`, `LoopRoles.Said`, `LoopLabels.Said`, `RuleSet.Said`: what a record says,
    field by field.
  * `RuleSet.decode_eq_some_iff`: exactly this is read.
-/
import Mathlib.Data.List.Forall2
import Swimlane.Config

namespace Swimlane

namespace Json

variable {α : Type}

/-! ## Values -/

/-- The value is a text. -/
inductive IsText : Json → String → Prop
  | intro {s : String} : IsText (.str s) s

/-- The value is a list, and its items say what is in the list, one to one. -/
inductive IsList (P : Json → α → Prop) : Json → List α → Prop
  | intro {items : List Json} {as : List α} (each : List.Forall₂ P items as) :
      IsList P (.arr items) as

/-- The value is the name of something, alone or with nothing under it. -/
inductive IsName (name : α → String) : Json → α → Prop
  | text {a : α} : IsName name (.str (name a)) a
  | empty {a : α} : IsName name (.obj [(name a, .null)]) a

section
variable {v : Json} {d : Decoder α} {P : Json → α → Prop}

theorem text_eq_some_iff {s : String} : text v = some s ↔ IsText v s := by
  constructor
  · intro h
    cases v with
    | str s' =>
      cases h
      exact .intro
    | _ => cases h
  · rintro ⟨⟩
    rfl

theorem mapM_eq_some_iff (h : ∀ v a, d v = some a ↔ P v a) {items : List Json} {as : List α} :
    items.mapM d = some as ↔ List.Forall₂ P items as := by
  induction items generalizing as with
  | nil =>
    rw [List.mapM_nil, List.forall₂_nil_left_iff]
    exact Option.some_inj.trans eq_comm
  | cons v items ih =>
    simp only [List.mapM_cons, Option.bind_eq_bind, Option.bind_eq_some_iff, Option.pure_def,
      Option.some.injEq, List.forall₂_cons_left_iff, h, ih]
    constructor
    · rintro ⟨a, ha, as, has, rfl⟩
      exact ⟨a, as, ha, has, rfl⟩
    · rintro ⟨a, as, ha, has, rfl⟩
      exact ⟨a, ha, as, has, rfl⟩

theorem listOf_eq_some_iff (h : ∀ v a, d v = some a ↔ P v a) {as : List α} :
    listOf d v = some as ↔ IsList P v as := by
  constructor
  · intro hlist
    cases v with
    | arr items => exact .intro ((mapM_eq_some_iff h).1 hlist)
    | _ => cases hlist
  · rintro ⟨each⟩
    exact (mapM_eq_some_iff h).2 each

theorem named_eq_some_iff {ofName? : String → Option α} {name : α → String}
    (h : ∀ s a, ofName? s = some a ↔ name a = s) {a : α} :
    named ofName? v = some a ↔ IsName name v a := by
  constructor
  · intro hnamed
    unfold named at hnamed
    split at hnamed
    · rw [h] at hnamed
      subst hnamed
      exact .text
    · rw [h] at hnamed
      subst hnamed
      exact .empty
    · cases hnamed
  · intro hname
    cases hname with
    | text => exact (h _ a).2 rfl
    | empty => exact (h _ a).2 rfl

end

/-! ## Fields -/

/-- What a field of a record says. -/
inductive Holds (P : Json → α → Prop) (fields : List (String × Json)) (key : String) : α → Prop
  | intro {v : Json} {a : α} (present : fields.lookup key = some v) (said : P v a) :
      Holds P fields key a

/-- What a field of a record says, or else the default. -/
inductive HoldsOr (P : Json → α → Prop) (default : α) (fields : List (String × Json))
    (key : String) : α → Prop
  | missing (absent : fields.lookup key = none) : HoldsOr P default fields key default
  | said {v : Json} {a : α} (present : fields.lookup key = some v) (said : P v a) :
      HoldsOr P default fields key a

section
variable {d : Decoder α} {P : Json → α → Prop} {fields : List (String × Json)} {key : String}
  {a : α}

theorem required_eq_some_iff (h : ∀ v a, d v = some a ↔ P v a) :
    required d fields key = some a ↔ Holds P fields key a := by
  rw [required, Option.bind_eq_some_iff]
  constructor
  · rintro ⟨v, hv, ha⟩
    exact .intro hv ((h v a).1 ha)
  · rintro ⟨hv, ha⟩
    exact ⟨_, hv, (h _ a).2 ha⟩

theorem defaulted_eq_some_iff {default : α} (h : ∀ v a, d v = some a ↔ P v a) :
    defaulted d default fields key = some a ↔ HoldsOr P default fields key a := by
  unfold defaulted
  constructor
  · intro hread
    split at hread
    · rename_i habsent
      cases hread
      exact .missing habsent
    · rename_i v hv
      exact .said hv ((h v a).1 hread)
  · intro hsaid
    cases hsaid with
    | missing habsent => rw [habsent]
    | said hv ha =>
      rw [hv]
      exact (h _ a).2 ha

end

end Json

open Json (IsText IsList IsName Holds HoldsOr record? text listOf named)

/-! ## Rules -/

/-- A record says a rule. -/
inductive Rule.Said : Json → Rule → Prop
  | intro {v : Json} {r : Rule} {fields : List (String × Json)}
      (record : record? ["name", "keywords", "kind", "lane"] true v = some fields)
      (name : Holds IsText fields "name" r.name)
      (keywords : Holds (IsList IsText) fields "keywords" r.keywords)
      (kind : Holds (IsName NodeKind.key) fields "kind" r.kind)
      (lane : Holds (IsName Lane.key) fields "lane" r.lane) : Rule.Said v r

/-- A record says the keywords of the roles of a cycle. -/
inductive LoopRoles.Said : Json → LoopRoles → Prop
  | intro {v : Json} {r : LoopRoles} {fields : List (String × Json)}
      (record : record? ["plan", "execute", "check", "act"] false v = some fields)
      (plan : HoldsOr (IsList IsText) ({} : LoopRoles).plan fields "plan" r.plan)
      (execute : HoldsOr (IsList IsText) ({} : LoopRoles).execute fields "execute" r.execute)
      (check : HoldsOr (IsList IsText) ({} : LoopRoles).check fields "check" r.check)
      (act : HoldsOr (IsList IsText) ({} : LoopRoles).act fields "act" r.act) : LoopRoles.Said v r

/-- A record says the names of the elements that a folded cycle adds. -/
inductive LoopLabels.Said : Json → LoopLabels → Prop
  | intro {v : Json} {l : LoopLabels} {fields : List (String × Json)}
      (record : record? ["subprocess", "start", "end", "gateway", "goalMet", "goalNotMet", "exit"]
        false v = some fields)
      (subprocess : HoldsOr IsText ({} : LoopLabels).subprocess fields "subprocess" l.subprocess)
      (start : HoldsOr IsText ({} : LoopLabels).start fields "start" l.start)
      (finish : HoldsOr IsText ({} : LoopLabels).finish fields "end" l.finish)
      (gateway : HoldsOr IsText ({} : LoopLabels).gateway fields "gateway" l.gateway)
      (goalMet : HoldsOr IsText ({} : LoopLabels).goalMet fields "goalMet" l.goalMet)
      (goalNotMet : HoldsOr IsText ({} : LoopLabels).goalNotMet fields "goalNotMet" l.goalNotMet)
      (exit : HoldsOr IsText ({} : LoopLabels).exit fields "exit" l.exit) : LoopLabels.Said v l

/-- A record says a set of rules. -/
inductive RuleSet.Said : Json → RuleSet → Prop
  | intro {v : Json} {s : RuleSet} {fields : List (String × Json)}
      (record : record? ["classification", "defaultKind", "defaultLane", "loopRoles",
        "standardizeKeywords", "loopLabels"] false v = some fields)
      (classification : HoldsOr (IsList Rule.Said) ({} : RuleSet).classification fields
        "classification" s.classification)
      (defaultKind : HoldsOr (IsName NodeKind.key) ({} : RuleSet).defaultKind fields "defaultKind"
        s.defaultKind)
      (defaultLane : HoldsOr (IsName Lane.key) ({} : RuleSet).defaultLane fields "defaultLane"
        s.defaultLane)
      (loopRoles : HoldsOr LoopRoles.Said ({} : RuleSet).loopRoles fields "loopRoles" s.loopRoles)
      (standardizeKeywords : HoldsOr (IsList IsText) ({} : RuleSet).standardizeKeywords fields
        "standardizeKeywords" s.standardizeKeywords)
      (loopLabels : HoldsOr LoopLabels.Said ({} : RuleSet).loopLabels fields "loopLabels"
        s.loopLabels) : RuleSet.Said v s

/-! ## Reading -/

theorem NodeKind.ofKey?_eq_some_iff (key : String) (kind : NodeKind) :
    NodeKind.ofKey? key = some kind ↔ kind.key = key := by
  constructor
  · intro h
    simpa using List.find?_some h
  · rintro rfl
    exact NodeKind.ofKey?_key kind

theorem Lane.ofKey?_eq_some_iff (key : String) (lane : Lane) :
    Lane.ofKey? key = some lane ↔ lane.key = key := by
  constructor
  · intro h
    simpa using List.find?_some h
  · rintro rfl
    exact Lane.ofKey?_key lane

section
variable {v : Json}

theorem Json.texts_eq_some_iff (v : Json) (ss : List String) :
    listOf text v = some ss ↔ IsList IsText v ss :=
  Json.listOf_eq_some_iff fun _ _ => Json.text_eq_some_iff

theorem Json.kind_eq_some_iff (v : Json) (kind : NodeKind) :
    named NodeKind.ofKey? v = some kind ↔ IsName NodeKind.key v kind :=
  Json.named_eq_some_iff NodeKind.ofKey?_eq_some_iff

theorem Json.lane_eq_some_iff (v : Json) (lane : Lane) :
    named Lane.ofKey? v = some lane ↔ IsName Lane.key v lane :=
  Json.named_eq_some_iff Lane.ofKey?_eq_some_iff

theorem Rule.decode_eq_some_iff (v : Json) (r : Rule) : Rule.decode v = some r ↔ Rule.Said v r := by
  simp only [Rule.decode, Option.bind_eq_bind, Option.bind_eq_some_iff, Option.pure_def,
    Option.some.injEq, Json.required_eq_some_iff fun _ _ => Json.text_eq_some_iff,
    Json.required_eq_some_iff Json.texts_eq_some_iff,
    Json.required_eq_some_iff Json.kind_eq_some_iff, Json.required_eq_some_iff Json.lane_eq_some_iff]
  constructor
  · rintro ⟨fields, hfields, _, hname, _, hkeywords, _, hkind, _, hlane, rfl⟩
    exact .intro hfields hname hkeywords hkind hlane
  · rintro ⟨hfields, hname, hkeywords, hkind, hlane⟩
    exact ⟨_, hfields, _, hname, _, hkeywords, _, hkind, _, hlane, rfl⟩

theorem LoopRoles.decode_eq_some_iff (v : Json) (r : LoopRoles) :
    LoopRoles.decode v = some r ↔ LoopRoles.Said v r := by
  simp only [LoopRoles.decode, Option.bind_eq_bind, Option.bind_eq_some_iff, Option.pure_def,
    Option.some.injEq, Json.defaulted_eq_some_iff Json.texts_eq_some_iff]
  constructor
  · rintro ⟨fields, hfields, _, hplan, _, hexecute, _, hcheck, _, hact, rfl⟩
    exact .intro hfields hplan hexecute hcheck hact
  · rintro ⟨hfields, hplan, hexecute, hcheck, hact⟩
    exact ⟨_, hfields, _, hplan, _, hexecute, _, hcheck, _, hact, rfl⟩

theorem LoopLabels.decode_eq_some_iff (v : Json) (l : LoopLabels) :
    LoopLabels.decode v = some l ↔ LoopLabels.Said v l := by
  simp only [LoopLabels.decode, Option.bind_eq_bind, Option.bind_eq_some_iff, Option.pure_def,
    Option.some.injEq, Json.defaulted_eq_some_iff fun _ _ => Json.text_eq_some_iff]
  constructor
  · rintro ⟨fields, hfields, _, hsubprocess, _, hstart, _, hfinish, _, hgateway, _, hgoalMet, _,
      hgoalNotMet, _, hexit, rfl⟩
    exact .intro hfields hsubprocess hstart hfinish hgateway hgoalMet hgoalNotMet hexit
  · rintro ⟨hfields, hsubprocess, hstart, hfinish, hgateway, hgoalMet, hgoalNotMet, hexit⟩
    exact ⟨_, hfields, _, hsubprocess, _, hstart, _, hfinish, _, hgateway, _, hgoalMet, _,
      hgoalNotMet, _, hexit, rfl⟩

/-- **A set of rules is read** exactly from a record that says it. -/
theorem RuleSet.decode_eq_some_iff (v : Json) (s : RuleSet) :
    RuleSet.decode v = some s ↔ RuleSet.Said v s := by
  simp only [RuleSet.decode, Option.bind_eq_bind, Option.bind_eq_some_iff, Option.pure_def,
    Option.some.injEq, Json.defaulted_eq_some_iff Json.texts_eq_some_iff,
    Json.defaulted_eq_some_iff Json.kind_eq_some_iff,
    Json.defaulted_eq_some_iff Json.lane_eq_some_iff,
    Json.defaulted_eq_some_iff LoopRoles.decode_eq_some_iff,
    Json.defaulted_eq_some_iff LoopLabels.decode_eq_some_iff,
    Json.defaulted_eq_some_iff fun _ _ => Json.listOf_eq_some_iff Rule.decode_eq_some_iff]
  constructor
  · rintro ⟨fields, hfields, _, hrules, _, hkind, _, hlane, _, hroles, _, hkeywords, _, hlabels,
      rfl⟩
    exact .intro hfields hrules hkind hlane hroles hkeywords hlabels
  · rintro ⟨hfields, hrules, hkind, hlane, hroles, hkeywords, hlabels⟩
    exact ⟨_, hfields, _, hrules, _, hkind, _, hlane, _, hroles, _, hkeywords, _, hlabels, rfl⟩

end

end Swimlane
