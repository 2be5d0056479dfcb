/-
  Swimlane — the rules by which tasks are told apart.

  A `RuleSet` holds the classification rules, the keywords by which a
  plan–do–check–act cycle is recognised, and the names that a folded cycle
  gets.  The default rules know the words of Portuguese business processes.
-/
import Swimlane.Process
import Swimlane.Vocabulary

namespace Swimlane

/-- A rule: tasks with one of the keywords are of this kind and belong to this
    lane. -/
structure Rule where
  name : String
  keywords : List String
  kind : NodeKind
  lane : Lane
  deriving DecidableEq, Repr

/-- The keywords of the four roles of a cycle. -/
structure LoopRoles where
  plan : List String := ["planej", "plano", "plan"]
  execute : List String := ["execut", "fazer", "realiz", "implement", "implant"]
  check : List String := ["verific", "checar", "check", "avalia", "medir", "monitor", "confer"]
  act : List String := ["agir", "act", "corrig", "correc", "corret", "ajust", "adjust", "atuar"]
  deriving DecidableEq, Repr

/-- The names of the elements that a folded cycle adds. -/
structure LoopLabels where
  subprocess : String := "Ciclo PDCA"
  start : String := "Início do ciclo"
  finish : String := "Ciclo concluído"
  gateway : String := "Meta atingida?"
  goalMet : String := "Sim"
  goalNotMet : String := "Não"
  exit : String := "Sim"
  deriving DecidableEq, Repr

/-- The default rules, from the top of the organisation down. -/
def Rule.defaults : List Rule :=
  [{ name := "executive-escalation"
     keywords := ["diretor", "president", "ceo", "conselho", "executiv", "escalon", "escalar",
       "board"]
     kind := .userTask
     lane := .executive },
   { name := "business-rule"
     keywords := ["regra", "politica", "compliance", "conformidade", "norma", "regulament",
       "regulat", "elegibil", "lgpd"]
     kind := .businessRuleTask
     lane := .automation },
   { name := "automation"
     keywords := ["sistema", "automa", "integra", "api", "ia", "ai", "robo", "bot", "rpa",
       "notifica", "email", "sincroniz", "erp", "crm", "webhook"]
     kind := .serviceTask
     lane := .automation },
   { name := "management"
     keywords := ["aprova", "gerente", "gestor", "gestao", "supervis", "coorden", "autoriz",
       "homolog", "revis", "valida"]
     kind := .userTask
     lane := .management }]

structure RuleSet where
  /-- The first rule with a matching keyword wins. -/
  classification : List Rule := Rule.defaults
  defaultKind : NodeKind := .userTask
  defaultLane : Lane := .operational
  loopRoles : LoopRoles := {}
  /-- Keywords of the step that makes the result of a cycle the standard. -/
  standardizeKeywords : List String := ["padroniz", "padrao", "comunic", "divulg", "standard"]
  loopLabels : LoopLabels := {}
  deriving DecidableEq, Repr

/-- The kind and lane of a task by its label. -/
def RuleSet.classify (rules : RuleSet) (label : String) : NodeKind × Lane :=
  let ws := Vocabulary.words label
  match rules.classification.find? fun rule => Vocabulary.matchesAny ws rule.keywords with
  | some rule => (rule.kind, rule.lane)
  | none => (rules.defaultKind, rules.defaultLane)

end Swimlane
