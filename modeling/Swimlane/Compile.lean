/-
  Swimlane — from a candidate to a document.

  `compileText` and `compileValue` run all stages: settings, reading, draft,
  classification, cycles, layout, document.  The first stage that fails gives
  the fault.

  `Compiled.envelope` is the answer to whoever asked for the draft, as JSON.
-/
import Swimlane.Candidate
import Swimlane.Classification
import Swimlane.Config
import Swimlane.Cycle.Fold
import Swimlane.Document.Basic
import Swimlane.Draft.Validate
import Swimlane.Layout.Serpentine

namespace Swimlane

/-- What the stages of a compilation produced. -/
structure Compiled where
  draft : Draft
  graph : Graph
  layout : GraphLayout Float32
  /-- The text of the document. -/
  xml : String

/-- The process graph of a draft, with its cycle folded. -/
def Draft.toGraph (rules : RuleSet) (d : Draft) : Graph := (Graph.ofDraft rules d).foldCycle rules

def Draft.compile (config : Config) (d : Draft) : Except Fault Compiled :=
  let graph := d.toGraph config.rules
  let layout := graph.layout config.grid
  match Document.render config.theme {} graph layout with
  | .ok xml => .ok { draft := d, graph, layout, xml }
  | .error defect => .error (.defect defect)

/-- Checks and compiles a candidate, the settings having been checked. -/
def compileChecked (config : Config) (v : Json) : Except Fault Compiled :=
  match Draft.validate config.limits v with
  | .ok d => d.compile config
  | .error violation => .error (.schema violation)

def compileValue (config : Config) (v : Json) : Except Fault Compiled := do
  config.check
  compileChecked config v

def compileText (config : Config) (raw : String) : Except Fault Compiled := do
  config.check
  let v ← readCandidate config.limits raw
  compileChecked config v

/-- The answer to whoever asked for the draft.  The time is given by the caller,
    so that equal inputs give equal answers. -/
def Compiled.envelope (c : Compiled) (config : Config) (createdAt : Option String) : Json :=
  .obj (Json.optionalField "createdAt" (createdAt.map .str) ++
    [("policyVersion", .str config.policyVersion), ("provider", .str config.provider),
     ("model", .str config.model), ("draft", c.draft.toJson), ("bpmnXml", .str c.xml),
     ("nodeCount", .ofNat c.draft.nodes.length), ("flowCount", .ofNat c.draft.flows.length),
     ("bpmnXmlBytes", .ofNat c.xml.utf8ByteSize)])

end Swimlane
