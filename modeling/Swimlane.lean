import Swimlane.Text.Blank
import Swimlane.Text.Fence
import Swimlane.Text.Letter
import Swimlane.Decimal.Binary
import Swimlane.Decimal.Shortest
import Swimlane.Decimal.Fixed
import Swimlane.Json.Number
import Swimlane.Json.Basic
import Swimlane.Json.Printer
import Swimlane.Json.Reader
import Swimlane.Json.Record
import Swimlane.Identifier
import Swimlane.Lane
import Swimlane.Process
import Swimlane.Draft.Basic
import Swimlane.Draft.Limits
import Swimlane.Draft.Violation
import Swimlane.Draft.Validate
import Swimlane.Vocabulary
import Swimlane.RuleSet
import Swimlane.Classification
import Swimlane.Cycle.Detect
import Swimlane.Cycle.Fold
import Swimlane.Layout.Scalar
import Swimlane.Layout.Box
import Swimlane.Layout.Route
import Swimlane.Layout.Keyed
import Swimlane.Layout.Basic
import Swimlane.Layout.Traversal
import Swimlane.Layout.LaneFill
import Swimlane.Layout.Serpentine
import Swimlane.Xml.Escape
import Swimlane.Xml.Element
import Swimlane.Theme
import Swimlane.Outline
import Swimlane.Document.Coordinate
import Swimlane.Document.Defect
import Swimlane.Document.Stray
import Swimlane.Document.Semantics
import Swimlane.Document.Diagram
import Swimlane.Document.Basic
import Swimlane.Fault
import Swimlane.Candidate
import Swimlane.Config
import Swimlane.Compile
import Swimlane.Browser
import Swimlane.CommandLine.Options
import Swimlane.CommandLine.Session
import Swimlane.CommandLine.Message
import Swimlane.Main
import Swimlane.Proofs.Text.Plain
import Swimlane.Proofs.Stages
import Swimlane.Proofs.Identifier
import Swimlane.Proofs.Draft.Reading
import Swimlane.Proofs.Draft.Demands
import Swimlane.Proofs.Draft.WellFormed
import Swimlane.Proofs.Draft.Reference
import Swimlane.Proofs.Graph
import Swimlane.Proofs.Cycle.Detect
import Swimlane.Proofs.Cycle.Members
import Swimlane.Proofs.Cycle.Contents
import Swimlane.Proofs.Cycle.Flows
import Swimlane.Proofs.Cycle.Fold
import Swimlane.Proofs.Cycle.Sound
import Swimlane.Proofs.Cycle.Reach
import Swimlane.Proofs.Process
import Swimlane.Proofs.Layout.Coverage
import Swimlane.Proofs.Layout.Fit
import Swimlane.Proofs.Layout.Order
import Swimlane.Proofs.Layout.Blank
import Swimlane.Proofs.Xml.Grammar
import Swimlane.Proofs.Xml.Unambiguous
import Swimlane.Proofs.Xml.Written
import Swimlane.Proofs.Xml.Escape
import Swimlane.Proofs.Xml.View
import Swimlane.Proofs.Xml.Legible
import Swimlane.Proofs.Document.Drawing
import Swimlane.Proofs.Layout.Naming
import Swimlane.Proofs.Layout.Lanes
import Swimlane.Proofs.Layout.Reordering
import Swimlane.Proofs.Layout.DepthFirst
import Swimlane.Proofs.Layout.Levels
import Swimlane.Proofs.Layout.Winding
import Swimlane.Proofs.Layout.Exact
import Swimlane.Proofs.Decimal.Whole
import Swimlane.Proofs.Layout.Single
import Swimlane.Proofs.Layout.Routes
import Swimlane.Proofs.Layout.Spacing
import Swimlane.Proofs.Document.Vocabulary
import Swimlane.Proofs.Document.Rendering
import Swimlane.Proofs.Document.Texts
import Swimlane.Proofs.Document.Identity
import Swimlane.Proofs.Document.Identifiers
import Swimlane.Proofs.Document.References
import Swimlane.Proofs.Document.Scopes
import Swimlane.Proofs.Document.Legible
import Swimlane.Proofs.Compile
import Swimlane.Proofs.Draft.Resubmission
import Swimlane.Proofs.Legible
import Swimlane.Proofs.CommandLine.Run
import Swimlane.Proofs.CommandLine.Agreement
import Swimlane.Proofs.Layout.Outline
import Swimlane.Proofs.Document.Picture
import Swimlane.Proofs.Identifier.Search
import Swimlane.Proofs.Identifier.Slug
import Swimlane.Proofs.Cycle.Exhaustion
import Swimlane.Proofs.Draft.Naming
import Swimlane.Proofs.Layout.Borrowing
import Swimlane.Proofs.Vocabulary
import Swimlane.Proofs.Classification
import Swimlane.Proofs.Text.Fence
import Swimlane.Proofs.Json.Ends
import Swimlane.Proofs.Candidate
import Swimlane.Proofs.CommandLine.Destination
import Swimlane.Proofs.CommandLine.Settings
