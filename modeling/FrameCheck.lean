import FrameCheck.Binding
import FrameCheck.Checker.Basic
import FrameCheck.Checker.Visit
import FrameCheck.CommandLine.Arguments
import FrameCheck.CommandLine.Json
import FrameCheck.CommandLine.Run
import FrameCheck.Diagnostic
import FrameCheck.Files.Basic
import FrameCheck.Files.Path
import FrameCheck.Files.Tree
import FrameCheck.Fixture.Discovery
import FrameCheck.Fixture.Expectation
import FrameCheck.Fixture.Report
import FrameCheck.Inference.Basic
import FrameCheck.Inference.Marker
import FrameCheck.Inference.Memo
import FrameCheck.Main
import FrameCheck.Operation.Apply
import FrameCheck.Operation.Basic
import FrameCheck.Operation.Catalog
import FrameCheck.Parse.Decl
import FrameCheck.Parse.Expr
import FrameCheck.Parse.State
import FrameCheck.Parse.Type
import FrameCheck.Parse.Unit
import FrameCheck.Project.Basic
import FrameCheck.Project.Settings
import FrameCheck.Proofs.Checker.Coverage
import FrameCheck.Proofs.Checker.Errors
import FrameCheck.Proofs.Checker.Filtering
import FrameCheck.Proofs.Checker.OwnTypes
import FrameCheck.Proofs.Checker.Places
import FrameCheck.Proofs.Checker.Relabel
import FrameCheck.Proofs.Checker.Renaming
import FrameCheck.Proofs.Checker.Reports
import FrameCheck.Proofs.Checker.Suppression
import FrameCheck.Proofs.Checker.Trivia
import FrameCheck.Proofs.Fixture.Markers
import FrameCheck.Proofs.Fixture.Pairing
import FrameCheck.Proofs.Fixture.Pieces
import FrameCheck.Proofs.Fixture.Rewriting
import FrameCheck.Proofs.Fixture.TestNames
import FrameCheck.Proofs.Inference.Acyclic
import FrameCheck.Proofs.Inference.Alternatives
import FrameCheck.Proofs.Inference.Bookkeeping
import FrameCheck.Proofs.Inference.Dependence
import FrameCheck.Proofs.Inference.Elements
import FrameCheck.Proofs.Inference.Ending
import FrameCheck.Proofs.Inference.Failing
import FrameCheck.Proofs.Inference.Followed
import FrameCheck.Proofs.Inference.Growth
import FrameCheck.Proofs.Inference.Relabel
import FrameCheck.Proofs.Inference.Remembered
import FrameCheck.Proofs.Inference.Rules
import FrameCheck.Proofs.Inference.Settled
import FrameCheck.Proofs.Inference.Typed
import FrameCheck.Proofs.Marker.Columns
import FrameCheck.Proofs.Marker.Construction
import FrameCheck.Proofs.Marker.Histories
import FrameCheck.Proofs.Marker.Inheritance
import FrameCheck.Proofs.Marker.Overriding
import FrameCheck.Proofs.Marker.Redeclared
import FrameCheck.Proofs.Operation.Adding
import FrameCheck.Proofs.Operation.Indexed
import FrameCheck.Proofs.Operation.Joining
import FrameCheck.Proofs.Operation.Naming
import FrameCheck.Proofs.Operation.Recognized
import FrameCheck.Proofs.Operation.Requalified
import FrameCheck.Proofs.Operation.Stacking
import FrameCheck.Proofs.Parse.Blocks
import FrameCheck.Proofs.Parse.Chains
import FrameCheck.Proofs.Parse.Closed
import FrameCheck.Proofs.Parse.Concurring
import FrameCheck.Proofs.Parse.ConcurringExpressions
import FrameCheck.Proofs.Parse.ConcurringStatements
import FrameCheck.Proofs.Parse.ConcurringTypes
import FrameCheck.Proofs.Parse.Cursors
import FrameCheck.Proofs.Parse.Declared
import FrameCheck.Proofs.Parse.Declaring
import FrameCheck.Proofs.Parse.Displayed
import FrameCheck.Proofs.Parse.Erasure
import FrameCheck.Proofs.Parse.Frontier
import FrameCheck.Proofs.Parse.Identities
import FrameCheck.Proofs.Parse.Laying
import FrameCheck.Proofs.Parse.Nesting
import FrameCheck.Proofs.Parse.Numbering
import FrameCheck.Proofs.Parse.Operands
import FrameCheck.Proofs.Parse.Outcomes
import FrameCheck.Proofs.Parse.Printed
import FrameCheck.Proofs.Parse.PrintedParts
import FrameCheck.Proofs.Parse.Printing
import FrameCheck.Proofs.Parse.Reading
import FrameCheck.Proofs.Parse.Recovery
import FrameCheck.Proofs.Parse.RelocatedUnits
import FrameCheck.Proofs.Parse.Relocation
import FrameCheck.Proofs.Parse.Rounds
import FrameCheck.Proofs.Parse.SoftenedExpressions
import FrameCheck.Proofs.Parse.SoftenedStatements
import FrameCheck.Proofs.Parse.SoftenedTypes
import FrameCheck.Proofs.Parse.Softening
import FrameCheck.Proofs.Parse.Spans
import FrameCheck.Proofs.Parse.Termination
import FrameCheck.Proofs.Parse.Totality
import FrameCheck.Proofs.Parse.TrackedUnits
import FrameCheck.Proofs.Parse.Tracking
import FrameCheck.Proofs.Parse.Units
import FrameCheck.Proofs.Resolution.Assigned
import FrameCheck.Proofs.Resolution.Found
import FrameCheck.Proofs.Resolution.Functions
import FrameCheck.Proofs.Resolution.Known
import FrameCheck.Proofs.Resolution.Origins
import FrameCheck.Proofs.Resolution.PlainParams
import FrameCheck.Proofs.Resolution.Relabel
import FrameCheck.Proofs.Resolution.RelabelledFacts
import FrameCheck.Proofs.Resolution.Shadowing
import FrameCheck.Proofs.Resolution.Walked
import FrameCheck.Proofs.Rising
import FrameCheck.Proofs.Schema.Inferred
import FrameCheck.Proofs.Schema.Merging
import FrameCheck.Proofs.Schema.Union
import FrameCheck.Proofs.Schema.WellNamed
import FrameCheck.Proofs.Text.EditDistance
import FrameCheck.Proofs.Text.Lines
import FrameCheck.Proofs.Text.Positions
import FrameCheck.Proofs.Token.Canonical
import FrameCheck.Proofs.Token.Code
import FrameCheck.Proofs.Token.Commented
import FrameCheck.Proofs.Token.Insertion
import FrameCheck.Proofs.Token.Lexemes
import FrameCheck.Proofs.Token.Literals
import FrameCheck.Proofs.Token.Numbers
import FrameCheck.Proofs.Token.Places
import FrameCheck.Proofs.Token.Relocation
import FrameCheck.Proofs.Token.Softening
import FrameCheck.Proofs.Token.Spacing
import FrameCheck.Proofs.Token.Tiling
import FrameCheck.Proofs.Tree.Declarers
import FrameCheck.Proofs.Tree.Nodes
import FrameCheck.Proofs.Tree.Relabel
import FrameCheck.Proofs.Tree.Respan
import FrameCheck.Proofs.Tree.Softening
import FrameCheck.Proofs.Tree.Unnumbered
import FrameCheck.Proofs.TypeRef.Assignable
import FrameCheck.Proofs.TypeRef.Qualified
import FrameCheck.Proofs.TypeRef.Widening
import FrameCheck.Resolution.Basic
import FrameCheck.Resolution.Facts
import FrameCheck.Schema.Basic
import FrameCheck.Schema.Column
import FrameCheck.Text.Alphabetic
import FrameCheck.Text.Blank
import FrameCheck.Text.EditDistance
import FrameCheck.Text.Position
import FrameCheck.Text.Quoted
import FrameCheck.Text.Search
import FrameCheck.Text.Span
import FrameCheck.Token.Basic
import FrameCheck.Token.Scan
import FrameCheck.Toml.Document
import FrameCheck.Toml.Number
import FrameCheck.Toml.Table
import FrameCheck.Toml.Text
import FrameCheck.Tree.Basic
import FrameCheck.Tree.Children
import FrameCheck.TypeRef
