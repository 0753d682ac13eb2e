import Bindery.Main
import Bindery.Storage.Shelf
import Bindery.Proofs.Displacement.Block
import Bindery.Proofs.Displacement.Part
import Bindery.Proofs.Displacement.Token
import Bindery.Proofs.Displacement.Form
import Bindery.Proofs.Page.Notes
import Bindery.Proofs.Section.Unfolding
import Bindery.Proofs.Displacement.Page
import Bindery.Proofs.Page.Entering
import Bindery.Proofs.Section.IncludeGraph
import Bindery.Proofs.Section.Parts
import Bindery.Proofs.Compile.Parsing
import Bindery.Proofs.Compile.Writing
import Bindery.Proofs.Path.Canonical
import Bindery.Proofs.Project.Descriptor
import Bindery.Proofs.Compile.Stages
import Bindery.Proofs.Compile.Order
import Bindery.Proofs.Storage.Events
import Bindery.Proofs.Section.Evolution
import Bindery.Proofs.Section.Frame
import Bindery.Proofs.Compile.Growth
import Bindery.Proofs.Compile.Isolation
import Bindery.Proofs.Compile.Delivery
import Bindery.Proofs.Compile.Accounting
import Bindery.Proofs.Compile.Validation
import Bindery.Proofs.Compile.Outputs
import Bindery.Proofs.Form.Spelling
import Bindery.Proofs.Form.Written
import Bindery.Proofs.Form.Printing
import Bindery.Proofs.Form.Flattening
import Bindery.Proofs.Source.Blocks
import Bindery.Proofs.Source.Directives
import Bindery.Proofs.Source.Segments
import Bindery.Proofs.Source.Runs
import Bindery.Proofs.Source.Lexing
import Bindery.Proofs.Source.Positions
import Bindery.Proofs.Source.Agreement
import Bindery.Proofs.Source.Wrapping
import Bindery.Proofs.Page.Wrapping
import Bindery.Proofs.Table.History
import Bindery.Proofs.Section.Limits
import Bindery.Proofs.Source.Faults
import Bindery.Proofs.Project.Faults
import Bindery.Proofs.Page.Declarations
import Bindery.Proofs.Compile.Metadata
import Bindery.Proofs.Compile.Rerun
import Bindery.Proofs.Command.Reporting
import Bindery.Proofs.Grammar.Acceptance
import Bindery.Proofs.Grammar.Conformance
import Bindery.Proofs.Project.Listing
import Bindery.Proofs.Source.Prose
import Bindery.Proofs.Section.Reprinting
import Bindery.Proofs.Section.Paragraphs
import Bindery.Proofs.Page.Shape
import Bindery.Proofs.Source.Origins
import Bindery.Proofs.Section.SourceLines
import Bindery.Proofs.Section.Boundaries
import Bindery.Proofs.Path.Walk
import Bindery.Proofs.Path.Simplified
import Bindery.Proofs.Path.Links
import Bindery.Proofs.Section.Contents
import Bindery.Proofs.Table.Lifetimes
import Bindery.Proofs.Page.Trimming
import Bindery.Proofs.Text.Anchors
import Bindery.Proofs.Json.Reading
import Bindery.Proofs.Failure.Reports
import Bindery.Proofs.Location.Order
