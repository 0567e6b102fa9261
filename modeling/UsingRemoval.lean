import UsingRemoval.Arguments
import UsingRemoval.Automation
import UsingRemoval.Capture
import UsingRemoval.CaptureSet
import UsingRemoval.CommandLine
import UsingRemoval.Config
import UsingRemoval.Edit
import UsingRemoval.Environment
import UsingRemoval.FileSystem
import UsingRemoval.Fixtures
import UsingRemoval.Grammar
import UsingRemoval.Listing
import UsingRemoval.Main
import UsingRemoval.NamespaceMap
import UsingRemoval.Node
import UsingRemoval.Ordered
import UsingRemoval.Path
import UsingRemoval.Pattern
import UsingRemoval.Plan
import UsingRemoval.PlanReport
import UsingRemoval.Program
import UsingRemoval.Proofs.Ancestors
import UsingRemoval.Proofs.Building
import UsingRemoval.Proofs.Candidates
import UsingRemoval.Proofs.Collecting
import UsingRemoval.Proofs.Cursor
import UsingRemoval.Proofs.Disjoint
import UsingRemoval.Proofs.Filing
import UsingRemoval.Proofs.Imports
import UsingRemoval.Proofs.Locating
import UsingRemoval.Proofs.Nesting
import UsingRemoval.Proofs.OneByOne
import UsingRemoval.Proofs.Outcome
import UsingRemoval.Proofs.Overlap
import UsingRemoval.Proofs.Places
import UsingRemoval.Proofs.PlanMeaning
import UsingRemoval.Proofs.Planning
import UsingRemoval.Proofs.Precedence
import UsingRemoval.Proofs.Provenance
import UsingRemoval.Proofs.Qualification
import UsingRemoval.Proofs.Recomputation
import UsingRemoval.Proofs.Segments
import UsingRemoval.Proofs.Shapes
import UsingRemoval.Proofs.Stages
import UsingRemoval.Proofs.Unchanged
import UsingRemoval.Proofs.WholeRun
import UsingRemoval.Resolution
import UsingRemoval.Session
import UsingRemoval.SourceFile
import UsingRemoval.Span
import UsingRemoval.Survey
import UsingRemoval.Text.Json
import UsingRemoval.Text.Quoted
import UsingRemoval.Text.Utf8
import UsingRemoval.Toml.Document
import UsingRemoval.Toml.Table
import UsingRemoval.Workspace
import UsingRemoval.Proofs.BareNames
import UsingRemoval.Proofs.Declarations
import UsingRemoval.Proofs.Lines
import UsingRemoval.Proofs.Fallback
import UsingRemoval.Proofs.LatestImport
import UsingRemoval.Proofs.Freshness
import UsingRemoval.Proofs.Characters
import UsingRemoval.Proofs.WrittenName
