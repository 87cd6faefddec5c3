import LicenseHeader.Arguments.Basic
import LicenseHeader.Arguments.Parse
import LicenseHeader.Config.Basic
import LicenseHeader.Config.Decode
import LicenseHeader.Config.Discovery
import LicenseHeader.Console.Colour
import LicenseHeader.Console.Message
import LicenseHeader.Failure
import LicenseHeader.FileTree.Access
import LicenseHeader.FileTree.Basic
import LicenseHeader.FileTree.Resolution
import LicenseHeader.Glob.Matching
import LicenseHeader.Glob.Pattern
import LicenseHeader.Header.Basic
import LicenseHeader.Header.Installation
import LicenseHeader.Ignore.Book
import LicenseHeader.Ignore.Pattern
import LicenseHeader.Ignore.Rule
import LicenseHeader.Json.Printer
import LicenseHeader.Main
import LicenseHeader.Number.Double
import LicenseHeader.Number.Shortest
import LicenseHeader.Patch.Compaction
import LicenseHeader.Patch.Edit
import LicenseHeader.Patch.Hunk
import LicenseHeader.Patch.Render
import LicenseHeader.Patch.Script
import LicenseHeader.Path.Basic
import LicenseHeader.Policy.Basic
import LicenseHeader.Processing.Schedule
import LicenseHeader.Processing.Step
import LicenseHeader.Program
import LicenseHeader.Report.Basic
import LicenseHeader.Report.Document
import LicenseHeader.Repository.Basic
import LicenseHeader.Repository.Index
import LicenseHeader.Repository.Listing
import LicenseHeader.Repository.Settings
import LicenseHeader.Run
import LicenseHeader.Text.Basic
import LicenseHeader.Toml.Basic
import LicenseHeader.Toml.Document
import LicenseHeader.Toml.Literal
import LicenseHeader.Toml.Text
import LicenseHeader.Workspace.Basic
import LicenseHeader.Workspace.Walk
import LicenseHeader.Proofs.FileTree.Content
import LicenseHeader.Proofs.FileTree.Entries
import LicenseHeader.Proofs.FileTree.Links
import LicenseHeader.Proofs.FileTree.Resolution
import LicenseHeader.Proofs.Header.Block
import LicenseHeader.Proofs.Header.Installation
import LicenseHeader.Proofs.Header.Placement
import LicenseHeader.Proofs.Header.Replacement
import LicenseHeader.Proofs.Header.Rereading
import LicenseHeader.Proofs.Header.Stability
import LicenseHeader.Proofs.Path.Order
import LicenseHeader.Proofs.Processing.Frame
import LicenseHeader.Proofs.Processing.Independence
import LicenseHeader.Proofs.Processing.Interleaving
import LicenseHeader.Proofs.Processing.Modes
import LicenseHeader.Proofs.Processing.Repetition
import LicenseHeader.Proofs.Processing.Step
import LicenseHeader.Proofs.Run.Fix
import LicenseHeader.Proofs.Run.Preparation
import LicenseHeader.Proofs.Text.Search
import LicenseHeader.Proofs.Text.Splitting
import LicenseHeader.Proofs.Text.Trimming
import LicenseHeader.Proofs.Workspace.Roots
import LicenseHeader.Proofs.Workspace.Candidates
import LicenseHeader.Proofs.Processing.Looking
import LicenseHeader.Proofs.Run.Abort
import LicenseHeader.Proofs.Path.Relative
import LicenseHeader.Proofs.Run.Check
import LicenseHeader.Proofs.FileTree.Descent
import LicenseHeader.Proofs.Workspace.Relative
import LicenseHeader.Proofs.Patch.Chain
import LicenseHeader.Proofs.Patch.Script
import LicenseHeader.Proofs.Run.Naming
import LicenseHeader.Proofs.Patch.Compaction
import LicenseHeader.Proofs.Patch.Hunk
import LicenseHeader.Proofs.Patch.Lines
import LicenseHeader.Proofs.Patch.Hunks
import LicenseHeader.Proofs.Patch.Correctness
import LicenseHeader.Proofs.Patch.Installation
import LicenseHeader.Proofs.Header.Idempotence
import LicenseHeader.Proofs.Run.Loudness
import LicenseHeader.Proofs.Run.Restriction
import LicenseHeader.Proofs.Json.Reading
import LicenseHeader.Proofs.Json.Numbers
import LicenseHeader.Proofs.Json.Roundtrip
import LicenseHeader.Proofs.Report.Seconds
import LicenseHeader.Proofs.Report.Document
import LicenseHeader.Proofs.Text.Digits
import LicenseHeader.Proofs.Header.Reformatting
import LicenseHeader.Proofs.Header.Standing
import LicenseHeader.Proofs.Processing.Approval
import LicenseHeader.Proofs.Header.Bounds
import LicenseHeader.Proofs.Patch.Returns
import LicenseHeader.Proofs.Patch.Legibility
import LicenseHeader.Proofs.Glob.Matching
import LicenseHeader.Proofs.Glob.Literal
import LicenseHeader.Proofs.Policy.Compilation
import LicenseHeader.Proofs.Policy.Builtin
import LicenseHeader.Proofs.Policy.Classification
import LicenseHeader.Proofs.Config.Validation
import LicenseHeader.Proofs.Run.Configuration
import LicenseHeader.Proofs.FileTree.Erasure
import LicenseHeader.Proofs.Repository.Ways
import LicenseHeader.Proofs.Repository.Files
import LicenseHeader.Proofs.Repository.Staging
import LicenseHeader.Proofs.Workspace.Lexical
import LicenseHeader.Proofs.Patch.Roles
import LicenseHeader.Proofs.Console.Colouring
import LicenseHeader.Proofs.Arguments.Consistency
