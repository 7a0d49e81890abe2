import TaggedJson.Text.Blank
import TaggedJson.Text.Quoted
import TaggedJson.Decimal.Double
import TaggedJson.Decimal.Shortest
import TaggedJson.Decimal.Scaling
import TaggedJson.Decimal.Layout
import TaggedJson.Json.Literal
import TaggedJson.Json.Value
import TaggedJson.Json.Scaled
import TaggedJson.Json.Tree
import TaggedJson.Json.Tree.Parser
import TaggedJson.Pull.Lexeme
import TaggedJson.Pull.Take
import TaggedJson.Pull.Iterate
import TaggedJson.Pull.Progress
import TaggedJson.Pull.Subtree
import TaggedJson.Pull.Members
import TaggedJson.Emit.Writer
import TaggedJson.Text.Hidden
import TaggedJson.Text.Diagnostic
import TaggedJson.Hierarchy.Table
import TaggedJson.Hierarchy.Build
import TaggedJson.Hierarchy.Decode
import TaggedJson.Hierarchy.Encode
import TaggedJson.Hierarchy.Describe
import TaggedJson.Message
import TaggedJson.Variant
import TaggedJson.Json.Tree.Slots
import TaggedJson.Variant.Parser
import TaggedJson.HierarchyFile.Parser
import TaggedJson.HierarchyFile.Printer
import TaggedJson.HierarchyFile.Build
import TaggedJson.Lines.Report
import TaggedJson.Lines.Conversion
import TaggedJson.Hierarchy.LabelTable
import TaggedJson.Hierarchy.Registry
import TaggedJson.Command.Basic
import TaggedJson.Command.Folder
import TaggedJson.Command.Words
import TaggedJson.Command.Run
import TaggedJson.Main
import TaggedJson.Proofs.Document
import TaggedJson.Proofs.Strings
import TaggedJson.Proofs.Numbers
import TaggedJson.Proofs.Lexemes
import TaggedJson.Proofs.Events
import TaggedJson.Proofs.Scopes
import TaggedJson.Proofs.Subtrees
import TaggedJson.Proofs.Reading
import TaggedJson.Proofs.Frames
import TaggedJson.Proofs.Objects
import TaggedJson.Proofs.Reference
import TaggedJson.Proofs.Builds
import TaggedJson.Proofs.Declared
import TaggedJson.Proofs.Rounding
import TaggedJson.Proofs.Literals
import TaggedJson.Proofs.Printed
import TaggedJson.Proofs.Agreement
import TaggedJson.Proofs.Output
import TaggedJson.Proofs.Chain
import TaggedJson.Proofs.Places
import TaggedJson.Proofs.Repeats
import TaggedJson.Proofs.Fields
import TaggedJson.Proofs.Leaves
import TaggedJson.Proofs.Validity
import TaggedJson.Proofs.Indices
import TaggedJson.Proofs.Resolution
import TaggedJson.Proofs.Values
import TaggedJson.Proofs.Calls
import TaggedJson.Proofs.Nesting
import TaggedJson.Proofs.Drafts
import TaggedJson.Proofs.Fallbacks
import TaggedJson.Proofs.Shadowing
import TaggedJson.Proofs.Consumption
import TaggedJson.Proofs.Delegates
import TaggedJson.Proofs.Placement
import TaggedJson.Proofs.Merging
import TaggedJson.Proofs.Paths
import TaggedJson.Proofs.Rejections
import TaggedJson.Proofs.Strictness
import TaggedJson.Proofs.Aftermath
import TaggedJson.Proofs.Restoration
import TaggedJson.Proofs.Integrity
import TaggedJson.Proofs.Comparison
import TaggedJson.Proofs.Descent
import TaggedJson.Proofs.Envelopes
import TaggedJson.Proofs.Linewise
import TaggedJson.Proofs.Acceptance
import TaggedJson.Proofs.Carried
import TaggedJson.Proofs.Provenance
import TaggedJson.Proofs.Interleavings
import TaggedJson.Proofs.ErrorReports
import TaggedJson.Proofs.Callers
import TaggedJson.Proofs.Registered
import TaggedJson.Proofs.Retries
import TaggedJson.Proofs.Probes
import TaggedJson.Proofs.Nearest
import TaggedJson.Proofs.Integers
import TaggedJson.Proofs.Locations
import TaggedJson.Proofs.Listing
import TaggedJson.Proofs.Reprinted
import TaggedJson.Proofs.Rounds
