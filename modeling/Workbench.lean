import Workbench.Action.Basic
import Workbench.Action.Catalog
import Workbench.Action.Key
import Workbench.Action.Pipeline
import Workbench.Action.Policy
import Workbench.Action.Removal
import Workbench.Action.Token
import Workbench.Arguments.Fit
import Workbench.Arguments.Shape
import Workbench.CSharp.Compilation
import Workbench.CSharp.Declarations
import Workbench.CSharp.Diagnostics
import Workbench.CSharp.Fixes
import Workbench.CSharp.Framework
import Workbench.CSharp.Grammar.Declaration
import Workbench.CSharp.Grammar.Expression
import Workbench.CSharp.Grammar.Name
import Workbench.CSharp.Grammar.Parameter
import Workbench.CSharp.Grammar.Pattern
import Workbench.CSharp.Grammar.Statement
import Workbench.CSharp.Layout
import Workbench.CSharp.Local
import Workbench.CSharp.Model
import Workbench.CSharp.Modifier
import Workbench.CSharp.Node
import Workbench.CSharp.ReadonlyField
import Workbench.CSharp.Refactorings
import Workbench.CSharp.Reference
import Workbench.CSharp.Rename
import Workbench.CSharp.Resolution
import Workbench.CSharp.Rule
import Workbench.CSharp.Source
import Workbench.CSharp.Token
import Workbench.CSharp.Tree
import Workbench.CSharp.UnneededUsing
import Workbench.CSharp.Using
import Workbench.CallGraph
import Workbench.ChangeSet
import Workbench.Cleanup.Rule
import Workbench.Cleanup.Run
import Workbench.CodeAction
import Workbench.CodeModel
import Workbench.CommandLine
import Workbench.Decimal
import Workbench.Diagnostic
import Workbench.Digest
import Workbench.Disk.Basic
import Workbench.Disk.Ignore
import Workbench.Disk.Walk
import Workbench.Edit
import Workbench.Fault
import Workbench.Host
import Workbench.Hunk
import Workbench.Json.Basic
import Workbench.Json.Printer
import Workbench.Json.Reader
import Workbench.Json.Skip
import Workbench.Limits
import Workbench.Loading
import Workbench.Main
import Workbench.Ordered
import Workbench.Path
import Workbench.Service.Answer
import Workbench.Service.Call
import Workbench.Service.Method
import Workbench.Service.Reply
import Workbench.Service.Request
import Workbench.Service.Run
import Workbench.Service.Tool
import Workbench.Session
import Workbench.Snapshot
import Workbench.Span
import Workbench.Stored
import Workbench.Symbol.Basic
import Workbench.Symbol.Hierarchy
import Workbench.Symbol.Identity
import Workbench.Symbol.Index
import Workbench.Text.Base64
import Workbench.Text.Blank
import Workbench.Text.Case
import Workbench.Text.Letter
import Workbench.Text.Line
import Workbench.Text.Numeral
import Workbench.Text.Quoted
import Workbench.Text.Utf8
import Workbench.Proofs.Encoding
import Workbench.Proofs.Tokens
import Workbench.Proofs.Spelling
import Workbench.Proofs.Canonical
import Workbench.Proofs.Sorting
import Workbench.Proofs.Editing
import Workbench.Proofs.Indexing
import Workbench.Proofs.Frame
import Workbench.Proofs.Preparing
import Workbench.Proofs.Sessions
import Workbench.Proofs.SingleUse
import Workbench.Proofs.Placement
import Workbench.Proofs.Offers
import Workbench.Proofs.Registry
import Workbench.Proofs.Candidates
import Workbench.Proofs.Relocation
import Workbench.Proofs.Agreement
import Workbench.Proofs.Authority
import Workbench.Proofs.Lifetime
import Workbench.Proofs.Walking
import Workbench.Proofs.Queueing
import Workbench.Proofs.Neighborhood
import Workbench.Proofs.Nesting
import Workbench.Proofs.Extents
import Workbench.Proofs.Resolving
import Workbench.Proofs.Callers
import Workbench.Proofs.Confinement
import Workbench.Proofs.Sharing
import Workbench.Proofs.Rollback
import Workbench.Proofs.Previewing
import Workbench.Proofs.Sites
import Workbench.Proofs.Identities
import Workbench.Proofs.Occurrences
import Workbench.Proofs.Renaming
import Workbench.Proofs.Merging
import Workbench.Proofs.Chains
import Workbench.Proofs.Leftovers
import Workbench.Proofs.Reparsing
import Workbench.Proofs.Wording
import Workbench.Proofs.Spacing
import Workbench.Proofs.Outlining
import Workbench.Proofs.Needing
import Workbench.Proofs.Ordering
import Workbench.Proofs.Ranking
import Workbench.Proofs.Writing
import Workbench.Proofs.Formatting
import Workbench.Proofs.Carrying
import Workbench.Proofs.Rebreaking
import Workbench.Proofs.Neatness
import Workbench.Proofs.Applying
import Workbench.Proofs.Splicing
import Workbench.Proofs.Aligning
import Workbench.Proofs.Tabulating
import Workbench.Proofs.Counting
import Workbench.Proofs.Comparing
import Workbench.Proofs.Organizing
import Workbench.Proofs.Choosing
import Workbench.Proofs.Mending
import Workbench.Proofs.Settling
import Workbench.Proofs.Stopping
import Workbench.Proofs.Turning
import Workbench.Proofs.Repeating
import Workbench.Proofs.Listing
import Workbench.Proofs.Gating
import Workbench.Proofs.Keeping
import Workbench.Proofs.Owning
import Workbench.Proofs.Addressing
import Workbench.Proofs.Finding
import Workbench.Proofs.Positioning
import Workbench.Proofs.Judging
import Workbench.Proofs.Cataloging
import Workbench.Proofs.Scoping
import Workbench.Proofs.Assigning
import Workbench.Proofs.Literals
import Workbench.Proofs.Bracing
import Workbench.Proofs.Replacing
import Workbench.Proofs.Importing
import Workbench.Proofs.Widening
import Workbench.Proofs.Deriving
import Workbench.Proofs.Regathering
import Workbench.Proofs.Mirroring
import Workbench.Proofs.Joining
import Workbench.Proofs.Clearing
import Workbench.Proofs.Referring
import Workbench.Proofs.Reading
import Workbench.Proofs.Tracing
import Workbench.Proofs.Bounding
import Workbench.Proofs.Arranging
