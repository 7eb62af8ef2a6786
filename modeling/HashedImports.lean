import HashedImports.Action
import HashedImports.CommandLine.Arguments
import HashedImports.CommandLine.Command
import HashedImports.CommandLine.Dialog
import HashedImports.CommandLine.Run
import HashedImports.Context
import HashedImports.Decimal.Binary64
import HashedImports.Decimal.Shortest
import HashedImports.Disk
import HashedImports.Disk.Canonical
import HashedImports.Disk.Listing
import HashedImports.Fault
import HashedImports.FileTree
import HashedImports.Graph.Hashes
import HashedImports.Graph.Mapping
import HashedImports.Graph.Walk
import HashedImports.Hook
import HashedImports.ImportPath
import HashedImports.Journal
import HashedImports.Json
import HashedImports.Json.Parser
import HashedImports.Json.Printer
import HashedImports.Main
import HashedImports.OrderedMap
import HashedImports.Package
import HashedImports.Package.Content
import HashedImports.Package.Schema
import HashedImports.Path
import HashedImports.Proofs.Action
import HashedImports.Proofs.CommandLine.Run
import HashedImports.Proofs.Decimal.Nearest
import HashedImports.Proofs.Decimal.Shortest
import HashedImports.Proofs.Disk.Canonical
import HashedImports.Proofs.Disk.Contents
import HashedImports.Proofs.Disk.Files
import HashedImports.Proofs.Disk.Order
import HashedImports.Proofs.Disk.Plain
import HashedImports.Proofs.Disk.Writing
import HashedImports.Proofs.Graph.Agreement
import HashedImports.Proofs.Graph.Chains
import HashedImports.Proofs.Graph.Conflicts
import HashedImports.Proofs.Graph.Contents
import HashedImports.Proofs.Graph.Cycles
import HashedImports.Proofs.Graph.Exploring
import HashedImports.Proofs.Graph.Gathering
import HashedImports.Proofs.Graph.Inverse
import HashedImports.Proofs.Graph.Reachable
import HashedImports.Proofs.Graph.Selection
import HashedImports.Proofs.Graph.Stepping
import HashedImports.Proofs.Graph.Traversal
import HashedImports.Proofs.Graph.Walk
import HashedImports.Proofs.Hook
import HashedImports.Proofs.Hook.Install
import HashedImports.Proofs.Hook.Recording
import HashedImports.Proofs.ImportPath
import HashedImports.Proofs.ImportPath.Cached
import HashedImports.Proofs.ImportPath.Identity
import HashedImports.Proofs.Json.Ascii
import HashedImports.Proofs.Json.Blocked
import HashedImports.Proofs.Json.Flaws
import HashedImports.Proofs.Json.Legible
import HashedImports.Proofs.Json.Members
import HashedImports.Proofs.Json.Numbers
import HashedImports.Proofs.Json.Reading
import HashedImports.Proofs.Json.RoundTrip
import HashedImports.Proofs.Json.Strings
import HashedImports.Proofs.Layout
import HashedImports.Proofs.OrderedMap
import HashedImports.Proofs.Package.Extras
import HashedImports.Proofs.Package.Rereading
import HashedImports.Proofs.Package.Saving
import HashedImports.Proofs.Package.Sources
import HashedImports.Proofs.Path
import HashedImports.Proofs.Path.Normalized
import HashedImports.Proofs.Source.Automaton
import HashedImports.Proofs.Source.Blocks
import HashedImports.Proofs.Source.Changing
import HashedImports.Proofs.Source.Commented
import HashedImports.Proofs.Source.Comments
import HashedImports.Proofs.Source.Composing
import HashedImports.Proofs.Source.Conventional
import HashedImports.Proofs.Source.Declarations
import HashedImports.Proofs.Source.Edit
import HashedImports.Proofs.Source.Grammar
import HashedImports.Proofs.Source.Items
import HashedImports.Proofs.Source.Layout
import HashedImports.Proofs.Source.Lines
import HashedImports.Proofs.Source.Literals
import HashedImports.Proofs.Source.Lockstep
import HashedImports.Proofs.Source.Masking
import HashedImports.Proofs.Source.Occurrences
import HashedImports.Proofs.Source.Regular
import HashedImports.Proofs.Source.Retouching
import HashedImports.Proofs.Source.Rows
import HashedImports.Proofs.Source.Scanning
import HashedImports.Proofs.Source.Splice
import HashedImports.Proofs.Source.Tokens
import HashedImports.Proofs.SourceTree.Moving
import HashedImports.Proofs.SourceTree.Restoring
import HashedImports.Proofs.SourceTree.Retouching
import HashedImports.Proofs.SourceTree.Rewriting
import HashedImports.Proofs.SourceTree.Settling
import HashedImports.Proofs.SourceTree.Sources
import HashedImports.Proofs.SourceTree.Staging
import HashedImports.Proofs.SourceTree.Visiting
import HashedImports.Proofs.Store
import HashedImports.Proofs.Table.Columns
import HashedImports.Proofs.Table.History
import HashedImports.Proofs.Table.Lookup
import HashedImports.Proofs.Table.Pairs
import HashedImports.Proofs.Text.Split
import HashedImports.Proofs.Text.Utf8
import HashedImports.Proofs.Text.Words
import HashedImports.Proofs.Version
import HashedImports.Proofs.Version.Order
import HashedImports.Source.Import
import HashedImports.Source.Mask
import HashedImports.Source.Redirect
import HashedImports.SourceTree.Plan
import HashedImports.SourceTree.Redirect
import HashedImports.Store
import HashedImports.Table
import HashedImports.Text.Ansi
import HashedImports.Text.Digit
import HashedImports.Text.Lines
import HashedImports.Text.Quoted
import HashedImports.Text.Range
import HashedImports.Text.Split
import HashedImports.Text.Utf8
import HashedImports.Text.Word
import HashedImports.Version
