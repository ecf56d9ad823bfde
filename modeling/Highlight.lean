import Highlight.Archive.Basic
import Highlight.Archive.Codec
import Highlight.Break.Basic
import Highlight.Break.Index
import Highlight.Buffer
import Highlight.CommandLine.Arguments
import Highlight.CommandLine.Builtin
import Highlight.CommandLine.Path
import Highlight.CommandLine.Run
import Highlight.Config
import Highlight.Error
import Highlight.Fault
import Highlight.Grammar.Basic
import Highlight.Grammar.Compile
import Highlight.Grammar.Source
import Highlight.Highlighter.Basic
import Highlight.Highlighter.Edit
import Highlight.Highlighter.Pass
import Highlight.Json.Decode
import Highlight.Json.Documents
import Highlight.Json.Reader
import Highlight.Libraries
import Highlight.Main
import Highlight.Proofs.Break.Arises
import Highlight.Proofs.Break.Chain
import Highlight.Proofs.Break.Change
import Highlight.Proofs.Break.Operations
import Highlight.Proofs.Break.Ring
import Highlight.Proofs.Break.Stores
import Highlight.Proofs.Buffer.Flush
import Highlight.Proofs.Buffer.InStep
import Highlight.Proofs.Buffer.Kept
import Highlight.Proofs.Buffer.Nested
import Highlight.Proofs.Buffer.Operations
import Highlight.Proofs.Buffer.Overflow
import Highlight.Proofs.Buffer.Reachable
import Highlight.Proofs.Buffer.Settles
import Highlight.Proofs.Buffer.Slots
import Highlight.Proofs.Buffer.Spread
import Highlight.Proofs.Buffer.Tells
import Highlight.Proofs.CommandLine.Run
import Highlight.Proofs.Fault
import Highlight.Proofs.Grammar.Brackets
import Highlight.Proofs.Grammar.Builds
import Highlight.Proofs.Grammar.Compilable
import Highlight.Proofs.Grammar.Compile
import Highlight.Proofs.Grammar.Cover
import Highlight.Proofs.Grammar.Described
import Highlight.Proofs.Grammar.Faults
import Highlight.Proofs.Grammar.Flatten
import Highlight.Proofs.Grammar.Gaps
import Highlight.Proofs.Grammar.Includes
import Highlight.Proofs.Grammar.Inline
import Highlight.Proofs.Grammar.Needs
import Highlight.Proofs.Grammar.Numbering
import Highlight.Proofs.Grammar.Numbers
import Highlight.Proofs.Grammar.Outline
import Highlight.Proofs.Grammar.Read
import Highlight.Proofs.Grammar.References
import Highlight.Proofs.Grammar.Registry
import Highlight.Proofs.Highlighter.Charted
import Highlight.Proofs.Highlighter.Checkpoint
import Highlight.Proofs.Highlighter.Dirty
import Highlight.Proofs.Highlighter.Edit
import Highlight.Proofs.Highlighter.FirstPass
import Highlight.Proofs.Highlighter.Hints
import Highlight.Proofs.Highlighter.Keeps
import Highlight.Proofs.Highlighter.Laid
import Highlight.Proofs.Highlighter.Meets
import Highlight.Proofs.Highlighter.Nested
import Highlight.Proofs.Highlighter.Noted
import Highlight.Proofs.Highlighter.Pass
import Highlight.Proofs.Highlighter.Placed
import Highlight.Proofs.Highlighter.Process
import Highlight.Proofs.Highlighter.Progress
import Highlight.Proofs.Highlighter.Reachable
import Highlight.Proofs.Highlighter.Restart
import Highlight.Proofs.Highlighter.Resync
import Highlight.Proofs.Highlighter.Room
import Highlight.Proofs.Highlighter.Round
import Highlight.Proofs.Highlighter.Schedules
import Highlight.Proofs.Highlighter.Slots
import Highlight.Proofs.Highlighter.Spread
import Highlight.Proofs.Highlighter.Stands
import Highlight.Proofs.Highlighter.Surgery
import Highlight.Proofs.Highlighter.Trail
import Highlight.Proofs.Highlighter.Trust
import Highlight.Proofs.Json.Yields
import Highlight.Proofs.Query.Accuracy
import Highlight.Proofs.Query.Answers
import Highlight.Proofs.Query.Cases
import Highlight.Proofs.Query.Exact
import Highlight.Proofs.Query.History
import Highlight.Proofs.Query.Idle
import Highlight.Proofs.Query.Lengths
import Highlight.Proofs.Query.Reachable
import Highlight.Proofs.Query.Start
import Highlight.Proofs.Registry.Fallback
import Highlight.Proofs.Registry.Names
import Highlight.Proofs.Registry.Stored
import Highlight.Proofs.Scan.Beside
import Highlight.Proofs.Scan.Blank
import Highlight.Proofs.Scan.Caught
import Highlight.Proofs.Scan.Choice
import Highlight.Proofs.Scan.Colors
import Highlight.Proofs.Scan.Events
import Highlight.Proofs.Scan.Feed
import Highlight.Proofs.Scan.Highlight
import Highlight.Proofs.Scan.Lawful
import Highlight.Proofs.Scan.Layers
import Highlight.Proofs.Scan.Legs
import Highlight.Proofs.Scan.Locality
import Highlight.Proofs.Scan.Nested
import Highlight.Proofs.Scan.Offers
import Highlight.Proofs.Scan.Repeats
import Highlight.Proofs.Scan.Resume
import Highlight.Proofs.Scan.Row
import Highlight.Proofs.Scan.Run
import Highlight.Proofs.Scan.Spans
import Highlight.Proofs.Scan.Steps
import Highlight.Proofs.Scan.Tokens
import Highlight.Proofs.Scan.Trace
import Highlight.Proofs.Scan.Transport
import Highlight.Proofs.Scan.Walk
import Highlight.Proofs.Scan.Winner
import Highlight.Proofs.Text.Boundary
import Highlight.Proofs.Text.Carry
import Highlight.Proofs.Text.Replace
import Highlight.Query.Basic
import Highlight.Query.Cache
import Highlight.Regex.Backtracking
import Highlight.Regex.Basic
import Highlight.Regex.Cause
import Highlight.Regex.CharSet
import Highlight.Regex.ClassSyntax
import Highlight.Regex.Escape
import Highlight.Regex.FirstByte
import Highlight.Regex.Length
import Highlight.Regex.Machine
import Highlight.Regex.Match
import Highlight.Regex.Matcher
import Highlight.Regex.Parse
import Highlight.Regex.Program
import Highlight.Regex.References
import Highlight.Regex.Syntax
import Highlight.Registry
import Highlight.Scan.Basic
import Highlight.Scan.Choice
import Highlight.Scan.Move
import Highlight.Scan.Runs
import Highlight.Scan.Stack
import Highlight.Scan.Styles
import Highlight.Scan.Token
import Highlight.Scan.Window
import Highlight.Text.Basic
import Highlight.Text.Change
import Highlight.Text.Quoted
import Highlight.Text.Span
import Highlight.Unicode.Category
import Highlight.Unicode.Fold
import Highlight.Unicode.Property
import Highlight.Unicode.Ranges
