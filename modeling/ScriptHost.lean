import ScriptHost.Check
import ScriptHost.Clock
import ScriptHost.Collision
import ScriptHost.Command
import ScriptHost.CommandLine
import ScriptHost.Compiler
import ScriptHost.Config
import ScriptHost.Console
import ScriptHost.Corpus.Ancestry
import ScriptHost.Corpus.Field
import ScriptHost.Corpus.Link
import ScriptHost.Corpus.Lowered
import ScriptHost.Corpus.Method
import ScriptHost.Corpus.Module
import ScriptHost.Decimal.Binary
import ScriptHost.Decimal.Fixed
import ScriptHost.Decimal.Layout
import ScriptHost.Decimal.Nearest
import ScriptHost.Decimal.Shortest
import ScriptHost.Decimal.Written
import ScriptHost.Declaration.Body
import ScriptHost.Declaration.Fault
import ScriptHost.Declaration.Lexer
import ScriptHost.Declaration.Parser
import ScriptHost.Declaration.Token
import ScriptHost.Declaration.Tree
import ScriptHost.Diagnostic
import ScriptHost.Entity
import ScriptHost.Export
import ScriptHost.Field.Kind
import ScriptHost.Field.Table
import ScriptHost.Field.Value
import ScriptHost.Files.Basic
import ScriptHost.Files.Change
import ScriptHost.Hash.Blake3
import ScriptHost.Headless
import ScriptHost.Hook
import ScriptHost.Host.Basic
import ScriptHost.Host.Sync
import ScriptHost.HostModule
import ScriptHost.Image.Basic
import ScriptHost.Image.Codec
import ScriptHost.Input
import ScriptHost.Instance
import ScriptHost.Json.Basic
import ScriptHost.Json.Numeral
import ScriptHost.Json.Reader
import ScriptHost.Json.Record
import ScriptHost.Json.Writer
import ScriptHost.Lifecycle.Attachment
import ScriptHost.Lifecycle.Basic
import ScriptHost.Lifecycle.ErrorLog
import ScriptHost.Main
import ScriptHost.Origin
import ScriptHost.Path
import ScriptHost.Proofs.Clock
import ScriptHost.Proofs.CommandLine.Pairs
import ScriptHost.Proofs.CommandLine.Values
import ScriptHost.Proofs.Compiler.Active
import ScriptHost.Proofs.Compiler.Allowlist
import ScriptHost.Proofs.Compiler.Artefacts
import ScriptHost.Proofs.Compiler.Cache
import ScriptHost.Proofs.Compiler.Default
import ScriptHost.Proofs.Compiler.Dispatch
import ScriptHost.Proofs.Compiler.Executable
import ScriptHost.Proofs.Compiler.Gate
import ScriptHost.Proofs.Compiler.History
import ScriptHost.Proofs.Compiler.Identity
import ScriptHost.Proofs.Compiler.Located
import ScriptHost.Proofs.Compiler.Lookup
import ScriptHost.Proofs.Compiler.Order
import ScriptHost.Proofs.Compiler.Reading
import ScriptHost.Proofs.Compiler.Violations
import ScriptHost.Proofs.Corpus.Ascent
import ScriptHost.Proofs.Corpus.Defaults
import ScriptHost.Proofs.Corpus.Descent
import ScriptHost.Proofs.Corpus.Dispatch
import ScriptHost.Proofs.Corpus.Fields
import ScriptHost.Proofs.Corpus.Findings
import ScriptHost.Proofs.Corpus.Functions
import ScriptHost.Proofs.Corpus.Hooks
import ScriptHost.Proofs.Corpus.Lowered
import ScriptHost.Proofs.Corpus.Module
import ScriptHost.Proofs.Corpus.Order
import ScriptHost.Proofs.Corpus.Program
import ScriptHost.Proofs.Corpus.Renumbering
import ScriptHost.Proofs.Corpus.Resolution
import ScriptHost.Proofs.Decimal.Value
import ScriptHost.Proofs.Declaration.Body
import ScriptHost.Proofs.Declaration.Completeness
import ScriptHost.Proofs.Declaration.Cursor
import ScriptHost.Proofs.Declaration.Gap
import ScriptHost.Proofs.Declaration.Grammar
import ScriptHost.Proofs.Declaration.Integer
import ScriptHost.Proofs.Declaration.Locality
import ScriptHost.Proofs.Declaration.Movement
import ScriptHost.Proofs.Declaration.Numeral
import ScriptHost.Proofs.Declaration.Parser
import ScriptHost.Proofs.Declaration.Printing
import ScriptHost.Proofs.Declaration.Progress
import ScriptHost.Proofs.Declaration.Recovery
import ScriptHost.Proofs.Declaration.Rounds
import ScriptHost.Proofs.Declaration.Semicolon
import ScriptHost.Proofs.Declaration.Soundness
import ScriptHost.Proofs.Declaration.Spelling
import ScriptHost.Proofs.Declaration.Stretches
import ScriptHost.Proofs.Declaration.Termination
import ScriptHost.Proofs.Field.Access
import ScriptHost.Proofs.Field.Table
import ScriptHost.Proofs.Files.History
import ScriptHost.Proofs.Files.Tree
import ScriptHost.Proofs.Files.Way
import ScriptHost.Proofs.Host.Detachment
import ScriptHost.Proofs.Host.Exposure
import ScriptHost.Proofs.Host.Reload
import ScriptHost.Proofs.Host.Run
import ScriptHost.Proofs.Host.Sync
import ScriptHost.Proofs.Image.Codec
import ScriptHost.Proofs.Json.Numeral
import ScriptHost.Proofs.Json.Reader
import ScriptHost.Proofs.Json.Record
import ScriptHost.Proofs.Lifecycle.Attachment
import ScriptHost.Proofs.Lifecycle.Basic
import ScriptHost.Proofs.Lifecycle.Deeds
import ScriptHost.Proofs.Lifecycle.Deliveries
import ScriptHost.Proofs.Lifecycle.Detachment
import ScriptHost.Proofs.Lifecycle.Dispatch
import ScriptHost.Proofs.Lifecycle.Failures
import ScriptHost.Proofs.Lifecycle.Lives
import ScriptHost.Proofs.Lifecycle.Protocol
import ScriptHost.Proofs.Lifecycle.Renewal
import ScriptHost.Proofs.Lifecycle.Turns
import ScriptHost.Proofs.Origin
import ScriptHost.Proofs.Path
import ScriptHost.Proofs.Reference
import ScriptHost.Proofs.Registry
import ScriptHost.Proofs.Registry.Inheritance
import ScriptHost.Proofs.Registry.Membership
import ScriptHost.Proofs.Script.Confined
import ScriptHost.Proofs.Script.Enclosed
import ScriptHost.Proofs.Script.Entries
import ScriptHost.Proofs.Script.Failing
import ScriptHost.Proofs.Script.Lexer.Beside
import ScriptHost.Proofs.Script.Lexer.Header
import ScriptHost.Proofs.Script.Lexer.Parts
import ScriptHost.Proofs.Script.Marks
import ScriptHost.Proofs.Script.Parser.Reading
import ScriptHost.Proofs.Script.Parser.Steps
import ScriptHost.Proofs.Script.Queue
import ScriptHost.Proofs.Script.Simplified
import ScriptHost.Proofs.Step
import ScriptHost.Proofs.Symbols
import ScriptHost.Proofs.Text.Bytes
import ScriptHost.Proofs.Text.Places
import ScriptHost.Proofs.Text.Position
import ScriptHost.Proofs.Watcher.Counter
import ScriptHost.Proofs.Watcher.Notified
import ScriptHost.Proofs.Watcher.Quiet
import ScriptHost.Proofs.Watcher.Replay
import ScriptHost.Proofs.Watcher.Snapshot
import ScriptHost.Proofs.Watcher.Staleness
import ScriptHost.Proofs.World.Commands
import ScriptHost.Proofs.World.Rows
import ScriptHost.Reference
import ScriptHost.Registry
import ScriptHost.Script.Arithmetic
import ScriptHost.Script.Chain
import ScriptHost.Script.Eval
import ScriptHost.Script.Failure
import ScriptHost.Script.Fault
import ScriptHost.Script.Lexer
import ScriptHost.Script.Library
import ScriptHost.Script.Library.Basic
import ScriptHost.Script.Library.Host
import ScriptHost.Script.Library.Number
import ScriptHost.Script.Library.Sequence
import ScriptHost.Script.Library.Text
import ScriptHost.Script.Machine
import ScriptHost.Script.Parser
import ScriptHost.Script.Parser.Basic
import ScriptHost.Script.Parser.Check
import ScriptHost.Script.Purity
import ScriptHost.Script.Simplify
import ScriptHost.Script.Token
import ScriptHost.Script.Tree
import ScriptHost.Script.Value
import ScriptHost.Source
import ScriptHost.Symbols
import ScriptHost.Text.Case
import ScriptHost.Text.Invisible
import ScriptHost.Text.Position
import ScriptHost.Text.Quoted
import ScriptHost.Text.Search
import ScriptHost.Text.Space
import ScriptHost.Vector
import ScriptHost.Watcher.Basic
import ScriptHost.Watcher.Nudge
import ScriptHost.Watcher.Snapshot
import ScriptHost.World.Basic
