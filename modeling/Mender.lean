import Mender.Component.Cleanup
import Mender.Component.Fallback
import Mender.Component.Props
import Mender.Component.Stubs
import Mender.Diagnostic
import Mender.Digest
import Mender.Hazard
import Mender.Http.MediaType
import Mender.Http.Message
import Mender.Http.Status
import Mender.Json.Basic
import Mender.Json.Fault
import Mender.Json.Form
import Mender.Json.Printer
import Mender.Json.Reader
import Mender.Json.Skip
import Mender.KeyMap
import Mender.Main
import Mender.Markup.ComponentTag
import Mender.Markup.Element
import Mender.Markup.Escape
import Mender.Markup.Tag
import Mender.Metrics
import Mender.Module.Closed
import Mender.Module.Graph
import Mender.Module.Policy
import Mender.Module.Specifier
import Mender.Module.Stub
import Mender.Number.Binary64
import Mender.Number.Shortest
import Mender.Number.Word
import Mender.Preview.Bundles
import Mender.Preview.Expiring
import Mender.Preview.Fault
import Mender.Preview.Runner
import Mender.Preview.Sandbox
import Mender.Preview.Service
import Mender.Preview.Walk
import Mender.Proofs.Component.Again
import Mender.Proofs.Component.Amended
import Mender.Proofs.Component.AmendedBlocks
import Mender.Proofs.Component.AttributeNames
import Mender.Proofs.Component.AttributeTests
import Mender.Proofs.Component.Bindings
import Mender.Proofs.Component.Cleaned
import Mender.Proofs.Component.Commented
import Mender.Proofs.Component.Cuts
import Mender.Proofs.Component.Defaults
import Mender.Proofs.Component.Dropped
import Mender.Proofs.Component.Filled
import Mender.Proofs.Component.Inserted
import Mender.Proofs.Component.OpenTags
import Mender.Proofs.Component.Prepared
import Mender.Proofs.Component.Redirect
import Mender.Proofs.Component.Served
import Mender.Proofs.Component.Settled
import Mender.Proofs.Component.SingleAttributes
import Mender.Proofs.Component.StubExports
import Mender.Proofs.Component.TagEnds
import Mender.Proofs.Component.TagPasses
import Mender.Proofs.Component.Untangled
import Mender.Proofs.Coupled
import Mender.Proofs.Diagnostic
import Mender.Proofs.Hazard
import Mender.Proofs.Json.Extent
import Mender.Proofs.Json.Numeral
import Mender.Proofs.Json.Quote
import Mender.Proofs.Json.Shape
import Mender.Proofs.Json.Spelling
import Mender.Proofs.KeyMap
import Mender.Proofs.Markup.Comments
import Mender.Proofs.Markup.Escaped
import Mender.Proofs.Markup.Joined
import Mender.Proofs.Markup.Layout
import Mender.Proofs.Markup.Parts
import Mender.Proofs.Markup.Stretches
import Mender.Proofs.Markup.Tag
import Mender.Proofs.Module.Closing
import Mender.Proofs.Module.Paths
import Mender.Proofs.Module.Policy
import Mender.Proofs.Module.Sentences
import Mender.Proofs.Module.Specifier
import Mender.Proofs.Module.Splice
import Mender.Proofs.Preview.Admission
import Mender.Proofs.Preview.Backoff
import Mender.Proofs.Preview.Breaker
import Mender.Proofs.Preview.BundleCounts
import Mender.Proofs.Preview.CacheKey
import Mender.Proofs.Preview.Confinement
import Mender.Proofs.Preview.Expiring
import Mender.Proofs.Preview.Graph
import Mender.Proofs.Preview.Origins
import Mender.Proofs.Preview.Outcomes
import Mender.Proofs.Preview.Provided
import Mender.Proofs.Preview.Requests
import Mender.Proofs.Preview.Retrieved
import Mender.Proofs.Preview.Sound
import Mender.Proofs.Preview.Steps
import Mender.Proofs.Preview.Thrown
import Mender.Proofs.Preview.Tries
import Mender.Proofs.Repair.Bounds
import Mender.Proofs.Repair.Catalog
import Mender.Proofs.Repair.Checks
import Mender.Proofs.Repair.Concurrent
import Mender.Proofs.Repair.Course
import Mender.Proofs.Repair.InTurns
import Mender.Proofs.Repair.Logged
import Mender.Proofs.Repair.Passes
import Mender.Proofs.Repair.Provenance
import Mender.Proofs.Repair.Refused
import Mender.Proofs.Repair.Remembered
import Mender.Proofs.Repair.Reported
import Mender.Proofs.Repair.Writes
import Mender.Proofs.Reply.Answer
import Mender.Proofs.Reply.Blocks
import Mender.Proofs.Reply.Defects
import Mender.Proofs.Reply.Embedded
import Mender.Proofs.Reply.Fenced
import Mender.Proofs.Reply.Kept
import Mender.Proofs.Reply.Marked
import Mender.Proofs.Reply.Mending
import Mender.Proofs.Reply.Noise
import Mender.Proofs.Reply.Rendered
import Mender.Proofs.Reply.Undone
import Mender.Proofs.Reply.Wrapped
import Mender.Proofs.Script.Alike
import Mender.Proofs.Script.Brought
import Mender.Proofs.Script.Cell
import Mender.Proofs.Script.Declared
import Mender.Proofs.Script.Ended
import Mender.Proofs.Script.Extents
import Mender.Proofs.Script.Followed
import Mender.Proofs.Script.Idle
import Mender.Proofs.Script.Import
import Mender.Proofs.Script.ImportLine
import Mender.Proofs.Script.ImportNames
import Mender.Proofs.Script.LiteralCells
import Mender.Proofs.Script.Reader
import Mender.Proofs.Script.SameImport
import Mender.Proofs.Script.SameStatement
import Mender.Proofs.Script.Spelled
import Mender.Proofs.Script.Starts
import Mender.Proofs.Script.Swap
import Mender.Proofs.Script.Tidy
import Mender.Proofs.Session
import Mender.Proofs.Store
import Mender.Proofs.Text.Blank
import Mender.Proofs.Text.Lines
import Mender.Proofs.Text.Pattern
import Mender.Proofs.Text.Search
import Mender.Proofs.Text.Width
import Mender.Proofs.Tool.Findings
import Mender.Proofs.Turns
import Mender.Proofs.Validation.Isolated
import Mender.Proofs.Validation.Stages
import Mender.Proofs.Validation.Together
import Mender.Repair.Catalog
import Mender.Repair.Loop
import Mender.Repair.Memory
import Mender.Repair.Prompt
import Mender.Repair.Request
import Mender.Reply.Candidates
import Mender.Reply.Escapes
import Mender.Reply.Extraction
import Mender.Reply.Proposal
import Mender.Script.Cell
import Mender.Script.Expressions
import Mender.Script.Grammar
import Mender.Script.Lexeme
import Mender.Script.Parse
import Mender.Script.Restore
import Mender.Script.Statements
import Mender.Script.Tree
import Mender.Script.Types
import Mender.Server.Address
import Mender.Server.Options
import Mender.Server.Routes
import Mender.Server.Settings
import Mender.Server.Wiring
import Mender.Session
import Mender.SourceFile
import Mender.Store
import Mender.Text.Blank
import Mender.Text.Lines
import Mender.Text.Numeral
import Mender.Text.Pattern
import Mender.Text.Quote
import Mender.Text.Search
import Mender.Text.Width
import Mender.Text.WordChar
import Mender.Tool.Basic
import Mender.Tool.Chat
import Mender.Tool.Command
import Mender.Tool.Findings
import Mender.Tool.Toolchain
import Mender.Tool.Wrapper
import Mender.Validation.Result
import Mender.Validation.Stages
