import GitInvocation.Binary64.Basic
import GitInvocation.Binary64.Reading
import GitInvocation.Binary64.Shortest
import GitInvocation.Binary64.Written
import GitInvocation.Command.Draft
import GitInvocation.Command.Override
import GitInvocation.Command.Token
import GitInvocation.CommandLine
import GitInvocation.CommandLine.Argument
import GitInvocation.CommandLine.Reading
import GitInvocation.Files.Path
import GitInvocation.Files.Tree
import GitInvocation.Json.Basic
import GitInvocation.Json.Format
import GitInvocation.Json.Lexeme
import GitInvocation.Json.Number
import GitInvocation.Json.Quoted
import GitInvocation.Json.Reader
import GitInvocation.Json.Record
import GitInvocation.Json.Writer
import GitInvocation.Logging.Event
import GitInvocation.Logging.Verbosity
import GitInvocation.Main
import GitInvocation.Operation
import GitInvocation.Operation.History
import GitInvocation.Operation.Query
import GitInvocation.Operation.RefFilter
import GitInvocation.Operation.Rejection
import GitInvocation.Operation.Repository
import GitInvocation.Operation.Transfer
import GitInvocation.Operation.Worktree
import GitInvocation.Program
import GitInvocation.Proofs.Command.Drafting
import GitInvocation.Proofs.Operation.Argv
import GitInvocation.Proofs.Operation.ArgvFidelity
import GitInvocation.Proofs.Snapshot.Entries
import GitInvocation.Proofs.Snapshot.Matching
import GitInvocation.Proofs.Text.ByteOrder
import GitInvocation.Proofs.Text.Cutting
import GitInvocation.Proofs.Text.Decoding
import GitInvocation.Proofs.Words.Fragment
import GitInvocation.Proofs.Words.Joining
import GitInvocation.Rendering
import GitInvocation.Request
import GitInvocation.Settings.Assignment
import GitInvocation.Settings.Environment
import GitInvocation.Settings.Fault
import GitInvocation.Settings.KeyPath
import GitInvocation.Settings.Loading
import GitInvocation.Settings.Reading
import GitInvocation.Settings.Tree
import GitInvocation.Snapshot.Basic
import GitInvocation.Snapshot.Key
import GitInvocation.Snapshot.Listing
import GitInvocation.Snapshot.Requirement
import GitInvocation.Standalone
import GitInvocation.Text.Blank
import GitInvocation.Text.Cased
import GitInvocation.Text.Decoding
import GitInvocation.Text.Escaped
import GitInvocation.Text.Lines
import GitInvocation.Text.LowerCase
import GitInvocation.Text.Number
import GitInvocation.Text.Ranges
import GitInvocation.Text.Unprintable
import GitInvocation.Toml.Document
import GitInvocation.Toml.Lexeme
import GitInvocation.Toml.Moment
import GitInvocation.Toml.Quoted
import GitInvocation.Toml.Scalar
import GitInvocation.Toml.Table
import GitInvocation.Words
import GitInvocation.Proofs.Snapshot.Writing
import GitInvocation.Proofs.Snapshot.Listing
import GitInvocation.Proofs.Snapshot.History
import GitInvocation.Proofs.Json.Reading
import GitInvocation.Proofs.Json.Writing
import GitInvocation.Proofs.Json.Records
import GitInvocation.Proofs.Operation.FilterText
import GitInvocation.Proofs.Operation.Records
import GitInvocation.Proofs.Request.Reading
import GitInvocation.Proofs.Json.Scanning
import GitInvocation.Proofs.Json.Accepting
import GitInvocation.Proofs.Command.Opening
import GitInvocation.Proofs.Operation.Leading
import GitInvocation.Proofs.Operation.Rejecting
import GitInvocation.Proofs.Operation.Pinning
import GitInvocation.Proofs.Rendering.Precedence
import GitInvocation.Proofs.Words.Comment
import GitInvocation.Proofs.Command.Splitting
import GitInvocation.Proofs.Operation.BareOperands
import GitInvocation.Proofs.Operation.WholeOverrides
import GitInvocation.Proofs.Lookup
import GitInvocation.Proofs.Settings.Tree
import GitInvocation.Proofs.Settings.Leaves
import GitInvocation.Proofs.Settings.Reading
import GitInvocation.Proofs.Settings.Layering
import GitInvocation.Proofs.Command.Alphabet
import GitInvocation.Proofs.Operation.FreeText
import GitInvocation.Proofs.Operation.Separators
import GitInvocation.Proofs.Operation.Blanks
import GitInvocation.Proofs.Operation.Resets
import GitInvocation.Proofs.Rendering.Lines
import GitInvocation.Proofs.Snapshot.Lines
import GitInvocation.Proofs.Settings.Entries
import GitInvocation.Proofs.Program.Listing
import GitInvocation.Proofs.Outcomes
import GitInvocation.Proofs.Settings.Unknown
import GitInvocation.Proofs.CommandLine.Levels
import GitInvocation.Proofs.Program.Outcome
import GitInvocation.Proofs.Snapshot.KeyRule
import GitInvocation.Proofs.Snapshot.Requirement
import GitInvocation.Proofs.Snapshot.Table
import GitInvocation.Proofs.Snapshot.Grammar
import GitInvocation.Proofs.Snapshot.Composition
import GitInvocation.Proofs.Words.Escapes
import GitInvocation.Proofs.Operation.MessageFile
import GitInvocation.Proofs.Operation.PartialStash
import GitInvocation.Proofs.Operation.ListedRefs
import GitInvocation.Proofs.Operation.Refspecs
import GitInvocation.Proofs.Settings.Assignments
import GitInvocation.Proofs.CommandLine.SettingsFiles
import GitInvocation.Proofs.Settings.PathVariables
import GitInvocation.Proofs.Logging.Grammar
import GitInvocation.Proofs.Words.Losses
import GitInvocation.Proofs.Command.NormalForm
import GitInvocation.Proofs.Settings.Options
