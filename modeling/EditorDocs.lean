import EditorDocs.Command.Basic
import EditorDocs.Command.Builtin
import EditorDocs.Command.Registry
import EditorDocs.CommandLine.Invocation
import EditorDocs.CommandLine.Options
import EditorDocs.CommandLine.Run
import EditorDocs.Config.Data
import EditorDocs.Config.Layers
import EditorDocs.Config.Load
import EditorDocs.Config.Problem
import EditorDocs.Config.Schema
import EditorDocs.Config.Settings
import EditorDocs.Failure
import EditorDocs.FileSystem.Errno
import EditorDocs.FileSystem.Node
import EditorDocs.FileSystem.Operations
import EditorDocs.FileSystem.Path
import EditorDocs.FileSystem.Resolve
import EditorDocs.Index.Basic
import EditorDocs.Index.Cache
import EditorDocs.Index.Decode
import EditorDocs.Index.Resolver
import EditorDocs.Json.Document
import EditorDocs.Json.Line
import EditorDocs.Json.Value
import EditorDocs.Json.Writer
import EditorDocs.Log.Console
import EditorDocs.Log.Journal
import EditorDocs.Log.Pipeline
import EditorDocs.Log.Record
import EditorDocs.Log.Session
import EditorDocs.Main
import EditorDocs.Number.Binary64
import EditorDocs.Number.Reading
import EditorDocs.Number.Shortest
import EditorDocs.Proofs.Command.Blind
import EditorDocs.Proofs.Command.Builtin
import EditorDocs.Proofs.Command.Call
import EditorDocs.Proofs.Command.Editing
import EditorDocs.Proofs.Command.Registration
import EditorDocs.Proofs.Command.Results
import EditorDocs.Proofs.Command.Writing
import EditorDocs.Proofs.CommandLine.Agreement
import EditorDocs.Proofs.CommandLine.Configuration
import EditorDocs.Proofs.CommandLine.Printing
import EditorDocs.Proofs.CommandLine.Reading
import EditorDocs.Proofs.CommandLine.Refresh
import EditorDocs.Proofs.CommandLine.Unset
import EditorDocs.Proofs.Config.Checked
import EditorDocs.Proofs.Config.Laws
import EditorDocs.Proofs.Config.Loading
import EditorDocs.Proofs.Config.Merge
import EditorDocs.Proofs.Config.Normal
import EditorDocs.Proofs.Config.Paths
import EditorDocs.Proofs.Config.Precedence
import EditorDocs.Proofs.Config.Validation
import EditorDocs.Proofs.Config.Verbosity
import EditorDocs.Proofs.FileSystem.Alike
import EditorDocs.Proofs.FileSystem.Children
import EditorDocs.Proofs.FileSystem.Following
import EditorDocs.Proofs.FileSystem.Landing
import EditorDocs.Proofs.FileSystem.Links
import EditorDocs.Proofs.FileSystem.Listing
import EditorDocs.Proofs.FileSystem.Loss
import EditorDocs.Proofs.FileSystem.Names
import EditorDocs.Proofs.FileSystem.Operations
import EditorDocs.Proofs.FileSystem.Outline
import EditorDocs.Proofs.FileSystem.Spelling
import EditorDocs.Proofs.FileSystem.Use
import EditorDocs.Proofs.FileSystem.View
import EditorDocs.Proofs.FileSystem.Ways
import EditorDocs.Proofs.Index.Apart
import EditorDocs.Proofs.Index.Atomic
import EditorDocs.Proofs.Index.Authority
import EditorDocs.Proofs.Index.Clearing
import EditorDocs.Proofs.Index.Concurrent
import EditorDocs.Proofs.Index.Confined
import EditorDocs.Proofs.Index.Faults
import EditorDocs.Proofs.Index.Interleaving
import EditorDocs.Proofs.Index.Local
import EditorDocs.Proofs.Index.Ready
import EditorDocs.Proofs.Index.Record
import EditorDocs.Proofs.Index.Resolve
import EditorDocs.Proofs.Index.RoundTrip
import EditorDocs.Proofs.Index.Shape
import EditorDocs.Proofs.Index.Site
import EditorDocs.Proofs.Index.Steady
import EditorDocs.Proofs.Index.Tasks
import EditorDocs.Proofs.Index.Write
import EditorDocs.Proofs.Json.Complete
import EditorDocs.Proofs.Json.Document
import EditorDocs.Proofs.Json.Grammar
import EditorDocs.Proofs.Json.Joined
import EditorDocs.Proofs.Json.Line
import EditorDocs.Proofs.Json.Meaning
import EditorDocs.Proofs.Json.Nesting
import EditorDocs.Proofs.Json.Numerals
import EditorDocs.Proofs.Json.Outside
import EditorDocs.Proofs.Json.Pretty
import EditorDocs.Proofs.Json.Reread
import EditorDocs.Proofs.Json.Standard
import EditorDocs.Proofs.Json.Strings
import EditorDocs.Proofs.Json.Tokens
import EditorDocs.Proofs.Json.Valid
import EditorDocs.Proofs.Log.Console
import EditorDocs.Proofs.Log.Fate
import EditorDocs.Proofs.Log.File
import EditorDocs.Proofs.Log.Independence
import EditorDocs.Proofs.Log.Journal
import EditorDocs.Proofs.Number.Rounding
import EditorDocs.Proofs.Number.Shortest
import EditorDocs.Proofs.Remote.Fetcher
import EditorDocs.Proofs.Remote.Outcome
import EditorDocs.Proofs.Result
import EditorDocs.Proofs.Server.Delivery
import EditorDocs.Proofs.Server.Framing
import EditorDocs.Proofs.Server.Nesting
import EditorDocs.Proofs.Server.Rejection
import EditorDocs.Proofs.Server.Response
import EditorDocs.Proofs.Server.Standard
import EditorDocs.Proofs.Server.Survival
import EditorDocs.Proofs.Server.Undecodable
import EditorDocs.Proofs.Source.Document
import EditorDocs.Proofs.Source.Slug
import EditorDocs.Proofs.Source.Tags
import EditorDocs.Proofs.Table
import EditorDocs.Proofs.Text.Digits
import EditorDocs.Proofs.Text.Input
import EditorDocs.Proofs.Text.Lowercase
import EditorDocs.Proofs.Text.Split
import EditorDocs.Proofs.Text.Utf8
import EditorDocs.Proofs.Text.Valid
import EditorDocs.Proofs.Tree.Build
import EditorDocs.Proofs.Tree.Cells
import EditorDocs.Proofs.Tree.Filling
import EditorDocs.Proofs.Tree.Growth
import EditorDocs.Proofs.Tree.Image
import EditorDocs.Proofs.Tree.Limit
import EditorDocs.Proofs.Tree.Made
import EditorDocs.Proofs.Tree.Outline
import EditorDocs.Proofs.Tree.Places
import EditorDocs.Proofs.Tree.Reports
import EditorDocs.Proofs.Tree.Walk
import EditorDocs.Proofs.World.Action
import EditorDocs.Proofs.World.Directories
import EditorDocs.Proofs.World.Files
import EditorDocs.Proofs.World.Grown
import EditorDocs.Proofs.World.Made
import EditorDocs.Proofs.World.Missing
import EditorDocs.Proofs.World.Names
import EditorDocs.Proofs.World.Native
import EditorDocs.Proofs.World.Parts
import EditorDocs.Proofs.World.Twin
import EditorDocs.Proofs.Yaml.Document
import EditorDocs.Proofs.Yaml.Faults
import EditorDocs.Proofs.Yaml.Nodes
import EditorDocs.Proofs.Yaml.Tokens
import EditorDocs.Remote.Fetcher
import EditorDocs.Server
import EditorDocs.Source.Basic
import EditorDocs.Source.Host
import EditorDocs.Source.Url
import EditorDocs.Table
import EditorDocs.Text.Base64
import EditorDocs.Text.Basic
import EditorDocs.Text.Cased
import EditorDocs.Text.Digits
import EditorDocs.Text.Intake
import EditorDocs.Text.Lines
import EditorDocs.Text.Lowercase
import EditorDocs.Text.Quoted
import EditorDocs.Text.Utf8
import EditorDocs.Tree.Basic
import EditorDocs.Tree.Build
import EditorDocs.Tree.Walk
import EditorDocs.World
import EditorDocs.World.Files
import EditorDocs.Yaml.Cursor
import EditorDocs.Yaml.Document
import EditorDocs.Yaml.Grammar
import EditorDocs.Yaml.Graph
import EditorDocs.Yaml.Instant
import EditorDocs.Yaml.Lexer
import EditorDocs.Yaml.Resolve
import EditorDocs.Yaml.Scalar
import EditorDocs.Yaml.Source
import EditorDocs.Yaml.Tag
import EditorDocs.Yaml.Token
import EditorDocs.Yaml.Value
