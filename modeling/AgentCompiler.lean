import AgentCompiler.Agent.ActionGroup
import AgentCompiler.Agent.Definition
import AgentCompiler.Agent.File
import AgentCompiler.Agent.Prompt
import AgentCompiler.Agent.Reading
import AgentCompiler.Api.Operation
import AgentCompiler.Api.Parameter
import AgentCompiler.Assembly.Conversation
import AgentCompiler.Assembly.Delegate
import AgentCompiler.Assembly.Entrypoint
import AgentCompiler.Assembly.Header
import AgentCompiler.Assembly.Interpreter
import AgentCompiler.Assembly.ModelHandle
import AgentCompiler.Assembly.ModulePlan
import AgentCompiler.Assembly.Render
import AgentCompiler.Assembly.Retrieval
import AgentCompiler.Code.Literal
import AgentCompiler.Code.Module
import AgentCompiler.Collaboration.Catalog
import AgentCompiler.Collaboration.Link
import AgentCompiler.Collaboration.Router
import AgentCompiler.Command.Environment
import AgentCompiler.Command.Run
import AgentCompiler.Command.UserSettings
import AgentCompiler.Compilation.Fault
import AgentCompiler.Compilation.Output
import AgentCompiler.Compilation.Run
import AgentCompiler.Decimal.Binary64
import AgentCompiler.Decimal.Layout
import AgentCompiler.Decimal.Shortest
import AgentCompiler.Digest.Sha256
import AgentCompiler.Document.CoreScalar
import AgentCompiler.Document.Decode
import AgentCompiler.Document.Fault
import AgentCompiler.Document.JsonText
import AgentCompiler.Document.Node
import AgentCompiler.Document.TomlTable
import AgentCompiler.Document.TomlText
import AgentCompiler.Document.YamlText
import AgentCompiler.Files.Day
import AgentCompiler.Files.Disk
import AgentCompiler.Files.Host
import AgentCompiler.Files.Path
import AgentCompiler.Gateway.Client
import AgentCompiler.Gateway.Dispatch
import AgentCompiler.Gateway.Routing
import AgentCompiler.Gateway.Target
import AgentCompiler.Json.Basic
import AgentCompiler.Json.Pointer
import AgentCompiler.Json.Writer
import AgentCompiler.Main
import AgentCompiler.Memory.Binding
import AgentCompiler.Memory.Coordinator
import AgentCompiler.Memory.Manager
import AgentCompiler.Model.Catalog
import AgentCompiler.Model.CatalogFile
import AgentCompiler.Name.Bounded
import AgentCompiler.Name.Distinct
import AgentCompiler.Name.Identifier
import AgentCompiler.Name.Namespace
import AgentCompiler.Profile.Basic
import AgentCompiler.Profile.Requirements
import AgentCompiler.Prompt.Compile
import AgentCompiler.Prompt.Default
import AgentCompiler.Prompt.Fixture
import AgentCompiler.Prompt.Placeholder
import AgentCompiler.Prompt.Template
import AgentCompiler.Prompt.Token
import AgentCompiler.Proofs.Api.Extraction
import AgentCompiler.Proofs.Assembly.Assigned
import AgentCompiler.Proofs.Assembly.Mention
import AgentCompiler.Proofs.Assembly.Setup
import AgentCompiler.Proofs.Assembly.Shadowed
import AgentCompiler.Proofs.Assembly.Source
import AgentCompiler.Proofs.Code.Bare
import AgentCompiler.Proofs.Code.Display
import AgentCompiler.Proofs.Code.Layout
import AgentCompiler.Proofs.Code.Line
import AgentCompiler.Proofs.Code.ReadBack
import AgentCompiler.Proofs.Code.TripleQuoted
import AgentCompiler.Proofs.Code.Verbatim
import AgentCompiler.Proofs.Collaboration.Binding
import AgentCompiler.Proofs.Collaboration.Scope
import AgentCompiler.Proofs.Command.FailedRun
import AgentCompiler.Proofs.Command.Writing
import AgentCompiler.Proofs.Compilation.Alike
import AgentCompiler.Proofs.Compilation.Asked
import AgentCompiler.Proofs.Compilation.Coordinator
import AgentCompiler.Proofs.Compilation.DispatchFile
import AgentCompiler.Proofs.Compilation.Failure
import AgentCompiler.Proofs.Compilation.GatewaySwitch
import AgentCompiler.Proofs.Compilation.Links
import AgentCompiler.Proofs.Compilation.ModuleName
import AgentCompiler.Proofs.Compilation.Order
import AgentCompiler.Proofs.Compilation.OutputFile
import AgentCompiler.Proofs.Compilation.PromptName
import AgentCompiler.Proofs.Compilation.Service
import AgentCompiler.Proofs.Compilation.Step
import AgentCompiler.Proofs.Compilation.SwitchedOff
import AgentCompiler.Proofs.Compilation.ToolName
import AgentCompiler.Proofs.Compilation.Tree
import AgentCompiler.Proofs.Decimal.Nearest
import AgentCompiler.Proofs.Decimal.Shortest
import AgentCompiler.Proofs.Decimal.Text
import AgentCompiler.Proofs.Files.Disk
import AgentCompiler.Proofs.Gateway.Keys
import AgentCompiler.Proofs.Gateway.Served
import AgentCompiler.Proofs.Json.Canonical
import AgentCompiler.Proofs.Json.Numeral
import AgentCompiler.Proofs.Json.Pointer
import AgentCompiler.Proofs.Json.Reader
import AgentCompiler.Proofs.Model.Extension
import AgentCompiler.Proofs.Model.Family
import AgentCompiler.Proofs.Name.Blocks
import AgentCompiler.Proofs.Name.Class
import AgentCompiler.Proofs.Name.Counter
import AgentCompiler.Proofs.Name.Distinct
import AgentCompiler.Proofs.Name.Identifier
import AgentCompiler.Proofs.Name.Joined
import AgentCompiler.Proofs.Name.Namespace
import AgentCompiler.Proofs.Prompt.Apart
import AgentCompiler.Proofs.Prompt.Closure
import AgentCompiler.Proofs.Prompt.Constant
import AgentCompiler.Proofs.Prompt.Cut
import AgentCompiler.Proofs.Prompt.FillOnce
import AgentCompiler.Proofs.Prompt.Fixture
import AgentCompiler.Proofs.Prompt.Foreign
import AgentCompiler.Proofs.Prompt.Leftmost
import AgentCompiler.Proofs.Prompt.Listed
import AgentCompiler.Proofs.Prompt.Rank
import AgentCompiler.Proofs.Prompt.Token
import AgentCompiler.Proofs.Schema.Body
import AgentCompiler.Proofs.Schema.Call
import AgentCompiler.Proofs.Schema.Declared
import AgentCompiler.Proofs.Schema.Ending
import AgentCompiler.Proofs.Schema.Inlined
import AgentCompiler.Proofs.Schema.Merged
import AgentCompiler.Proofs.Schema.Order
import AgentCompiler.Proofs.Schema.Plain
import AgentCompiler.Proofs.Schema.Remapped
import AgentCompiler.Proofs.Text.Fill
import AgentCompiler.Proofs.Text.Marker
import AgentCompiler.Proofs.Text.Occurrence
import AgentCompiler.Proofs.Text.Pieces
import AgentCompiler.Proofs.Text.Replace
import AgentCompiler.Proofs.Text.Tidy
import AgentCompiler.Proofs.Text.Utf8
import AgentCompiler.Proofs.Text.Wrap
import AgentCompiler.Proofs.Tool.ContentType
import AgentCompiler.Proofs.Tool.Input
import AgentCompiler.Proofs.Tool.Plan
import AgentCompiler.Proofs.Tool.Requirement
import AgentCompiler.Proofs.Tool.Standing
import AgentCompiler.Proofs.Tool.WireName
import AgentCompiler.Proofs.Typing.Hint
import AgentCompiler.Proofs.Typing.Order
import AgentCompiler.Proofs.Typing.Record
import AgentCompiler.Proofs.Typing.Signature
import AgentCompiler.Provisioning.Request
import AgentCompiler.Schema.Component
import AgentCompiler.Schema.Inlining
import AgentCompiler.Schema.Mapping
import AgentCompiler.Table
import AgentCompiler.Text.Blank
import AgentCompiler.Text.Lines
import AgentCompiler.Text.Margin
import AgentCompiler.Text.Marker
import AgentCompiler.Text.Tidy
import AgentCompiler.Text.Unprintable
import AgentCompiler.Text.Wrap
import AgentCompiler.Tool.Advertised
import AgentCompiler.Tool.Basic
import AgentCompiler.Tool.Source
import AgentCompiler.Tool.Synthesis
import AgentCompiler.Typing.Declaration
import AgentCompiler.Typing.Registry
import AgentCompiler.Typing.Render
import AgentCompiler.Typing.TypeExpr
