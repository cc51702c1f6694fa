import Kfx.Artifact.Basic
import Kfx.Artifact.Codec
import Kfx.Artifact.Error
import Kfx.Artifact.Layout
import Kfx.Artifact.Relink
import Kfx.Batch.Basic
import Kfx.Batch.Source
import Kfx.CommandLine
import Kfx.Compile
import Kfx.Difference
import Kfx.Effect.Basic
import Kfx.Effect.Choice
import Kfx.Effect.DataType
import Kfx.Effect.RenderState
import Kfx.Effect.Stage
import Kfx.Files.Basic
import Kfx.Files.Tree
import Kfx.Glsl.Adapter
import Kfx.Glsl.Include
import Kfx.Grammar.Error
import Kfx.Grammar.Layout
import Kfx.Grammar.Parser
import Kfx.Grammar.RenderState
import Kfx.Grammar.Source
import Kfx.Load
import Kfx.Log
import Kfx.Main
import Kfx.Number.Binary
import Kfx.Number.Literal
import Kfx.Number.Shortest
import Kfx.Path
import Kfx.Resolution
import Kfx.Settings.Basic
import Kfx.Settings.Fault
import Kfx.Settings.File
import Kfx.Settings.Json
import Kfx.Source.Position
import Kfx.Stage.Build
import Kfx.Stage.Duration
import Kfx.Stage.Request
import Kfx.Text.Control
import Kfx.Text.GraphemeExtend
import Kfx.Text.Lines
import Kfx.Text.Quoted
import Kfx.Text.Ranges
import Kfx.Text.Unprintable
import Kfx.Token.Basic
import Kfx.Token.Lexer
import Kfx.Proofs.Artifact.Bounds
import Kfx.Proofs.Artifact.Codec
import Kfx.Proofs.Artifact.Decoder
import Kfx.Proofs.Artifact.Layout
import Kfx.Proofs.Artifact.Relink
import Kfx.Proofs.Artifact.RoundTrip
import Kfx.Proofs.Artifact.Trace
import Kfx.Proofs.Batch.Artifacts
import Kfx.Proofs.Batch.Calls
import Kfx.Proofs.Batch.CheckMode
import Kfx.Proofs.Batch.Course
import Kfx.Proofs.Batch.Dumps
import Kfx.Proofs.Batch.Failures
import Kfx.Proofs.Batch.Independence
import Kfx.Proofs.Batch.Overwritten
import Kfx.Proofs.Batch.Schedule
import Kfx.Proofs.CommandLine
import Kfx.Proofs.Compile.Fidelity
import Kfx.Proofs.Difference
import Kfx.Proofs.Difference.Listing
import Kfx.Proofs.Effect.BufferSize
import Kfx.Proofs.Files.Changes
import Kfx.Proofs.Files.Script
import Kfx.Proofs.Files.Tree
import Kfx.Proofs.Glsl.Adapter
import Kfx.Proofs.Glsl.Expansion
import Kfx.Proofs.Glsl.IncludeTree
import Kfx.Proofs.Grammar.Alike
import Kfx.Proofs.Grammar.Composition
import Kfx.Proofs.Grammar.DataTypes
import Kfx.Proofs.Grammar.Displacement
import Kfx.Proofs.Grammar.Ensures
import Kfx.Proofs.Grammar.Events
import Kfx.Proofs.Grammar.Integers
import Kfx.Proofs.Grammar.Masks
import Kfx.Proofs.Grammar.Nesting
import Kfx.Proofs.Grammar.Outline
import Kfx.Proofs.Grammar.Phrases
import Kfx.Proofs.Grammar.Pieces
import Kfx.Proofs.Grammar.Places
import Kfx.Proofs.Grammar.Progress
import Kfx.Proofs.Grammar.PropertyOrder
import Kfx.Proofs.Grammar.QuotedNames
import Kfx.Proofs.Grammar.RawText
import Kfx.Proofs.Grammar.Recognition.Layout
import Kfx.Proofs.Grammar.Recognition.Loop
import Kfx.Proofs.Grammar.Recognition.RenderState
import Kfx.Proofs.Grammar.Recognition.Source
import Kfx.Proofs.Grammar.Run
import Kfx.Proofs.Grammar.Shape
import Kfx.Proofs.Grammar.Simulation
import Kfx.Proofs.Grammar.Terminals
import Kfx.Proofs.Log
import Kfx.Proofs.Number.Integer
import Kfx.Proofs.Number.Literal
import Kfx.Proofs.Path
import Kfx.Proofs.Resolution.Decision
import Kfx.Proofs.Resolution.Frame
import Kfx.Proofs.Resolution.Links
import Kfx.Proofs.Resolution.Repetition
import Kfx.Proofs.Resolution.Requirements
import Kfx.Proofs.Source.Position
import Kfx.Proofs.Stage.Build
import Kfx.Proofs.Stage.Course
import Kfx.Proofs.Stage.Requests
import Kfx.Proofs.Text.Lines
import Kfx.Proofs.Token.Continuation
import Kfx.Proofs.Token.Displacement
import Kfx.Proofs.Token.Places
import Kfx.Proofs.Token.Scan
import Kfx.Proofs.Token.Simulation
import Kfx.Proofs.Token.Spacing
import Kfx.Proofs.Token.Stream
import Kfx.Proofs.Token.Tiling
import Kfx.Proofs.Token.Trivia
import Kfx.Proofs.Token.Utf8
