import TreeFlow.Command.Directory
import TreeFlow.Command.Options
import TreeFlow.Command.Session
import TreeFlow.Config
import TreeFlow.Config.Format
import TreeFlow.Diagnostic.Kind
import TreeFlow.Diagnostic.Queue
import TreeFlow.Diagnostic.Report
import TreeFlow.Flow.Basic
import TreeFlow.Flow.Builder
import TreeFlow.Flow.Convert
import TreeFlow.Flow.Fold
import TreeFlow.Flow.Order
import TreeFlow.Flow.Text
import TreeFlow.Flow.Trace
import TreeFlow.Json.Basic
import TreeFlow.Json.Reader
import TreeFlow.Json.Scalar
import TreeFlow.Lower.Arithmetic
import TreeFlow.Lower.Basic
import TreeFlow.Lower.Conversion
import TreeFlow.Lower.Declarator
import TreeFlow.Lower.Depth
import TreeFlow.Lower.Descent
import TreeFlow.Lower.Expression
import TreeFlow.Lower.Function
import TreeFlow.Lower.Spec
import TreeFlow.Lower.Startup
import TreeFlow.Lower.Statement
import TreeFlow.Lower.Unit
import TreeFlow.Lower.Value
import TreeFlow.Lower.Variable
import TreeFlow.Machine.Evaluate
import TreeFlow.Machine.Library
import TreeFlow.Machine.Memory
import TreeFlow.Machine.Printing
import TreeFlow.Machine.Run
import TreeFlow.Machine.Step
import TreeFlow.Machine.Value
import TreeFlow.Machine.World
import TreeFlow.Main
import TreeFlow.Number.Binary64
import TreeFlow.Number.Fixed
import TreeFlow.Number.Reading
import TreeFlow.Number.Shortest
import TreeFlow.Number.Signed
import TreeFlow.Proofs.Graph.Actions
import TreeFlow.Proofs.Graph.Aggregates
import TreeFlow.Proofs.Graph.Arranging
import TreeFlow.Proofs.Graph.Basic
import TreeFlow.Proofs.Graph.Continuing
import TreeFlow.Proofs.Graph.Conversion
import TreeFlow.Proofs.Graph.Cursor
import TreeFlow.Proofs.Graph.Dominance
import TreeFlow.Proofs.Graph.Finished
import TreeFlow.Proofs.Graph.Fronted
import TreeFlow.Proofs.Graph.Proper
import TreeFlow.Proofs.Graph.Restoring
import TreeFlow.Proofs.Graph.Retained
import TreeFlow.Proofs.Graph.Tidy
import TreeFlow.Proofs.Graph.Typing
import TreeFlow.Proofs.Graph.Visiting
import TreeFlow.Proofs.Graph.WellFormed
import TreeFlow.Proofs.Graph.Writing
import TreeFlow.Proofs.Lowering.Advance
import TreeFlow.Proofs.Lowering.Basic
import TreeFlow.Proofs.Lowering.Body
import TreeFlow.Proofs.Lowering.Calculating
import TreeFlow.Proofs.Lowering.Closing
import TreeFlow.Proofs.Lowering.ControlFlow
import TreeFlow.Proofs.Lowering.Converting
import TreeFlow.Proofs.Lowering.Declaring
import TreeFlow.Proofs.Lowering.Deepening
import TreeFlow.Proofs.Lowering.Definite
import TreeFlow.Proofs.Lowering.Draining
import TreeFlow.Proofs.Lowering.Emit
import TreeFlow.Proofs.Lowering.Expression
import TreeFlow.Proofs.Lowering.Following
import TreeFlow.Proofs.Lowering.Fork
import TreeFlow.Proofs.Lowering.Fronted
import TreeFlow.Proofs.Lowering.FrontedStatement
import TreeFlow.Proofs.Lowering.Fronting
import TreeFlow.Proofs.Lowering.Globally
import TreeFlow.Proofs.Lowering.Grouping
import TreeFlow.Proofs.Lowering.Growth
import TreeFlow.Proofs.Lowering.Joining
import TreeFlow.Proofs.Lowering.Labels
import TreeFlow.Proofs.Lowering.Lasting
import TreeFlow.Proofs.Lowering.Layout
import TreeFlow.Proofs.Lowering.Names
import TreeFlow.Proofs.Lowering.Operators
import TreeFlow.Proofs.Lowering.Overlooking
import TreeFlow.Proofs.Lowering.Peeking
import TreeFlow.Proofs.Lowering.Pending
import TreeFlow.Proofs.Lowering.Place
import TreeFlow.Proofs.Lowering.PointerSteps
import TreeFlow.Proofs.Lowering.Pointers
import TreeFlow.Proofs.Lowering.Probing
import TreeFlow.Proofs.Lowering.Proper
import TreeFlow.Proofs.Lowering.ProperExpression
import TreeFlow.Proofs.Lowering.ProperStatement
import TreeFlow.Proofs.Lowering.Ranging
import TreeFlow.Proofs.Lowering.Reached
import TreeFlow.Proofs.Lowering.Regions
import TreeFlow.Proofs.Lowering.Regular
import TreeFlow.Proofs.Lowering.RegularExpression
import TreeFlow.Proofs.Lowering.RegularStatement
import TreeFlow.Proofs.Lowering.Reporting
import TreeFlow.Proofs.Lowering.Resembling
import TreeFlow.Proofs.Lowering.Selection
import TreeFlow.Proofs.Lowering.Settling
import TreeFlow.Proofs.Lowering.Sharing
import TreeFlow.Proofs.Lowering.ShortCircuit
import TreeFlow.Proofs.Lowering.Site
import TreeFlow.Proofs.Lowering.Sound
import TreeFlow.Proofs.Lowering.Spanning
import TreeFlow.Proofs.Lowering.Sprouting
import TreeFlow.Proofs.Lowering.Statement
import TreeFlow.Proofs.Lowering.Steady
import TreeFlow.Proofs.Lowering.Strictness
import TreeFlow.Proofs.Lowering.Structure
import TreeFlow.Proofs.Lowering.Tags
import TreeFlow.Proofs.Lowering.Targets
import TreeFlow.Proofs.Lowering.Termination
import TreeFlow.Proofs.Lowering.Typed
import TreeFlow.Proofs.Lowering.TypedDeclarator
import TreeFlow.Proofs.Lowering.TypedExpression
import TreeFlow.Proofs.Lowering.TypedFunction
import TreeFlow.Proofs.Lowering.TypedStatement
import TreeFlow.Proofs.Lowering.TypedValue
import TreeFlow.Proofs.Lowering.Types
import TreeFlow.Proofs.Lowering.Undoing
import TreeFlow.Proofs.Lowering.Ways
import TreeFlow.Proofs.Lowering.Written
import TreeFlow.Proofs.Machine.Access
import TreeFlow.Proofs.Machine.Basic
import TreeFlow.Proofs.Machine.Bounds
import TreeFlow.Proofs.Machine.Bytes
import TreeFlow.Proofs.Machine.Casting
import TreeFlow.Proofs.Machine.Distances
import TreeFlow.Proofs.Machine.Effects
import TreeFlow.Proofs.Machine.Encoding
import TreeFlow.Proofs.Machine.Exactness
import TreeFlow.Proofs.Machine.Fitting
import TreeFlow.Proofs.Machine.Folding
import TreeFlow.Proofs.Machine.Leaving
import TreeFlow.Proofs.Machine.Missing
import TreeFlow.Proofs.Machine.Passes
import TreeFlow.Proofs.Machine.Phis
import TreeFlow.Proofs.Machine.Pieces
import TreeFlow.Proofs.Machine.Ranges
import TreeFlow.Proofs.Machine.Region
import TreeFlow.Proofs.Machine.Retrieval
import TreeFlow.Proofs.Machine.Separate
import TreeFlow.Proofs.Machine.Slots
import TreeFlow.Proofs.Machine.Storage
import TreeFlow.Proofs.Machine.Strict
import TreeFlow.Proofs.Machine.Truth
import TreeFlow.Proofs.Scope.Actions
import TreeFlow.Proofs.Scope.Frames
import TreeFlow.Proofs.Scope.Layers
import TreeFlow.Proofs.Scope.Leaving
import TreeFlow.Proofs.Scope.Paths
import TreeFlow.Proofs.Scope.Resolution
import TreeFlow.Proofs.Tree.Children
import TreeFlow.Proofs.Tree.Cycles
import TreeFlow.Proofs.Tree.Execution
import TreeFlow.Proofs.Tree.RoundTrip
import TreeFlow.Proofs.Tree.Stored
import TreeFlow.Proofs.Tree.Trimming
import TreeFlow.Proofs.Ty.Alignment
import TreeFlow.Proofs.Ty.Fields
import TreeFlow.Proofs.Ty.Keys
import TreeFlow.Proofs.Ty.Layers
import TreeFlow.Proofs.Ty.Sizes
import TreeFlow.Scope.Path
import TreeFlow.Scope.Stack
import TreeFlow.Text.Quoted
import TreeFlow.Text.Unprintable
import TreeFlow.Text.Utf8
import TreeFlow.Tree.Basic
import TreeFlow.Tree.Builder
import TreeFlow.Tree.File
import TreeFlow.Tree.Format
import TreeFlow.Tree.Handles
import TreeFlow.Ty.Aggregate
import TreeFlow.Ty.Basic
import TreeFlow.Ty.Layout
import TreeFlow.Yaml.Cursor
import TreeFlow.Yaml.Node
import TreeFlow.Yaml.Reader
import TreeFlow.Yaml.Scalar
import TreeFlow.Yaml.Token
import TreeFlow.Yaml.Tokens
