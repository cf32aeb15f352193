import LiveBinding.Code.Artifact
import LiveBinding.Code.FlagLayout
import LiveBinding.Code.Fragment
import LiveBinding.Code.Op
import LiveBinding.Code.Routine
import LiveBinding.Coercion
import LiveBinding.Compile
import LiveBinding.Diagnostic
import LiveBinding.Expr.Basic
import LiveBinding.Expr.Parser
import LiveBinding.Expr.Token
import LiveBinding.Host.Action
import LiveBinding.Host.Arithmetic
import LiveBinding.Host.Binding
import LiveBinding.Host.Builtin
import LiveBinding.Host.Error
import LiveBinding.Host.Instance
import LiveBinding.Host.Machine
import LiveBinding.Host.Registry
import LiveBinding.Host.Run
import LiveBinding.Host.Script
import LiveBinding.Host.Value
import LiveBinding.Host.World
import LiveBinding.Image.Codec
import LiveBinding.Image.Op
import LiveBinding.Image.Site
import LiveBinding.Literal
import LiveBinding.Number.Decimal
import LiveBinding.Number.Floating
import LiveBinding.Number.Integer
import LiveBinding.Number.Shortest
import LiveBinding.Number.Style
import LiveBinding.Operator
import LiveBinding.Render.Container
import LiveBinding.Render.Resumable
import LiveBinding.Render.Storage
import LiveBinding.Render.Strategy
import LiveBinding.Span
import LiveBinding.Text.Blank
import LiveBinding.Text.Case
import LiveBinding.Text.Cased
import LiveBinding.Text.Hex
import LiveBinding.Text.Letter
import LiveBinding.Text.Printable
import LiveBinding.Text.Quoted
import LiveBinding.Text.Slice
import LiveBinding.Text.Stride
import LiveBinding.Tree.Build
import LiveBinding.Tree.Fold
import LiveBinding.Tree.Node
import LiveBinding.Tree.Overload
import LiveBinding.Tree.Scope
import LiveBinding.Types.Member
import LiveBinding.Types.Model
import LiveBinding.Types.Naming
import LiveBinding.Types.Ty
import LiveBinding.Unit.Basic
import LiveBinding.Unit.Options
import LiveBinding.Unit.Session
import LiveBinding.Proofs.Assembly
import LiveBinding.Proofs.Instruction
import LiveBinding.Proofs.Structured
import LiveBinding.Proofs.Execution
import LiveBinding.Proofs.Rendering
import LiveBinding.Proofs.Storage
import LiveBinding.Proofs.Dispatch
import LiveBinding.Proofs.Routines
import LiveBinding.Proofs.Triple
import LiveBinding.Proofs.Quiet
import LiveBinding.Proofs.Subscription
import LiveBinding.Proofs.Bookkeeping
import LiveBinding.Proofs.Denotation
import LiveBinding.Proofs.Resumption
import LiveBinding.Proofs.Change
import LiveBinding.Proofs.Typing
import LiveBinding.Proofs.Conversion
import LiveBinding.Proofs.Meaning
import LiveBinding.Proofs.Agreement
import LiveBinding.Proofs.Evaluation
import LiveBinding.Proofs.Strategies
import LiveBinding.Proofs.Order
import LiveBinding.Proofs.Running
import LiveBinding.Proofs.Updating
import LiveBinding.Proofs.Conformance
import LiveBinding.Proofs.Loading
import LiveBinding.Proofs.Direct
import LiveBinding.Proofs.Creation
import LiveBinding.Proofs.FirstValue
import LiveBinding.Proofs.Simulation
import LiveBinding.Proofs.Labels
import LiveBinding.Proofs.Settling
import LiveBinding.Proofs.Incremental
import LiveBinding.Proofs.Reentrant
import LiveBinding.Proofs.Nesting
import LiveBinding.Proofs.Forward
import LiveBinding.Proofs.Halting
import LiveBinding.Proofs.Destination
import LiveBinding.Proofs.Sparing
import LiveBinding.Proofs.Locks
import LiveBinding.Proofs.Masking
import LiveBinding.Proofs.Layouts
import LiveBinding.Proofs.Flags
import LiveBinding.Proofs.Outcome
import LiveBinding.Proofs.Codec
import LiveBinding.Proofs.Image
import LiveBinding.Proofs.Grammar
import LiveBinding.Proofs.Arena
import LiveBinding.Proofs.Written
import LiveBinding.Proofs.Parsing
import LiveBinding.Proofs.Attributes
import LiveBinding.Proofs.Sessions
import LiveBinding.Proofs.Cycles
import LiveBinding.Proofs.Folding
import LiveBinding.Proofs.Folded
import LiveBinding.Proofs.FoldedBinding
import LiveBinding.Proofs.Operands
import LiveBinding.Proofs.Operations
import LiveBinding.Proofs.FoldedOperations
import LiveBinding.Proofs.Reads
import LiveBinding.Proofs.NodeReads
import LiveBinding.Proofs.Subscribers
import LiveBinding.Proofs.Coercions
import LiveBinding.Proofs.LiteralText
import LiveBinding.Proofs.Numbering
import LiveBinding.Proofs.Summaries
import LiveBinding.Proofs.Steady
import LiveBinding.Proofs.Overloads
import LiveBinding.Proofs.Accessibility
import LiveBinding.Proofs.Idle
import LiveBinding.Proofs.Cells
import LiveBinding.Proofs.Scanning
import LiveBinding.Proofs.Places
import LiveBinding.Proofs.Pointing
import LiveBinding.Proofs.StackEffect
import LiveBinding.Proofs.Depths
import LiveBinding.Proofs.StackMap
import LiveBinding.Proofs.Balance
import LiveBinding.Proofs.Placements
import LiveBinding.Proofs.Lineage
import LiveBinding.Proofs.Tiling
import LiveBinding.Proofs.Judgement
import LiveBinding.Proofs.TypedCode
import LiveBinding.Proofs.Heap
import LiveBinding.Proofs.Contracts
import LiveBinding.Proofs.HostSafety
import LiveBinding.Proofs.CodeSafety
import LiveBinding.Proofs.UpdateSafety
import LiveBinding.Proofs.CreationSafety
import LiveBinding.Proofs.CompiledSafety
import LiveBinding.Proofs.TypeSafety
