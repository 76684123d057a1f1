import MiniC.Arithmetic
import MiniC.Bindings
import MiniC.Builtin
import MiniC.CallStack
import MiniC.CommandLine
import MiniC.Context
import MiniC.Eval
import MiniC.Evaluation
import MiniC.Event
import MiniC.Execution
import MiniC.Expr
import MiniC.FileTree
import MiniC.Grammar.Basic
import MiniC.Grammar.Expression
import MiniC.Grammar.Program
import MiniC.Grammar.Statement
import MiniC.Heap
import MiniC.Heap.History
import MiniC.Heap.Record
import MiniC.Input
import MiniC.Intrinsic
import MiniC.Location
import MiniC.Machine
import MiniC.Main
import MiniC.Operator
import MiniC.Output
import MiniC.Printer
import MiniC.Program
import MiniC.Proofs.Abbreviations
import MiniC.Proofs.Accounting
import MiniC.Proofs.Activations
import MiniC.Proofs.Agreement
import MiniC.Proofs.Attachment
import MiniC.Proofs.CallTypes
import MiniC.Proofs.CharRange
import MiniC.Proofs.Completion
import MiniC.Proofs.Confinement
import MiniC.Proofs.Coverage
import MiniC.Proofs.Directives
import MiniC.Proofs.Discipline
import MiniC.Proofs.Embedding
import MiniC.Proofs.Exchange
import MiniC.Proofs.Following
import MiniC.Proofs.ForLoops
import MiniC.Proofs.Freshness
import MiniC.Proofs.FunctionOrder
import MiniC.Proofs.Gaps
import MiniC.Proofs.InputStream
import MiniC.Proofs.Internal
import MiniC.Proofs.Invariant
import MiniC.Proofs.Isolation
import MiniC.Proofs.Items
import MiniC.Proofs.Levels
import MiniC.Proofs.Lexemes
import MiniC.Proofs.Likeness
import MiniC.Proofs.Limits
import MiniC.Proofs.Linking
import MiniC.Proofs.Loaded
import MiniC.Proofs.Lookups
import MiniC.Proofs.Made
import MiniC.Proofs.Making
import MiniC.Proofs.Memory
import MiniC.Proofs.Nesting
import MiniC.Proofs.Noting
import MiniC.Proofs.Numbering
import MiniC.Proofs.Parsed
import MiniC.Proofs.PointerArithmetic
import MiniC.Proofs.Positions
import MiniC.Proofs.Precedence
import MiniC.Proofs.PrintedText
import MiniC.Proofs.Progress
import MiniC.Proofs.Reading
import MiniC.Proofs.RegionNumbers
import MiniC.Proofs.Regions
import MiniC.Proofs.Remembered
import MiniC.Proofs.Renaming
import MiniC.Proofs.Renumbering
import MiniC.Proofs.Reparse
import MiniC.Proofs.Repetition
import MiniC.Proofs.Replay
import MiniC.Proofs.Resolving
import MiniC.Proofs.Retention
import MiniC.Proofs.Simulation
import MiniC.Proofs.SimulationUpTo
import MiniC.Proofs.SourceFiles
import MiniC.Proofs.StaticTypes
import MiniC.Proofs.StructuredReturn
import MiniC.Proofs.Subscript
import MiniC.Proofs.Supported
import MiniC.Proofs.Typing
import MiniC.Proofs.Uninitialized
import MiniC.Proofs.Unplaced
import MiniC.Proofs.Updates
import MiniC.Proofs.Variables
import MiniC.Proofs.WrittenOut
import MiniC.Proofs.WrittenTokens
import MiniC.Resolution
import MiniC.RuntimeError
import MiniC.Scope
import MiniC.Session
import MiniC.Source
import MiniC.Stmt
import MiniC.Structured
import MiniC.Text.Blank
import MiniC.Text.Decimal
import MiniC.Text.Printable
import MiniC.Text.Quoted
import MiniC.Token
import MiniC.Token.Lexer
import MiniC.Ty
import MiniC.Value
