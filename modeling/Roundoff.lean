import Roundoff.Affine
import Roundoff.Aggregate.Objects
import Roundoff.Aggregate.Tree
import Roundoff.Analysis.CallOrder
import Roundoff.Analysis.Calls
import Roundoff.Analysis.Findings
import Roundoff.Analysis.Report
import Roundoff.Analysis.Session
import Roundoff.ClosedForm.Bound
import Roundoff.ClosedForm.Bounds
import Roundoff.ClosedForm.DenseMatrix
import Roundoff.ClosedForm.Evaluation
import Roundoff.ClosedForm.Expr
import Roundoff.ClosedForm.Obstacle
import Roundoff.ClosedForm.Shape
import Roundoff.ClosedForm.System
import Roundoff.Decimal.Double
import Roundoff.Decimal.Shortest
import Roundoff.Decimal.Text
import Roundoff.Elementary
import Roundoff.Flow.Graph
import Roundoff.Flow.Loop
import Roundoff.Flow.Schedule
import Roundoff.Format
import Roundoff.Json
import Roundoff.Json.Codec
import Roundoff.Memory.Origin
import Roundoff.Memory.Sources
import Roundoff.Memory.States
import Roundoff.Noise
import Roundoff.Number
import Roundoff.Number.Double
import Roundoff.Program.Annotation
import Roundoff.Program.Builder
import Roundoff.Program.Function
import Roundoff.Program.Instruction
import Roundoff.Program.Module
import Roundoff.Program.Text
import Roundoff.Program.Type
import Roundoff.Program.Validity
import Roundoff.Program.Value
import Roundoff.Proofs.Affine.Noise
import Roundoff.Proofs.Affine.Norm
import Roundoff.Proofs.Affine.Order
import Roundoff.Proofs.Affine.Pairs
import Roundoff.Proofs.Affine.Programs
import Roundoff.Proofs.Affine.Size
import Roundoff.Proofs.Affine.Value
import Roundoff.Proofs.Affine.WellFormed
import Roundoff.Proofs.Aggregate.Annotations
import Roundoff.Proofs.Aggregate.Arena
import Roundoff.Proofs.Aggregate.Exploration
import Roundoff.Proofs.Aggregate.Fields
import Roundoff.Proofs.Aggregate.Leaves
import Roundoff.Proofs.Aggregate.Links
import Roundoff.Proofs.Aggregate.Paths
import Roundoff.Proofs.Aggregate.Updates
import Roundoff.Proofs.Analysis.Activations
import Roundoff.Proofs.Analysis.Arguments
import Roundoff.Proofs.Analysis.Atomicity
import Roundoff.Proofs.Analysis.Beginnings
import Roundoff.Proofs.Analysis.Budget
import Roundoff.Proofs.Analysis.CallEntries
import Roundoff.Proofs.Analysis.CallOrder
import Roundoff.Proofs.Analysis.Completed
import Roundoff.Proofs.Analysis.FieldAccess
import Roundoff.Proofs.Analysis.Formats
import Roundoff.Proofs.Analysis.Globals
import Roundoff.Proofs.Analysis.Growth
import Roundoff.Proofs.Analysis.Invariants
import Roundoff.Proofs.Analysis.Labels
import Roundoff.Proofs.Analysis.MergedValues
import Roundoff.Proofs.Analysis.Merging
import Roundoff.Proofs.Analysis.Outcomes
import Roundoff.Proofs.Analysis.PassedObjects
import Roundoff.Proofs.Analysis.PointerChases
import Roundoff.Proofs.Analysis.Rangeless
import Roundoff.Proofs.Analysis.Refusals
import Roundoff.Proofs.Analysis.Resolution
import Roundoff.Proofs.Analysis.Returned
import Roundoff.Proofs.Analysis.Stack
import Roundoff.Proofs.Analysis.Termination
import Roundoff.Proofs.Analysis.UnderWay
import Roundoff.Proofs.Analysis.WalkOrder
import Roundoff.Proofs.Analysis.WellFormed
import Roundoff.Proofs.Analysis.WorstCases
import Roundoff.Proofs.ClosedForm.Shape
import Roundoff.Proofs.ClosedForm.Trajectory
import Roundoff.Proofs.Elementary.Derivative
import Roundoff.Proofs.Elementary.Linearization
import Roundoff.Proofs.Expr.Derivative
import Roundoff.Proofs.Expr.Enclosure
import Roundoff.Proofs.Expr.Recursion
import Roundoff.Proofs.Expr.Simplification
import Roundoff.Proofs.Expr.Stacks
import Roundoff.Proofs.Expr.Tightening
import Roundoff.Proofs.Expr.Value
import Roundoff.Proofs.Flow.Depth
import Roundoff.Proofs.Flow.Expansion
import Roundoff.Proofs.Flow.Fallback
import Roundoff.Proofs.Flow.Forest
import Roundoff.Proofs.Flow.Loops
import Roundoff.Proofs.Flow.NaturalLoop
import Roundoff.Proofs.Flow.Order
import Roundoff.Proofs.Flow.Paths
import Roundoff.Proofs.Flow.Scopes
import Roundoff.Proofs.Flow.Search
import Roundoff.Proofs.Flow.VisitOrder
import Roundoff.Proofs.Flow.Walk
import Roundoff.Proofs.Json.Codec
import Roundoff.Proofs.Json.Text
import Roundoff.Proofs.Json.Tokens
import Roundoff.Proofs.Loop.Chains
import Roundoff.Proofs.Loop.Exits
import Roundoff.Proofs.Loop.Linear
import Roundoff.Proofs.Loop.Locality
import Roundoff.Proofs.Loop.Pass
import Roundoff.Proofs.Loop.Rules
import Roundoff.Proofs.Loop.Settle
import Roundoff.Proofs.Loop.Simulation
import Roundoff.Proofs.Loop.Symbols
import Roundoff.Proofs.Loop.System
import Roundoff.Proofs.Loop.Unrolling
import Roundoff.Proofs.Matrix.Algebra
import Roundoff.Proofs.Matrix.Inverse
import Roundoff.Proofs.Matrix.Recurrence
import Roundoff.Proofs.Memory.Address
import Roundoff.Proofs.Memory.Aliasing
import Roundoff.Proofs.Memory.Blocks
import Roundoff.Proofs.Memory.Calls
import Roundoff.Proofs.Memory.Chase
import Roundoff.Proofs.Memory.Effects
import Roundoff.Proofs.Memory.Instructions
import Roundoff.Proofs.Memory.Reaching
import Roundoff.Proofs.Memory.Sources
import Roundoff.Proofs.Memory.Walk
import Roundoff.Proofs.Number.DoubleOrder
import Roundoff.Proofs.Number.Exact
import Roundoff.Proofs.Program.Bodies
import Roundoff.Proofs.Program.Construction
import Roundoff.Proofs.Program.Positions
import Roundoff.Proofs.Program.Text
import Roundoff.Proofs.Program.Validity
import Roundoff.Proofs.Range
import Roundoff.Proofs.Range.Hull
import Roundoff.Proofs.Range.Intervals
import Roundoff.Proofs.Settings.Document
import Roundoff.Proofs.Store
import Roundoff.Proofs.Store.Edits
import Roundoff.Proofs.Store.Estimates
import Roundoff.Proofs.Store.Sorted
import Roundoff.Proofs.Store.Targets
import Roundoff.Proofs.Store.WorstErrors
import Roundoff.Proofs.Transfer.Arithmetic
import Roundoff.Proofs.Transfer.CallLog
import Roundoff.Proofs.Transfer.Comparison
import Roundoff.Proofs.Transfer.Computation
import Roundoff.Proofs.Transfer.Events
import Roundoff.Proofs.Transfer.Execution
import Roundoff.Proofs.Transfer.Footprint
import Roundoff.Proofs.Transfer.Formats
import Roundoff.Proofs.Transfer.Frame
import Roundoff.Proofs.Transfer.Moments
import Roundoff.Proofs.Transfer.Products
import Roundoff.Proofs.Transfer.Returns
import Roundoff.Proofs.Transfer.Rules
import Roundoff.Proofs.Transfer.Runs
import Roundoff.Proofs.Transfer.Settling
import Roundoff.Proofs.Transfer.Simulation
import Roundoff.Proofs.Transfer.Soundness
import Roundoff.Proofs.Transfer.Steps
import Roundoff.Proofs.Transfer.Verdicts
import Roundoff.Proofs.Transfer.Visits
import Roundoff.Proofs.Yaml.Lines
import Roundoff.Proofs.Yaml.Nodes
import Roundoff.Proofs.Yaml.Words
import Roundoff.Range
import Roundoff.Settings
import Roundoff.Settings.Document
import Roundoff.Settings.Json
import Roundoff.Store
import Roundoff.Store.Targets
import Roundoff.Table
import Roundoff.Transfer.Arithmetic
import Roundoff.Transfer.Call
import Roundoff.Transfer.Comparison
import Roundoff.Transfer.Fault
import Roundoff.Transfer.Memory
import Roundoff.Transfer.Merge
import Roundoff.Transfer.Operand
import Roundoff.Transfer.Step
import Roundoff.Yaml.Cursor
import Roundoff.Yaml.Node
import Roundoff.Yaml.Scalar
import Roundoff.Yaml.Tag
import Roundoff.Yaml.Token
import Roundoff.Proofs.Range.Hull
import Roundoff.Proofs.Range.Intervals
