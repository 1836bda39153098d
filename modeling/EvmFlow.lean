import EvmFlow.Automaton
import EvmFlow.Catalogue
import EvmFlow.Cell
import EvmFlow.Collection.Bag
import EvmFlow.Collection.Grid
import EvmFlow.Collection.Sequence
import EvmFlow.Collection.Series
import EvmFlow.Collection.SortedMap
import EvmFlow.Collection.SortedSet
import EvmFlow.Command
import EvmFlow.Condition
import EvmFlow.Datum
import EvmFlow.Decimal
import EvmFlow.Disassembly
import EvmFlow.Fault
import EvmFlow.FlowGraph.Basic
import EvmFlow.FlowGraph.Dot
import EvmFlow.FlowGraph.StackBound
import EvmFlow.FlowGraph.Stats
import EvmFlow.FlowGraph.Walk
import EvmFlow.Hex
import EvmFlow.Html
import EvmFlow.Instruction.Basic
import EvmFlow.Instruction.Markup
import EvmFlow.Instruction.Precondition
import EvmFlow.Instruction.Statement
import EvmFlow.Instruction.Step
import EvmFlow.Label
import EvmFlow.Main
import EvmFlow.Minimisation
import EvmFlow.Node
import EvmFlow.Obligation
import EvmFlow.Opcode.Basic
import EvmFlow.Opcode.Notes
import EvmFlow.Opcode.Table
import EvmFlow.Options
import EvmFlow.Partition
import EvmFlow.PathGraph.Basic
import EvmFlow.PathGraph.Dot
import EvmFlow.PathGraph.History
import EvmFlow.PathGraph.Loop
import EvmFlow.PathGraph.Numbering
import EvmFlow.Program.Basic
import EvmFlow.Program.Report
import EvmFlow.Proofs.Automaton
import EvmFlow.Ratio
import EvmFlow.Segment.Basic
import EvmFlow.Segment.Listing
import EvmFlow.Segment.Markup
import EvmFlow.State
import EvmFlow.Survey
import EvmFlow.Text.Blank
import EvmFlow.Text.Lines
import EvmFlow.Text.Unassigned
import EvmFlow.Text.Units
import EvmFlow.Word
import EvmFlow.Proofs.Exploration
import EvmFlow.Proofs.Exactness
import EvmFlow.Proofs.EdgeSoundness
import EvmFlow.Proofs.Coverage
import EvmFlow.Proofs.Minimisation
import EvmFlow.Proofs.Condition
import EvmFlow.Proofs.Execution
import EvmFlow.Proofs.Precondition
import EvmFlow.Proofs.Layout
import EvmFlow.Proofs.PathPrecondition
import EvmFlow.Proofs.LoopInvariant
import EvmFlow.Proofs.StackBound
import EvmFlow.Proofs.BoundRounds
import EvmFlow.Proofs.OperandCount
import EvmFlow.Proofs.JumpTarget
import EvmFlow.Proofs.ReachableNodes
import EvmFlow.Proofs.RepresentativeStack
import EvmFlow.Proofs.NodesAndFrames
import EvmFlow.Proofs.DrawnExits
import EvmFlow.Proofs.HexText
import EvmFlow.Proofs.Assembly
import EvmFlow.Proofs.Disassembly
import EvmFlow.Proofs.Splitting
import EvmFlow.Proofs.Addresses
import EvmFlow.Proofs.CodeSize
import EvmFlow.Proofs.RequestedGraph
import EvmFlow.Proofs.Conjunction
import EvmFlow.Proofs.WordEquivalence
import EvmFlow.Proofs.Minimality
import EvmFlow.Proofs.BoundSchedule
import EvmFlow.Proofs.TrackedOrigin
import EvmFlow.Proofs.DepthLimit
import EvmFlow.Proofs.ExitTally
import EvmFlow.Proofs.StackLimit
import EvmFlow.Proofs.EquivalenceClasses
import EvmFlow.Proofs.SegmentEquivalence
import EvmFlow.Proofs.ChangedEntries
import EvmFlow.Proofs.HexNumeral
import EvmFlow.Proofs.NodeNumbering
import EvmFlow.Proofs.DecimalNumeral
import EvmFlow.Proofs.NodeName
