import Cellbook.Main
import Cellbook.Proofs.Emission.Compiled
import Cellbook.Proofs.Emission.Parametric
import Cellbook.Proofs.Emission.Realizes
import Cellbook.Proofs.Formula.Occurrences
import Cellbook.Proofs.Formula.Value
import Cellbook.Proofs.Formula.WellFormed
import Cellbook.Proofs.Graph.Cycles
import Cellbook.Proofs.Graph.Local
import Cellbook.Proofs.Graph.Order
import Cellbook.Proofs.Machine.Aligned
import Cellbook.Proofs.Machine.Depth
import Cellbook.Proofs.Machine.Ends
import Cellbook.Proofs.Machine.Operands
import Cellbook.Proofs.Machine.Outcomes
import Cellbook.Proofs.Notebook.Edit
import Cellbook.Proofs.Notebook.Links
import Cellbook.Proofs.Notebook.Program
import Cellbook.Proofs.Notebook.References
import Cellbook.Proofs.Notebook.Sites
import Cellbook.Proofs.Notebook.Unaffected
import Cellbook.Proofs.Response.Locality
import Cellbook.Proofs.Run.Refines
import Cellbook.Proofs.Value.Calls
import Cellbook.Proofs.Value.Operators
import Cellbook.Proofs.Response.Complete
import Cellbook.Proofs.Emission.Leaves
import Cellbook.Proofs.Notebook.Exact
import Cellbook.Proofs.Machine.Watched
import Cellbook.Proofs.Run.Safe
import Cellbook.Proofs.Value.Fits
import Cellbook.Proofs.Value.Shapes
import Cellbook.Proofs.Machine.Sound
import Cellbook.Proofs.Emission.Shapes
import Cellbook.Proofs.Response.Safe
import Cellbook.Proofs.Text.Lines
import Cellbook.Proofs.Source.Names
import Cellbook.Proofs.Formula.Named
import Cellbook.Proofs.Script.Printer
import Cellbook.Proofs.Script.Writes
import Cellbook.Proofs.Script.Exact
import Cellbook.Proofs.Graph.Reordered
import Cellbook.Proofs.Notebook.Permuted
import Cellbook.Proofs.Machine.Progress
import Cellbook.Proofs.Response.Permuted
import Cellbook.Proofs.Machine.Nesting
import Cellbook.Proofs.Machine.Plain
import Cellbook.Proofs.Response.Bounded
import Cellbook.Proofs.Decimal.Numeral
import Cellbook.Proofs.Value.Reread
import Cellbook.Proofs.Source.Literal
import Cellbook.Proofs.Source.Spelling
import Cellbook.Proofs.Source.Trees
import Cellbook.Proofs.Formula.Says
import Cellbook.Proofs.Emission.Idle
import Cellbook.Proofs.Response.RoundTrip
import Cellbook.Proofs.Graph.Blocked
import Cellbook.Proofs.Notebook.Diagnosed
import Cellbook.Proofs.Notebook.Repeated
import Cellbook.Proofs.Response.Repeated
import Cellbook.Proofs.Source.Recut
import Cellbook.Proofs.Source.Layout
import Cellbook.Proofs.Source.Respaced
import Cellbook.Proofs.Source.Repeats
import Cellbook.Proofs.Source.Operands
import Cellbook.Proofs.Source.Precedence
import Cellbook.Proofs.Graph.Stable
import Cellbook.Proofs.Emission.Fields
import Cellbook.Proofs.Response.Container
import Cellbook.Proofs.Notebook.Renamed
import Cellbook.Proofs.Script.Renamed
import Cellbook.Proofs.Source.Braced
import Cellbook.Proofs.Formula.Bare
import Cellbook.Proofs.Source.Outline
import Cellbook.Proofs.Source.Blocks
import Cellbook.Proofs.Decimal.Remainder
import Cellbook.Proofs.Decimal.Canonical
import Cellbook.Proofs.Decimal.Written
import Cellbook.Proofs.Emission.Overloads
import Cellbook.Proofs.Decimal.Power
import Cellbook.Proofs.Value.Range
import Cellbook.Proofs.Value.Elementwise
import Cellbook.Proofs.Value.Laws
import Cellbook.Proofs.Decimal.Integer
import Cellbook.Proofs.Decimal.PowerOutcome
import Cellbook.Proofs.Value.Indexing
import Cellbook.Proofs.Value.Equality
import Cellbook.Proofs.Value.Objects
import Cellbook.Proofs.Formula.Segments
import Cellbook.Proofs.Formula.Shapes
import Cellbook.Proofs.Source.Tiling
import Cellbook.Proofs.Text.Bytes
import Cellbook.Proofs.Source.Positions
import Cellbook.Proofs.Formula.Faults
import Cellbook.Proofs.Source.LineEnds
import Cellbook.Proofs.Source.LineStarts
import Cellbook.Proofs.Source.Lockstep
import Cellbook.Proofs.Source.BlankLines
import Cellbook.Proofs.Source.Returns
import Cellbook.Proofs.Source.Nested
import Cellbook.Proofs.Emission.Assigned
import Cellbook.Proofs.CommandLine.Lines
import Cellbook.Proofs.Source.Termination
import Cellbook.Proofs.Graph.Inverse
