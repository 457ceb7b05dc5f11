import TensorGraph.ElementType.Record
import TensorGraph.Main
import TensorGraph.Proofs.Accounting
import TensorGraph.Proofs.Bypass
import TensorGraph.Proofs.Dangling
import TensorGraph.Proofs.EarlyReads
import TensorGraph.Proofs.ForwardEdges
import TensorGraph.Proofs.LiteralTypes
import TensorGraph.Proofs.LostEdges
import TensorGraph.Proofs.Moving
import TensorGraph.Proofs.Renaming
import TensorGraph.Proofs.SingleAssignment
import TensorGraph.Proofs.GraphOutputs
import TensorGraph.Proofs.Import.Missed
import TensorGraph.Proofs.NamingErrors
import TensorGraph.Proofs.Import.Late
import TensorGraph.Proofs.LateNames
import TensorGraph.Proofs.UniqueNames
import TensorGraph.Proofs.Isolation
import TensorGraph.Proofs.Forgetting
import TensorGraph.Proofs.SizeVectors
import TensorGraph.Proofs.Contradictions
import TensorGraph.Proofs.SpatialKinds
import TensorGraph.Proofs.UsedInputs
import TensorGraph.Proofs.FusedTypes
import TensorGraph.Proofs.ListedEdges
import TensorGraph.Proofs.LiftedLiterals
import TensorGraph.Proofs.CodedErrors
import TensorGraph.Proofs.GemmLayers
import TensorGraph.Proofs.BroadcastShapes
import TensorGraph.Proofs.ReshapedCounts
import TensorGraph.Proofs.WidenedShapes
import TensorGraph.Proofs.SqueezedAxes
import TensorGraph.Proofs.ReducedAxes
import TensorGraph.Proofs.WindowCounts
import TensorGraph.Proofs.TransposedWindows
import TensorGraph.Proofs.PermutedAxes
import TensorGraph.Proofs.ExecutableOrder
import TensorGraph.Proofs.OmittedOperands
import TensorGraph.Proofs.SparseArrays
import TensorGraph.Proofs.RenamedTwice
import TensorGraph.Proofs.GeneratedOperands
