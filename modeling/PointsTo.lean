import PointsTo.Proofs.Accounting
import PointsTo.Proofs.Atomicity
import PointsTo.Proofs.Bounds
import PointsTo.Proofs.Call.Owner
import PointsTo.Proofs.Canonical
import PointsTo.Proofs.Checked
import PointsTo.Proofs.ConstraintGraph.Index
import PointsTo.Proofs.Gathered
import PointsTo.Proofs.IdSet.Finite
import PointsTo.Proofs.Inclusion
import PointsTo.Proofs.Memory
import PointsTo.Proofs.Partition.Annotation
import PointsTo.Proofs.Partition.Run
import PointsTo.Proofs.Partition.Universe
import PointsTo.Proofs.Placement
import PointsTo.Proofs.Progress
import PointsTo.Proofs.Reentry
import PointsTo.Proofs.Resumption
import PointsTo.Proofs.Session
import PointsTo.Proofs.Settings.Text
import PointsTo.Proofs.Sharing
import PointsTo.Proofs.Snapshot.Alias
import PointsTo.Proofs.Stability
import PointsTo.Proofs.Worklist.History
import PointsTo.Session
import PointsTo.Settings.Text
import PointsTo.Solver.Describe
import PointsTo.Solver.Playback
