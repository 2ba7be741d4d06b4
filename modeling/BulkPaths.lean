import BulkPaths.Main
import BulkPaths.Session
import BulkPaths.Proofs.Canonical
import BulkPaths.Proofs.SeveralTargets
import BulkPaths.Proofs.SingleTarget
import BulkPaths.Proofs.Delivery
import BulkPaths.Proofs.Interleavings
import BulkPaths.Proofs.EarlyStop
import BulkPaths.Proofs.Lockstep
import BulkPaths.Proofs.DeadEnds
import BulkPaths.Proofs.RejectedEdges
import BulkPaths.Proofs.Bounds
import BulkPaths.Proofs.WrittenRows
import BulkPaths.Proofs.Copies
import BulkPaths.Proofs.Options
import BulkPaths.Proofs.Owners
import BulkPaths.Proofs.PathTree
import BulkPaths.Proofs.FaithfulIds
import BulkPaths.Proofs.TargetTexts
import BulkPaths.Proofs.MessageRanks
import BulkPaths.Proofs.Summaries
import BulkPaths.Proofs.Separators
import BulkPaths.Proofs.Batches
import BulkPaths.Proofs.Bookkeeping
import BulkPaths.Proofs.Reruns
import BulkPaths.Proofs.TargetGrammar
import BulkPaths.Proofs.LoneTails
import BulkPaths.Proofs.VertexCalls
import BulkPaths.Proofs.PathMemory
import BulkPaths.Proofs.Registries
