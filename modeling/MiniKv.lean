import MiniKv.Refinement.Children
import MiniKv.Correctness.Accounting
import MiniKv.Correctness.BackgroundChildren
import MiniKv.Correctness.CircularWait
import MiniKv.Correctness.ClientRegistry
import MiniKv.Correctness.ClientStreams
import MiniKv.Correctness.EvictionProgress
import MiniKv.Correctness.Expiry
import MiniKv.Correctness.FailedCompaction
import MiniKv.Correctness.FailedMutations
import MiniKv.Correctness.Framing
import MiniKv.Correctness.InterleavedRollback
import MiniKv.Correctness.LoadFactor
import MiniKv.Correctness.LockShards
import MiniKv.Correctness.LogOrder
import MiniKv.Correctness.ReplicaBootstrap
import MiniKv.Correctness.ReplicaDispatch
import MiniKv.Correctness.ReplicaReadOnly
import MiniKv.Correctness.Resize
import MiniKv.Correctness.RewriteAccumulation
import MiniKv.Correctness.RewriteBuffer
import MiniKv.Correctness.Rollback
import MiniKv.Correctness.SnapshotCorruption
import MiniKv.Correctness.SnapshotFailure
import MiniKv.Correctness.StreamReassembly
import MiniKv.Correctness.SyncHandshake
import MiniKv.Correctness.ThreadPool
import MiniKv.Correctness.TtlArithmetic
import MiniKv.Correctness.UnloggedRemovals
import MiniKv.Correctness.ValueRoundTrip
