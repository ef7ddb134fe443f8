import Aura.Adaptive.Batch
import Aura.Adaptive.Buckets
import Aura.Adaptive.Passthrough
import Aura.Adaptive.Snapshot
import Aura.Adaptive.Spikes
import Aura.Bffio.Accounts
import Aura.Bffio.ContextPool
import Aura.Bffio.JobFile
import Aura.Bffio.Recording
import Aura.Bffio.WorkerLatency
import Aura.Bffio.WorkerOffsets
import Aura.Buffer.EngineBuffers
import Aura.Buffer.SizeClasses
import Aura.Copy.Correct
import Aura.Cpp.CallbackPool
import Aura.Engine.Atomic
import Aura.Engine.Chain
import Aura.Engine.Loops
import Aura.Engine.Tables
import Aura.Engine.Unregister
import Aura.Engine.Wait
import Aura.Engine.Fatal
import Aura.Engine.Normal
import Aura.Engine.NoCallback
import Aura.Engine.Spill
import Aura.Handover.Exclusive
import Aura.Hash.Content
import Aura.Ring.Lifecycle
import Aura.Ring.Queued
import Aura.Rust.Futures
import Aura.Sspa.Regions
import Aura.ThreadCache.Teardown
import Aura.Tree.Aggregate
import Aura.Tree.Caches
import Aura.Tree.Complete
import Aura.Tree.Contexts
import Aura.Tree.Footer
import Aura.Tree.Free
import Aura.Tree.VisitedOnce
import Aura.ThreadCache.Freed
