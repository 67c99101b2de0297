import ContextIntelligence.Blobs.Leases
import ContextIntelligence.Blobs.Offload
import ContextIntelligence.Blobs.Safety
import ContextIntelligence.Claims.Store
import ContextIntelligence.Deletion.Apply
import ContextIntelligence.Deletion.Scope
import ContextIntelligence.Drain.Completeness
import ContextIntelligence.Drain.FlushGate
import ContextIntelligence.Drain.TransientRetry
import ContextIntelligence.Handlers.RecipeNesting
import ContextIntelligence.Handlers.SelfAgent
import ContextIntelligence.Identity.Draining
import ContextIntelligence.Identity.Store
import ContextIntelligence.Ingest.Idempotency
import ContextIntelligence.Pipeline.Conservation
import ContextIntelligence.Pipeline.Partition
import ContextIntelligence.Pipeline.Seeding
import ContextIntelligence.Queue.DeletionCrash
import ContextIntelligence.Queue.Framing
import ContextIntelligence.Queue.Guards
import ContextIntelligence.Queue.Interleaving
import ContextIntelligence.Queue.Migration
import ContextIntelligence.Queue.Reconcile
import ContextIntelligence.Queue.Replay
import ContextIntelligence.Recovery.Evidence
import ContextIntelligence.Recovery.LiveFirst
import ContextIntelligence.Recovery.Settlement
import ContextIntelligence.Retention.JobProtocol
import ContextIntelligence.Retention.ScheduledRuns
import ContextIntelligence.Sessions.Incomplete
import ContextIntelligence.Sessions.Iterations
import ContextIntelligence.Sessions.LastUpdated
import ContextIntelligence.Sessions.WriteOnce
import ContextIntelligence.Store.FailedFlush
import ContextIntelligence.Store.Refinement
