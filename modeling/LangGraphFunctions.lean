import LangGraphFunctions.Platform.Config
import LangGraphFunctions.Stores.Renewal
import LangGraphFunctions.Lib.JsonLaws
import LangGraphFunctions.Lib.Names
import LangGraphFunctions.Lib.Percent
import LangGraphFunctions.Locks.Hygiene
import LangGraphFunctions.Locks.LeaseRuns
import LangGraphFunctions.Locks.Ownership
import LangGraphFunctions.Durable.LockedThread
import LangGraphFunctions.Durable.Completion
import LangGraphFunctions.Lifecycle
import LangGraphFunctions.Native.Parity
import LangGraphFunctions.Platform.Metadata
import LangGraphFunctions.Platform.StreamFraming
import LangGraphFunctions.Checkpointers.RetentionRuns
import LangGraphFunctions.Checkpointers.CollectionRuns
import LangGraphFunctions.Checkpointers.Enumeration
import LangGraphFunctions.Checkpointers.PendingWrites
import LangGraphFunctions.Stores.Headroom
import LangGraphFunctions.Locks.AzureBlob
import LangGraphFunctions.InputStructure
import LangGraphFunctions.Identifiers
import LangGraphFunctions.Checkpointers.Versions
import LangGraphFunctions.Platform.Guards
import LangGraphFunctions.Durable.Polling
import LangGraphFunctions.Platform.History
import LangGraphFunctions.Registration
import LangGraphFunctions.Locks.LeaseLoss
import LangGraphFunctions.Checkpointers.Latest
import LangGraphFunctions.Checkpointers.AtomicPut
import LangGraphFunctions.Checkpointers.Isolation
import LangGraphFunctions.Checkpointers.GuardedWrites
import LangGraphFunctions.Checkpointers.CollectionRaces
import LangGraphFunctions.Checkpointers.CollectionAudit
import LangGraphFunctions.Platform.StateUpdate
import LangGraphFunctions.Platform.LockAccounts
import LangGraphFunctions.Platform.RunLocks
import LangGraphFunctions.Lib.JsonRender
import LangGraphFunctions.Stores.RowRecords
import LangGraphFunctions.Stores.Listing
import LangGraphFunctions.Stores.Refinement
import LangGraphFunctions.Stores.Replays
import LangGraphFunctions.Stores.Agreement
import LangGraphFunctions.Native.TrueStream
import LangGraphFunctions.Native.StreamLives
import LangGraphFunctions.Native.StreamTales
import LangGraphFunctions.Native.SyncIterator
import LangGraphFunctions.Platform.LockPairs
import LangGraphFunctions.Platform.LockReturns
import LangGraphFunctions.Platform.StateReleases
import LangGraphFunctions.GraphLocks
import LangGraphFunctions.Readiness
import LangGraphFunctions.Platform.RunReleases
