import MemoryCloud.Access.Missing
import MemoryCloud.Activation.Strongest
import MemoryCloud.AgentState.Paging
import MemoryCloud.Bindings.Lanes
import MemoryCloud.Changes.Paging
import MemoryCloud.Chunks.Agree
import MemoryCloud.Chunks.Hits
import MemoryCloud.Chunks.Split
import MemoryCloud.Dedup.Merge
import MemoryCloud.Dedup.Split
import MemoryCloud.Edges.Pending
import MemoryCloud.Edges.Shadowing
import MemoryCloud.Edges.Winner
import MemoryCloud.Embedding.Budget
import MemoryCloud.Embedding.Current
import MemoryCloud.EventIngest.Total
import MemoryCloud.Files.Balance
import MemoryCloud.Guardrails.Delivery
import MemoryCloud.HybridSearch.Respects
import MemoryCloud.Identity.Owners
import MemoryCloud.Indexer.Points
import MemoryCloud.Indexer.Record
import MemoryCloud.Indexer.Room
import MemoryCloud.Indexer.Wakeup
import MemoryCloud.OAuth.Revocation
import MemoryCloud.Ownership.FourEyes
import MemoryCloud.Passwords.Sessions
import MemoryCloud.Passwords.Sweeps
import MemoryCloud.PointDeletes.Kept
import MemoryCloud.Provenance.Descent
import MemoryCloud.Provenance.Emptiness
import MemoryCloud.Provenance.Sessions
import MemoryCloud.Provenance.Truth
import MemoryCloud.Purge.Notices
import MemoryCloud.Purge.Schedule
import MemoryCloud.Quota.Counter
import MemoryCloud.RecallSelection.Inclusion
import MemoryCloud.Recovery.Once
import MemoryCloud.RedirectUri.Pinned
import MemoryCloud.ResponseBudget.Omitted
import MemoryCloud.Rollback.Progress
import MemoryCloud.Secrets.Rotation
import MemoryCloud.Secrets.Tamper
import MemoryCloud.Selector.Partition
import MemoryCloud.SessionIndex.Accounts
import MemoryCloud.SessionIndex.Swept
import MemoryCloud.SparseVector.Terms
import MemoryCloud.SpendCap.Shortfall
import MemoryCloud.SupersedeFold.Result
import MemoryCloud.Tags.Distance
import MemoryCloud.Tags.Groups
import MemoryCloud.TimeTriggers.Windows
import MemoryCloud.Triggers.Separated
import MemoryCloud.Vectors.Alike
