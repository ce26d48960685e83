import LayeredCache.Main
import LayeredCache.Session.Run
import LayeredCache.Key.Workbench
import LayeredCache.Proofs.Capacity
import LayeredCache.Proofs.Ownership
import LayeredCache.Proofs.Coherence
import LayeredCache.Proofs.Leasing.Liveness
import LayeredCache.Proofs.Leasing.Bookkeeping
import LayeredCache.Proofs.Leasing.Retained
import LayeredCache.Proofs.Transaction.Overlay
import LayeredCache.Proofs.Transaction.Populator
import LayeredCache.Proofs.Transaction.Refusal
import LayeredCache.Proofs.Transparency
import LayeredCache.Proofs.Freshness
import LayeredCache.Proofs.Transaction.Departure
import LayeredCache.Proofs.Transaction.Product
import LayeredCache.Proofs.Transaction.Order
import LayeredCache.Proofs.Assembly
import LayeredCache.Proofs.Key.Equality
import LayeredCache.Proofs.Configuration
import LayeredCache.Proofs.Waiting
import LayeredCache.Proofs.Bounded.MoveToFront
import LayeredCache.Proofs.Bounded.WriteOrder
import LayeredCache.Proofs.Bounded.Inclusion
import LayeredCache.Proofs.Key.PrefixFree
import LayeredCache.Proofs.Key.Accumulators
import LayeredCache.Proofs.Forfeits
import LayeredCache.Proofs.Settings
import LayeredCache.Proofs.Transaction.Retry
import LayeredCache.Proofs.Bounded.Eviction
import LayeredCache.Proofs.Workload.Accounts
import LayeredCache.Proofs.LineFormat
import LayeredCache.Proofs.Recency.Slab
import LayeredCache.Proofs.Bounded.Shrink
