import OnlineScheduler.System
import OnlineScheduler.Interceptor
import OnlineScheduler.General.Runs
import OnlineScheduler.General.Slots
import OnlineScheduler.Proofs.Chunks
import OnlineScheduler.General.Tiling
import OnlineScheduler.Proofs.Writes
import OnlineScheduler.Proofs.TableInvariant
import OnlineScheduler.Proofs.Ranges
import OnlineScheduler.Proofs.SlotSelection
import OnlineScheduler.Proofs.Splitting
import OnlineScheduler.General.MovingAverage
import OnlineScheduler.Proofs.Averages
import OnlineScheduler.General.Registers
import OnlineScheduler.Proofs.Decisions
import OnlineScheduler.General.Ranking
import OnlineScheduler.Proofs.Listing
import OnlineScheduler.Proofs.Ranked
import OnlineScheduler.Proofs.Pairing
import OnlineScheduler.Proofs.Unmapping
import OnlineScheduler.General.Peaks
import OnlineScheduler.Proofs.Attribution
import OnlineScheduler.Proofs.Heat
import OnlineScheduler.General.Tally
import OnlineScheduler.Preload
import OnlineScheduler.Proofs.Fractions
import OnlineScheduler.General.Greedy
import OnlineScheduler.General.Rounding
import OnlineScheduler.Floats
import OnlineScheduler.Proofs.Promotions
import OnlineScheduler.Proofs.Orders
import OnlineScheduler.Loop
import OnlineScheduler.Proofs.Demotions
import OnlineScheduler.General.Spacing
import OnlineScheduler.Proofs.RateLimit
import OnlineScheduler.Proofs.Refusals
import OnlineScheduler.Proofs.Draining
import OnlineScheduler.General.FirstSeen
import OnlineScheduler.Proofs.StoreCounts
import OnlineScheduler.Proofs.Residence
import OnlineScheduler.Proofs.Accounting
import OnlineScheduler.Proofs.Operations
import OnlineScheduler.Proofs.MemoryLoads
import OnlineScheduler.Proofs.Deduplication
import OnlineScheduler.Proofs.Leftovers
import OnlineScheduler.Proofs.StatusBounds
import OnlineScheduler.TrackMapping
import OnlineScheduler.Proofs.Hotness
import OnlineScheduler.Proofs.Failures
import OnlineScheduler.Proofs.Normalisation
import OnlineScheduler.HashMap
import OnlineScheduler.General.RobinHood
import OnlineScheduler.General.Dictionary
import OnlineScheduler.Proofs.Buckets
import OnlineScheduler.Proofs.HashTable
import OnlineScheduler.Proofs.Iterations
import OnlineScheduler.Proofs.Dictionaries
import OnlineScheduler.HashedSampling
import OnlineScheduler.Proofs.HashedStores
import OnlineScheduler.Startup
import OnlineScheduler.Proofs.Moves
import OnlineScheduler.Proofs.Meetings
import OnlineScheduler.Proofs.Timing
import OnlineScheduler.Proofs.Rendezvous
import OnlineScheduler.Proofs.Deliveries
import OnlineScheduler.Proofs.Faults
import OnlineScheduler.Proofs.Reports
import OnlineScheduler.Memory
import OnlineScheduler.Proofs.Bindings
import OnlineScheduler.Wire
import OnlineScheduler.Proofs.Wires
import OnlineScheduler.General.SipHash
import OnlineScheduler.Hashing
import OnlineScheduler.Proofs.Hashes
