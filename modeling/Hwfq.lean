import Hwfq.Admission
import Hwfq.BacklogCounters
import Hwfq.Bins
import Hwfq.BlockTallies
import Hwfq.BoundedDelay
import Hwfq.BoundedLateness
import Hwfq.CalendarInvariant
import Hwfq.CalendarLinks
import Hwfq.CalendarRepresentation
import Hwfq.CalendarSearch
import Hwfq.CallEffects
import Hwfq.CapacityLedger
import Hwfq.ChunkedEntries
import Hwfq.CleanupContract
import Hwfq.ClockLaw
import Hwfq.Configuration
import Hwfq.ConfigurationCalls
import Hwfq.CrowdedQueue
import Hwfq.EffectiveRates
import Hwfq.EntryLedgers
import Hwfq.EntryOrder
import Hwfq.EntryPool
import Hwfq.EntrySlots
import Hwfq.EntryStore
import Hwfq.FailedCalls
import Hwfq.FairService
import Hwfq.FlightLinks
import Hwfq.FlightTable
import Hwfq.FlowDelay
import Hwfq.FlowEffects
import Hwfq.FlowOrder
import Hwfq.FlowRegistry
import Hwfq.FlowScheduler
import Hwfq.FlowStatistics
import Hwfq.FlowTrie
import Hwfq.FlowTrieRuns
import Hwfq.GroupCalendar
import Hwfq.GroupInvariant
import Hwfq.GroupRuns
import Hwfq.GroupScheduler
import Hwfq.GroupSchedulerSteps
import Hwfq.GuardedRuns
import Hwfq.IdAllocator
import Hwfq.IdealQueue
import Hwfq.IdealScheduler
import Hwfq.IdealTokens
import Hwfq.IdleServer
import Hwfq.InFlightTable
import Hwfq.InternalErrors
import Hwfq.LinkedChains
import Hwfq.MemoryCalls
import Hwfq.MemoryConfiguration
import Hwfq.MemoryFrees
import Hwfq.MemoryLedger
import Hwfq.MemoryRuns
import Hwfq.MinSearch
import Hwfq.MinimumCaches
import Hwfq.Overtaking
import Hwfq.PooledGroup
import Hwfq.PublicCalls
import Hwfq.QueueTraces
import Hwfq.RebaseTransparency
import Hwfq.RefusedDequeues
import Hwfq.RemovalGuards
import Hwfq.Scheduler
import Hwfq.SchedulerInvariant
import Hwfq.SchedulerLedgers
import Hwfq.SchedulerParts
import Hwfq.SchedulerRuns
import Hwfq.SearchCoverage
import Hwfq.SessionAccounts
import Hwfq.SessionCalls
import Hwfq.SessionHistory
import Hwfq.SessionLedger
import Hwfq.SessionRemoval
import Hwfq.SessionWaits
import Hwfq.SetBits
import Hwfq.SlotStatistics
import Hwfq.SteadyService
import Hwfq.StoreBlocks
import Hwfq.SystemScheduler
import Hwfq.TenantShares
import Hwfq.TenantSlots
import Hwfq.TenantStatistics
import Hwfq.TenantTables
import Hwfq.TenantTokens
import Hwfq.TenantTurns
import Hwfq.TenantWaits
import Hwfq.TieOrder
import Hwfq.TimeoutScan
import Hwfq.TokenClock
import Hwfq.TokenRegistration
import Hwfq.TokenTags
import Hwfq.TokenTurns
import Hwfq.TrieCapacity
import Hwfq.Types
import Hwfq.VirtualClock
import Hwfq.WakeUps
import Hwfq.WordArrays
import Hwfq.WorkCharges
import Hwfq.WorkConservation
import Hwfq.WorkerLoop
import Hwfq.Workers
