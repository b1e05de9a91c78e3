import Hwfq.Scheduler

/-!
# Construction and configuration

`hwfq_config.c`: making a scheduler, adding, reconfiguring and removing tenants and
flows, and the capacity report. A failing call gives back what it had taken, except
for slots the entry stores have grown by.
-/
namespace Hwfq

def defaultNumGroups : ℕ := 16
def defaultBinsPerGroup : ℕ := 2048

/-- `would_exceed_capacity`, in 64-bit arithmetic. -/
def wouldExceedCapacity (s : Scheduler) (newAllocation : Allocation)
    (oldAllocation : Option Allocation) : Bool :=
  match newAllocation with
  | .rate rate =>
      let currentAllocated := match oldAllocation with
        | some old => subU64 s.allocatedRateCapacity old.reserved
        | none => s.allocatedRateCapacity
      decide (u64 (currentAllocated + rate.toNat) > s.totalCapacity)
  | _ => false

def Scheduler.numGroups (s : Scheduler) : ℕ :=
  if s.config.numGroups = 0 then defaultNumGroups else s.config.numGroups.toNat

def Scheduler.binsPerGroup (s : Scheduler) : ℕ :=
  if s.config.binsPerGroup = 0 then defaultBinsPerGroup else s.config.binsPerGroup.toNat

/-- The checks of `hwfq_init` on its configuration. -/
def Config.valid (config : Config) : Bool :=
  config.maxTenants ≠ 0 && config.maxFlowsPerTenant ≠ 0 && config.totalCapacity ≠ 0

/-- `hwfq_init`. The allocator of a failed call is not needed any more. -/
def hwfqInit (mem : Allocator) (config : Config) : Status × Option Scheduler :=
  if !config.valid then (.invalidArg, none)
  else
    match hwfqAlloc mem 1 with
    | (none, _) => (.noMemory, none)
    | (some _, mem) =>
        match hwfqAlloc mem config.maxTenants.toNat with
        | (none, _) => (.noMemory, none)
        | (some _, mem) =>
            let numGroups :=
              if config.numGroups = 0 then defaultNumGroups else config.numGroups.toNat
            let binsPerGroup :=
              if config.binsPerGroup = 0 then defaultBinsPerGroup else config.binsPerGroup.toNat
            match groupSchedulerInitWithEntries TenantPtr mem numGroups binsPerGroup
                config.totalCapacity.toNat config.maxTenants.toNat
                (hwfqChunkedEntriesInit config.maxTenants.toNat) with
            | (none, _) => (.noMemory, none)
            | (some system, mem) =>
                match hwfqAlloc mem 1024 with
                | (none, _) => (.noMemory, none)
                | (some _, mem) =>
                    (.success, some
                      { mem := mem
                        config := config
                        tenants := fun _ => none
                        numConfiguredTenants := 0
                        totalActiveFlows := 0
                        allocatedRateCapacity := 0
                        systemScheduler := system
                        inFlightWorkSize := 0
                        inFlightCount := 0
                        inFlightHash := fun _ => []
                        inFlight := [] })

/-! ## Tenants -/

/-- Whether some slot of the tenant table is empty. The slot itself is not used. -/
def hasEmptySlot (s : Scheduler) : Bool :=
  (List.range s.maxTenants).any fun i => (s.tenants i).isNone

/-- `hwfq_chunked_entries_alloc` on the store of a group scheduler. -/
def allocEntryOf {α : Type*} (mem : Allocator) (gs : GroupScheduler α) :
    Except Status ℕ × Allocator × GroupScheduler α :=
  let r := hwfqChunkedEntriesAlloc mem gs.entries
  (r.1, r.2.1, { gs with entries := r.2.2 })

/-- `hwfq_chunked_entries_free` on the store of a group scheduler. -/
def freeEntryOf {α : Type*} (gs : GroupScheduler α) (id : ℕ) : GroupScheduler α :=
  { gs with entries := hwfqChunkedEntriesFree gs.entries id }

/-- The flow entries of a new tenant, slot 0 taken where memory allows it. -/
def newFlowEntries (s : Scheduler) (mem : Allocator) : Allocator × ChunkedEntries :=
  let r := hwfqChunkedEntriesAlloc mem
    (hwfqChunkedEntriesInit (u32 (s.config.maxFlowsPerTenant.toNat + 1)))
  match r.1 with
  | .ok reservedId => (r.2.1, r.2.2.write reservedId fun e => { e with configured := false })
  | .error _ => (r.2.1, r.2.2)

/-- The share of a tenant: its rate, or the full capacity for a weight. -/
def tenantShare (totalCapacity : ℕ) (allocation : Allocation) : ℕ :=
  match allocation with
  | .rate rate => rate.toNat
  | _ => totalCapacity

def newTenant (addr : Addr) (tenantId : ℕ) (allocation : Allocation)
    (flowScheduler : GroupScheduler FlowSessionContext) : Tenant :=
  { addr := addr
    tenantId := tenantId
    allocation := allocation
    configured := true
    flowScheduler := flowScheduler
    hasBacklog := false
    tenantSession := none
    stats := {} }

/-- The end of `hwfq_add_tenant`, once the flow scheduler of the tenant is made. -/
def installTenant (s : Scheduler) (addr : Addr) (allocation : Allocation)
    (flowScheduler : GroupScheduler FlowSessionContext) : Status × Option ℕ × Scheduler :=
  match allocEntryOf s.mem s.systemScheduler with
  | (.error _, mem, system) => (.noMemory, none, { s with mem := mem, systemScheduler := system })
  | (.ok tenantId, mem, system) =>
      match groupSchedulerConfigureEntry system tenantId allocation with
      | (.success, system) =>
          (.success, some tenantId,
            { s with
              mem := mem
              systemScheduler := system
              tenants := Function.update s.tenants tenantId
                (some (newTenant addr tenantId allocation flowScheduler))
              numConfiguredTenants := u32 (s.numConfiguredTenants + 1)
              allocatedRateCapacity := u64 (s.allocatedRateCapacity + allocation.reserved) })
      | (ret, system) =>
          (ret, none, { s with mem := mem, systemScheduler := freeEntryOf system tenantId })

def hwfqAddTenant (s : Scheduler) (allocation : Option Allocation) (tenantIdOut : Bool) :
    Status × Option ℕ × Scheduler :=
  match allocation with
  | none => (.invalidArg, none, s)
  | some allocation =>
      if !tenantIdOut then (.invalidArg, none, s)
      else if !validateAllocation allocation then (.invalidArg, none, s)
      else if !hasEmptySlot s then (.noMemory, none, s)
      else if wouldExceedCapacity s allocation none then (.overbooked, none, s)
      else
        match hwfqAlloc s.mem 1 with
        | (none, mem) => (.noMemory, none, { s with mem := mem })
        | (some addr, mem) =>
            let (mem, flowEntries) := newFlowEntries s mem
            match groupSchedulerInitWithEntries FlowSessionContext mem s.numGroups s.binsPerGroup
                (tenantShare s.totalCapacity allocation)
                (u32 (s.config.maxFlowsPerTenant.toNat + 1)) flowEntries with
            | (none, mem) => (.noMemory, none, { s with mem := mem })
            | (some flowScheduler, mem) =>
                installTenant { s with mem := mem } addr allocation flowScheduler

/-- The sum of tenant rates after a tenant changes from one allocation to another. -/
def exchangeRate (allocatedRateCapacity : ℕ) (old new : Allocation) : ℕ :=
  u64 (subU64 allocatedRateCapacity old.reserved + new.reserved)

def hwfqConfigureTenant (s : Scheduler) (tenantId : ℕ) (allocation : Option Allocation) :
    Status × Scheduler :=
  match allocation with
  | none => (.invalidArg, s)
  | some allocation =>
      if tenantId ≥ s.maxTenants then (.invalidArg, s)
      else if !validateAllocation allocation then (.invalidArg, s)
      else
        match s.configuredTenant tenantId with
        | none => (.notFound, s)
        | some tenant =>
            if wouldExceedCapacity s allocation (some tenant.allocation) then (.overbooked, s)
            else
              -- the result of the system scheduler is not looked at
              (.success,
                { s with
                  allocatedRateCapacity :=
                    exchangeRate s.allocatedRateCapacity tenant.allocation allocation
                  systemScheduler :=
                    (groupSchedulerConfigureEntry s.systemScheduler tenantId allocation).2
                }.setTenant tenantId { tenant with allocation := allocation })

/-- The active flows left when a tenant goes; one slot of its store is the reserved id. -/
def activeFlowsAfter (totalActiveFlows numConfigured : ℕ) : ℕ :=
  if numConfigured > 0 then
    if totalActiveFlows ≥ numConfigured - 1 then totalActiveFlows - (numConfigured - 1) else 0
  else totalActiveFlows

/-- The cleanup calls for the sessions still queued in a tenant. -/
def cleanupCalls (tenant : Tenant) : List Callback :=
  (groupSchedulerDestroy tenant.flowScheduler).filterMap fun context =>
    context.bind fun c => if c.cleanupFn then some (.cleanup c.userData) else none

def hwfqRemoveTenant (s : Scheduler) (tenantId : ℕ) : Status × List Callback × Scheduler :=
  if tenantId ≥ s.maxTenants then (.invalidArg, [], s)
  else
    match s.configuredTenant tenantId with
    | none => (.notFound, [], s)
    | some tenant =>
        if tenant.hasBacklog then (.tenantHasBacklog, [], s)
        else
          let system := freeEntryOf (groupSchedulerRemoveEntry s.systemScheduler tenantId).2 tenantId
          (.success, cleanupCalls tenant,
            { s with
              systemScheduler := system
              tenants := Function.update s.tenants tenantId none
              numConfiguredTenants := subU32 s.numConfiguredTenants 1
              totalActiveFlows :=
                activeFlowsAfter s.totalActiveFlows tenant.flowScheduler.entries.numConfigured
              allocatedRateCapacity :=
                subU64 s.allocatedRateCapacity tenant.allocation.reserved })

/-- `hwfq_destroy`: the calls for what is queued in the system scheduler, then those for the
sessions queued in the tenants. The entries in flight are freed without a call. -/
def hwfqDestroy (s : Scheduler) : List (Option TenantPtr) × List Callback :=
  (groupSchedulerDestroy s.systemScheduler,
    (List.range s.maxTenants).flatMap fun i => (s.tenants i).elim [] cleanupCalls)

/-! ## Flows -/

def hwfqAddFlow (s : Scheduler) (tenantId : ℕ) (allocation : Option Allocation) (flowIdOut : Bool) :
    Status × Option ℕ × Scheduler :=
  match allocation with
  | none => (.invalidArg, none, s)
  | some allocation =>
      if !flowIdOut then (.invalidArg, none, s)
      else if tenantId ≥ s.maxTenants then (.invalidArg, none, s)
      else if !validateAllocation allocation then (.invalidArg, none, s)
      else
        match s.configuredTenant tenantId with
        | none => (.notFound, none, s)
        | some tenant =>
            if s.config.maxTotalFlows > 0 ∧ s.totalActiveFlows ≥ s.config.maxTotalFlows.toNat then
              (.noMemory, none, s)
            else
              match allocEntryOf s.mem tenant.flowScheduler with
              | (.error _, mem, flows) =>
                  (.noMemory, none,
                    { s with mem := mem }.setTenant tenantId { tenant with flowScheduler := flows })
              | (.ok flowId, mem, flows) =>
                  match groupSchedulerConfigureEntry flows flowId allocation with
                  | (.success, flows) =>
                      (.success, some flowId,
                        { s with
                          mem := mem
                          totalActiveFlows := u32 (s.totalActiveFlows + 1)
                        }.setTenant tenantId { tenant with flowScheduler := flows })
                  | (ret, flows) =>
                      (ret, none,
                        { s with mem := mem }.setTenant tenantId
                          { tenant with flowScheduler := freeEntryOf flows flowId })

def hwfqRemoveFlow (s : Scheduler) (tenantId flowId : ℕ) : Status × Scheduler :=
  if tenantId ≥ s.maxTenants then (.invalidArg, s)
  else
    match s.configuredTenant tenantId with
    | none => (.notFound, s)
    | some tenant =>
        match findFlowEntry tenant flowId with
        | none => (.notFound, s)
        | some entry =>
            if entry.stats.currentBacklog > 0 then (.tenantHasBacklog, s)
            else
              let flows := freeEntryOf (groupSchedulerRemoveEntry tenant.flowScheduler flowId).2 flowId
              (.success,
                { s with
                  totalActiveFlows :=
                    if s.totalActiveFlows > 0 then s.totalActiveFlows - 1 else s.totalActiveFlows
                }.setTenant tenantId { tenant with flowScheduler := flows })

def hwfqReconfigureFlow (s : Scheduler) (tenantId flowId : ℕ) (allocation : Option Allocation) :
    Status × Scheduler :=
  match allocation with
  | none => (.invalidArg, s)
  | some allocation =>
      if flowId = flowIdReserved then (.invalidArg, s)
      else if tenantId ≥ s.maxTenants then (.invalidArg, s)
      else if !validateAllocation allocation then (.invalidArg, s)
      else
        match s.configuredTenant tenantId with
        | none => (.notFound, s)
        | some tenant =>
            if (findFlowEntry tenant flowId).isNone then (.notFound, s)
            else
              let r := groupSchedulerConfigureEntry tenant.flowScheduler flowId allocation
              (r.1, s.setTenant tenantId { tenant with flowScheduler := r.2 })

/-! ## Reports and statistics -/

/-- `hwfq_capacity_info_t` without the utilization, which is floating point. -/
structure CapacityInfo where
  totalCapacity : ℕ
  allocatedCapacity : ℕ
  availableCapacity : ℕ
  numConfiguredTenants : ℕ
  numActiveFlows : ℕ
deriving DecidableEq, Repr

def hwfqGetCapacityInfo (s : Scheduler) : CapacityInfo :=
  { totalCapacity := s.totalCapacity
    allocatedCapacity := s.allocatedRateCapacity
    availableCapacity := subU64 s.totalCapacity s.allocatedRateCapacity
    numConfiguredTenants := s.numConfiguredTenants
    numActiveFlows := s.totalActiveFlows }

/-- `hwfq_get_tenant_stats`. -/
def hwfqGetTenantStats (s : Scheduler) (tenantId : ℕ) : Except Status Stats :=
  if tenantId ≥ s.maxTenants then .error .invalidArg
  else
    match s.tenants tenantId with
    | none => .error .notFound
    | some tenant => .ok tenant.stats

/-- `hwfq_get_flow_stats`. -/
def hwfqGetFlowStats (s : Scheduler) (tenantId flowId : ℕ) : Except Status Stats :=
  if tenantId ≥ s.maxTenants then .error .invalidArg
  else
    match s.configuredTenant tenantId with
    | none => .error .notFound
    | some tenant =>
        match findFlowEntry tenant flowId with
        | none => .error .notFound
        | some entry => .ok entry.stats

/-- Statistics go back to zero, all but the backlog. -/
def Stats.reset (stats : Stats) : Stats := { currentBacklog := stats.currentBacklog }

/-- `reset_tenant_stats` and `reset_all_flow_stats`. -/
def resetTenant (tenant : Tenant) : Tenant :=
  { tenant with
    stats := tenant.stats.reset
    flowScheduler :=
      { tenant.flowScheduler with entries := resetAllFlowStats tenant.flowScheduler.entries } }

/-- `HWFQ_ALL_TENANTS` and `HWFQ_ALL_FLOWS`. -/
def hwfqAll : ℕ := uint32Max

def hwfqResetStats (s : Scheduler) (tenantId flowId : ℕ) : Scheduler :=
  if tenantId = hwfqAll then
    { s with
      tenants := fun i =>
        if i < s.maxTenants then
          (s.tenants i).map fun tenant => if tenant.configured then resetTenant tenant else tenant
        else s.tenants i }
  else if tenantId < s.maxTenants then
    match s.configuredTenant tenantId with
    | none => s
    | some tenant =>
        if flowId = hwfqAll then s.setTenant tenantId (resetTenant tenant)
        else
          s.setTenant tenantId
            { tenant with flowScheduler := tenant.flowScheduler.writeEntry flowId resetFlowStats }
  else s

end Hwfq
