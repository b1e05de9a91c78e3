import Hwfq.Configuration
import Hwfq.StoreBlocks

/-!
# The frees of the calls

What each function gives back with `hwfq_free`, in the order of the source. The addresses that
the scheduler itself does not record are kept beside it.
-/
namespace Hwfq

/-- `flow_entries` and `flow_scheduler` of a tenant. -/
structure TenantBlocks where
  store : StoreBlocks
  group : GroupBlocks

/-- The scheduler object, `tenants`, `in_flight_hash`, `tenant_entries` and
`system_scheduler`, and the blocks of the tenants. -/
structure SchedulerBlocks where
  scheduler : Addr
  tenantTable : Addr
  hashTable : Addr
  store : StoreBlocks
  group : GroupBlocks
  tenants : ℕ → TenantBlocks

/-! ## Sessions -/

/-- `register_tenant_backlog`. -/
def registerFrees (s : Scheduler) (id : ℕ) : List Addr :=
  match s.tenants id with
  | none => []
  | some tenant =>
      if tenant.hasBacklog then []
      else
        groupEnqueueFrees s.mem s.systemScheduler tenant.tenantId tenantQuantumSize
          (some tenant.ptr) false

/-- The end of `hwfq_enqueue`. -/
def offerFrees (s : Scheduler) (tenantId flowId : ℕ) (tenant : Tenant)
    (context : FlowSessionContext) : List Addr :=
  let tenant := tenant.mapStats flowId Stats.backlogUp
  let freed := groupEnqueueFrees s.mem tenant.flowScheduler flowId context.workSize (some context)
    true
  let r := groupSchedulerEnqueue s.mem tenant.flowScheduler flowId context.workSize (some context)
    true
  if r.status = .success then
    freed ++ registerFrees ({ s with mem := r.mem }.setTenant tenantId
      { tenant with flowScheduler := r.gs }) tenantId
  else freed ++ [context.addr]

def enqueueFrees (s : Scheduler) (tenantId flowId : ℕ) (work : Option Session) (now : ℕ) :
    List Addr :=
  match work with
  | none => []
  | some work =>
      if work.workSize = 0 then []
      else if tenantId ≥ s.maxTenants then []
      else if flowId = flowIdReserved then []
      else
        match s.configuredTenant tenantId with
        | none => []
        | some tenant =>
            if (findFlowEntry tenant flowId).isNone then []
            else
              match hwfqAlloc s.mem 1 with
              | (none, _) => []
              | (some addr, mem) =>
                  offerFrees { s with mem := mem } tenantId flowId tenant
                    (newContext s addr tenantId flowId work now)

/-- What `hwfq_dequeue` frees while it selects, and the flow session that it holds after. -/
def selectFrees (s : Scheduler) : List Addr × Option Addr :=
  if groupSchedulerIsEmpty s.systemScheduler then ([], none)
  else
    match groupSchedulerDequeue s.systemScheduler with
    | (none, _) => ([], none)
    | (some tenantSession, system) =>
        match tenantSession.userData.bind { s with systemScheduler := system }.tenantAt with
        | none => ([tenantSession.addr], none)
        | some tenant =>
            match (groupSchedulerDequeue tenant.flowScheduler).1 with
            | none => ([tenantSession.addr], none)
            | some flowSession =>
                match flowSession.userData with
                | none => ([tenantSession.addr, flowSession.addr], none)
                | some _ => ([tenantSession.addr], some flowSession.addr)

/-- A context that its flow scheduler does not take back is not freed. -/
def putBackFrees (s : Scheduler) (id : ℕ) (context : FlowSessionContext) : List Addr :=
  let freed := registerFrees s id
  let s := (registerTenantBacklog s id).2
  match s.tenants id with
  | none => freed
  | some tenant =>
      freed ++ groupEnqueueFrees s.mem tenant.flowScheduler context.flowId context.workSize
        (some context) true

def registerIfBackloggedFrees (s : Scheduler) (id : ℕ) : List Addr :=
  match s.tenants id with
  | none => []
  | some tenant =>
      if groupSchedulerIsEmpty tenant.flowScheduler then [] else registerFrees s id

def dequeueFrees (s : Scheduler) (workOut : Bool) (now : ℕ) : List Addr :=
  if !workOut then []
  else
    let (freed, flowSession) := selectFrees s
    match dequeueSelect s with
    | (.refused _, _) => freed
    | (.selected id context, s) =>
        if overCapacity s context then
          freed ++ putBackFrees s id context ++ flowSession.toList
        else
          let s := chargeFlow s id context.workSize
          match hwfqAlloc s.mem 1 with
          | (none, mem) =>
              freed ++ putBackFrees { s with mem := mem } id context ++ flowSession.toList
          | (some addr, mem) =>
              let s := addInFlight { s with mem := mem } (newInFlightEntry context addr now)
              let s := recordWait s id context now
              freed ++ context.addr :: flowSession.toList ++ registerIfBackloggedFrees s id

/-- The token that `hwfq_complete` registers. -/
def serveFrees (s : Scheduler) (tenantId : ℕ) : List Addr :=
  if tenantId < s.maxTenants then
    match s.tenants tenantId with
    | none => []
    | some tenant =>
        if groupSchedulerIsEmpty tenant.flowScheduler then [] else registerFrees s tenantId
  else []

def completeFrees (s : Scheduler) (work : Option Session) (tenantId flowId : ℕ) : List Addr :=
  match inFlightLookup s work tenantId flowId with
  | none => []
  | some found =>
      let s := takeInFlight s found
      let s := updateStats s tenantId flowId Stats.backlogDownIfPositive
      let s :=
        if s.config.enableStatistics then
          updateStats s tenantId flowId (Stats.addCompletion found.workSize)
        else s
      found.addr :: serveFrees s tenantId

def cancelFrees (s : Scheduler) (work : Option Session) (tenantId flowId : ℕ) : List Addr :=
  (inFlightLookup s work tenantId flowId).toList.map (·.addr)

def timeoutFrees (s : Scheduler) (currentTimeNs : ℕ) : List Addr :=
  (scanTimeouts s currentTimeNs).1.map (·.addr)

/-! ## Tenants and flows -/

/-- `flow_context_cleanup` frees the context of a session. -/
def contextCleanup (context : Option FlowSessionContext) : List Addr :=
  context.toList.map (·.addr)

/-- `group_scheduler_destroy` and `hwfq_chunked_entries_destroy` for a tenant, and its object. -/
def tenantFrees (addr : Addr) (flowScheduler : GroupScheduler FlowSessionContext)
    (b : TenantBlocks) : List Addr :=
  groupDestroyFrees flowScheduler b.group contextCleanup ++
    entriesDestroyFrees flowScheduler.entries b.store ++ [addr]

/-- The end of `hwfq_add_tenant`. -/
def installBlocks (s : Scheduler) (b : SchedulerBlocks) (addr : Addr) (allocation : Allocation)
    (flowScheduler : GroupScheduler FlowSessionContext) (tenant : TenantBlocks) :
    SchedulerBlocks × List Addr :=
  let (store, freed) := entriesAllocBlocks s.mem s.systemScheduler.entries b.store
  match allocEntryOf s.mem s.systemScheduler with
  | (.error _, _, _) => ({ b with store := store }, freed ++ tenantFrees addr flowScheduler tenant)
  | (.ok tenantId, _, system) =>
      match groupSchedulerConfigureEntry system tenantId allocation with
      | (.success, _) =>
          ({ b with store := store, tenants := Function.update b.tenants tenantId tenant }, freed)
      | _ => ({ b with store := store }, freed ++ tenantFrees addr flowScheduler tenant)

def addTenantBlocks (s : Scheduler) (b : SchedulerBlocks) (allocation : Option Allocation)
    (tenantIdOut : Bool) : SchedulerBlocks × List Addr :=
  match allocation with
  | none => (b, [])
  | some allocation =>
      if !tenantIdOut then (b, [])
      else if !validateAllocation allocation then (b, [])
      else if !hasEmptySlot s then (b, [])
      else if wouldExceedCapacity s allocation none then (b, [])
      else
        match hwfqAlloc s.mem 1 with
        | (none, _) => (b, [])
        | (some addr, mem) =>
            let maxEntries := u32 (s.config.maxFlowsPerTenant.toNat + 1)
            let (store, grown) := entriesAllocBlocks mem (hwfqChunkedEntriesInit maxEntries) noStore
            let (mem, flowEntries) := newFlowEntries s mem
            let (group, failed) := groupInitBlocks mem s.numGroups s.binsPerGroup maxEntries
            match group, groupSchedulerInitWithEntries FlowSessionContext mem s.numGroups
                s.binsPerGroup (tenantShare s.totalCapacity allocation) maxEntries flowEntries with
            | some group, (some flowScheduler, mem) =>
                let (b, freed) := installBlocks { s with mem := mem } b addr allocation
                  flowScheduler ⟨store, group⟩
                (b, grown ++ freed)
            | _, _ => (b, grown ++ failed ++ entriesDestroyFrees flowEntries store ++ [addr])

def removeTenantFrees (s : Scheduler) (b : SchedulerBlocks) (tenantId : ℕ) : List Addr :=
  if tenantId ≥ s.maxTenants then []
  else
    match s.configuredTenant tenantId with
    | none => []
    | some tenant =>
        if tenant.hasBacklog then []
        else tenantFrees tenant.addr tenant.flowScheduler (b.tenants tenantId)

def addFlowBlocks (s : Scheduler) (b : SchedulerBlocks) (tenantId : ℕ)
    (allocation : Option Allocation) (flowIdOut : Bool) : SchedulerBlocks × List Addr :=
  match allocation with
  | none => (b, [])
  | some allocation =>
      if !flowIdOut then (b, [])
      else if tenantId ≥ s.maxTenants then (b, [])
      else if !validateAllocation allocation then (b, [])
      else
        match s.configuredTenant tenantId with
        | none => (b, [])
        | some tenant =>
            if s.config.maxTotalFlows > 0 ∧ s.totalActiveFlows ≥ s.config.maxTotalFlows.toNat then
              (b, [])
            else
              let old := b.tenants tenantId
              let (store, freed) :=
                entriesAllocBlocks s.mem tenant.flowScheduler.entries old.store
              ({ b with tenants := Function.update b.tenants tenantId { old with store := store } },
                freed)

/-! ## The life of a scheduler -/

/-- `hwfq_destroy`. -/
def destroyFrees (s : Scheduler) (b : SchedulerBlocks) : List Addr :=
  groupDestroyFrees s.systemScheduler b.group (fun _ => []) ++
    ((List.range s.maxTenants).flatMap fun i =>
      (s.tenants i).elim [] fun t => tenantFrees t.addr t.flowScheduler (b.tenants i)) ++
    b.tenantTable :: entriesDestroyFrees s.systemScheduler.entries b.store ++
    s.inFlight.map (·.addr) ++ [b.hashTable, b.scheduler]

/-- The blocks of `hwfq_init`; what a failure gives back and where it leaves the allocator. -/
def initBlocks (mem : Allocator) (config : Config) :
    Option SchedulerBlocks × List Addr × Allocator :=
  if !config.valid then (none, [], mem)
  else
    match hwfqAlloc mem 1 with
    | (none, mem) => (none, [], mem)
    | (some scheduler, mem) =>
        match hwfqAlloc mem config.maxTenants.toNat with
        | (none, mem) => (none, [scheduler], mem)
        | (some tenantTable, mem) =>
            let numGroups :=
              if config.numGroups = 0 then defaultNumGroups else config.numGroups.toNat
            let binsPerGroup :=
              if config.binsPerGroup = 0 then defaultBinsPerGroup else config.binsPerGroup.toNat
            let entries := hwfqChunkedEntriesInit config.maxTenants.toNat
            let (group, failed) := groupInitBlocks mem numGroups binsPerGroup
              config.maxTenants.toNat
            match group, groupSchedulerInitWithEntries TenantPtr mem numGroups binsPerGroup
                config.totalCapacity.toNat config.maxTenants.toNat entries with
            | some group, (some system, mem) =>
                match hwfqAlloc mem 1024 with
                | (none, mem) =>
                    (none, groupDestroyFrees system group (fun _ => []) ++
                      entriesDestroyFrees entries noStore ++ [tenantTable, scheduler], mem)
                | (some hashTable, mem) =>
                    (some
                      { scheduler := scheduler
                        tenantTable := tenantTable
                        hashTable := hashTable
                        store := noStore
                        group := group
                        tenants := fun _ => ⟨noStore, group⟩ }, [], mem)
            | _, (_, mem) =>
                (none, failed ++ entriesDestroyFrees entries noStore ++ [tenantTable, scheduler],
                  mem)

end Hwfq
