import Hwfq.GroupScheduler

/-!
# The hierarchical scheduler

`hwfq_scheduler.c`: a system scheduler whose sessions are one token for each
backlogged tenant, a flow scheduler in every tenant, and the table of sessions in
flight. A call runs to its end before the next one starts, as under the lock of the
source. The rate estimates are floating point and are left out.
-/
namespace Hwfq

/-- `TENANT_QUANTUM_SIZE`. -/
def tenantQuantumSize : ℕ := 4096

/-- `HWFQ_FLOW_ID_RESERVED`. -/
def flowIdReserved : ℕ := 0

/-- `hwfq_session_t` as an input. -/
structure Session where
  userData : UInt64
  workSize : UInt64
  timeoutNs : UInt64 := 0
  cleanupFn : Bool := false
deriving DecidableEq, Repr

/-- `flow_session_context_t`, the user data of a session in a flow scheduler. -/
structure FlowSessionContext where
  addr : Addr
  tenantId : ℕ
  flowId : ℕ
  userData : UserData
  workSize : ℕ
  enqueueTimeNs : ℕ
  timeoutNs : ℕ
  cleanupFn : Bool
deriving DecidableEq, Repr

/-- A pointer to the tenant object at `addr`. The object keeps its `tenant_id`
from its creation on and stands in that slot of the table. -/
structure TenantPtr where
  tenantId : ℕ
  addr : Addr
deriving DecidableEq, Repr

/-- `tenant_config_t`. Its `flow_entries` are the entry store of `flowScheduler`. -/
structure Tenant where
  addr : Addr
  tenantId : ℕ
  allocation : Allocation
  configured : Bool
  flowScheduler : GroupScheduler FlowSessionContext
  hasBacklog : Bool
  tenantSession : Option Addr
  stats : Stats

def Tenant.ptr (tenant : Tenant) : TenantPtr := ⟨tenant.tenantId, tenant.addr⟩

/-- `in_flight_entry_t`. -/
structure InFlightEntry where
  addr : Addr
  tenantId : ℕ
  flowId : ℕ
  workSize : ℕ
  dequeueTimeNs : ℕ
  timeoutNs : ℕ
  userData : UserData
deriving DecidableEq, Repr

/-- `hwfq_scheduler_t`. `inFlight` is the list from `in_flight_head` along
`list_next`, `inFlightHash` the chains along `hash_next`. -/
structure Scheduler where
  mem : Allocator
  config : Config
  tenants : ℕ → Option Tenant
  numConfiguredTenants : ℕ
  totalActiveFlows : ℕ
  allocatedRateCapacity : ℕ
  systemScheduler : GroupScheduler TenantPtr
  inFlightWorkSize : ℕ
  inFlightCount : ℕ
  inFlightHash : ℕ → List InFlightEntry
  inFlight : List InFlightEntry

/-- A call of one of the caller's functions. -/
inductive Callback where
  | sessionAvailable
  | sessionTimeout (tenantId flowId : ℕ) (userData : UserData) (workSize timeoutNs : ℕ)
  | cleanup (userData : UserData)
deriving DecidableEq, Repr

def Scheduler.maxTenants (s : Scheduler) : ℕ := s.config.maxTenants.toNat

def Scheduler.totalCapacity (s : Scheduler) : ℕ := s.config.totalCapacity.toNat

def Scheduler.setTenant (s : Scheduler) (id : ℕ) (tenant : Tenant) : Scheduler :=
  { s with tenants := Function.update s.tenants id (some tenant) }

/-- The tenant in a slot, as the calls that need a configured one look it up. -/
def Scheduler.configuredTenant (s : Scheduler) (id : ℕ) : Option Tenant :=
  (s.tenants id).filter (·.configured)

/-- Follow a tenant pointer. -/
def Scheduler.tenantAt (s : Scheduler) (p : TenantPtr) : Option Tenant :=
  (s.tenants p.tenantId).filter fun tenant => tenant.addr = p.addr

/-! ## The in-flight table -/

def hashUserData (userData : UserData) : ℕ := u64 (userData * 2654435761) % 1024

def inFlightInsert (s : Scheduler) (entry : InFlightEntry) : Scheduler :=
  let bucket := hashUserData entry.userData
  { s with
    inFlightHash := Function.update s.inFlightHash bucket (entry :: s.inFlightHash bucket)
    inFlight := s.inFlight ++ [entry] }

/-- Unlink the node at the address of `entry` from its chain and from the list. -/
def inFlightRemove (s : Scheduler) (entry : InFlightEntry) : Scheduler :=
  let bucket := hashUserData entry.userData
  { s with
    inFlightHash := Function.update s.inFlightHash bucket
      ((s.inFlightHash bucket).eraseP fun e => e.addr = entry.addr)
    inFlight := s.inFlight.eraseP fun e => e.addr = entry.addr }

def inFlightFind (s : Scheduler) (userData : UserData) (tenantId flowId : ℕ) :
    Option InFlightEntry :=
  (s.inFlightHash (hashUserData userData)).find? fun e =>
    decide (e.userData = userData) && decide (e.tenantId = tenantId) && decide (e.flowId = flowId)

/-- The entry that complete and cancel look for: by user data when there is one,
else the first of the flow in the list. -/
def inFlightLookup (s : Scheduler) (work : Option Session) (tenantId flowId : ℕ) :
    Option InFlightEntry :=
  let userData := match work with
    | some w => w.userData.toNat
    | none => 0
  if userData ≠ 0 then inFlightFind s userData tenantId flowId
  else s.inFlight.find? fun e => decide (e.tenantId = tenantId) && decide (e.flowId = flowId)

/-- Take an entry out of the table and off the in-flight totals. -/
def takeInFlight (s : Scheduler) (entry : InFlightEntry) : Scheduler :=
  let s := inFlightRemove s entry
  { s with
    inFlightWorkSize := subU64 s.inFlightWorkSize entry.workSize
    inFlightCount := subU32 s.inFlightCount 1 }

/-! ## Backlog counters -/

def findFlowEntry (tenant : Tenant) (flowId : ℕ) : Option EntryConfig :=
  groupSchedulerFindEntry tenant.flowScheduler flowId

def Stats.backlogUp (stats : Stats) : Stats :=
  { stats with currentBacklog := u32 (stats.currentBacklog + 1) }

def Stats.backlogDown (stats : Stats) : Stats :=
  { stats with currentBacklog := subU32 stats.currentBacklog 1 }

/-- `if (current_backlog > 0) current_backlog--`. -/
def Stats.backlogDownIfPositive (stats : Stats) : Stats :=
  if stats.currentBacklog > 0 then stats.backlogDown else stats

/-- Rewrite the statistics of a tenant and, where the flow is configured, of the flow. -/
def Tenant.mapStats (tenant : Tenant) (flowId : ℕ) (f : Stats → Stats) : Tenant :=
  { tenant with
    stats := f tenant.stats
    flowScheduler :=
      if (findFlowEntry tenant flowId).isSome then
        tenant.flowScheduler.writeEntry flowId fun e => { e with stats := f e.stats }
      else tenant.flowScheduler }

/-! ## Tokens -/

/-- `register_tenant_backlog` for the tenant in slot `id`. -/
def registerTenantBacklog (s : Scheduler) (id : ℕ) : Status × Scheduler :=
  match s.tenants id with
  | none => (.success, s)
  | some tenant =>
      if tenant.hasBacklog then (.success, s)
      else
        let r := groupSchedulerEnqueue s.mem s.systemScheduler tenant.tenantId tenantQuantumSize
          (some tenant.ptr) false
        let s := { s with mem := r.mem, systemScheduler := r.gs }
        if r.status = .success then
          (.success, s.setTenant id { tenant with hasBacklog := true, tenantSession := r.session })
        else (r.status, s)

/-! ## Enqueue -/

/-- `session_available_fn` as enqueue, complete, cancel and the timeout check call it. -/
def notifyIf (s : Scheduler) (cond : Bool) : List Callback :=
  if cond && s.config.sessionAvailableFn then [.sessionAvailable] else []

def Scheduler.hasCapacity (s : Scheduler) : Bool := s.inFlightWorkSize < s.totalCapacity

def newContext (s : Scheduler) (addr : Addr) (tenantId flowId : ℕ) (work : Session) (now : ℕ) :
    FlowSessionContext :=
  { addr := addr
    tenantId := tenantId
    flowId := flowId
    userData := work.userData.toNat
    workSize := work.workSize.toNat
    enqueueTimeNs := if s.config.enableStatistics then now else 0
    timeoutNs := work.timeoutNs.toNat
    cleanupFn := work.cleanupFn }

/-- The end of `hwfq_enqueue`, once the context of the session is there. -/
def offerSession (s : Scheduler) (tenantId flowId : ℕ) (tenant : Tenant)
    (context : FlowSessionContext) : Status × List Callback × Scheduler :=
  let tenant := tenant.mapStats flowId Stats.backlogUp
  let r := groupSchedulerEnqueue s.mem tenant.flowScheduler flowId context.workSize (some context)
    true
  let s := { s with mem := r.mem }
  let tenant := { tenant with flowScheduler := r.gs }
  if r.status = .success then
    -- a token that cannot be registered now is tried again later
    let s := (registerTenantBacklog (s.setTenant tenantId tenant) tenantId).2
    (.success, notifyIf s s.hasCapacity, s)
  else (r.status, [], s.setTenant tenantId (tenant.mapStats flowId Stats.backlogDown))

/-- `now` is the reading of the monotonic clock. -/
def hwfqEnqueue (s : Scheduler) (tenantId flowId : ℕ) (work : Option Session) (now : ℕ) :
    Status × List Callback × Scheduler :=
  match work with
  | none => (.invalidArg, [], s)
  | some work =>
      if work.workSize = 0 then (.invalidArg, [], s)
      else if tenantId ≥ s.maxTenants then (.invalidArg, [], s)
      else if flowId = flowIdReserved then (.invalidArg, [], s)
      else
        match s.configuredTenant tenantId with
        | none => (.notFound, [], s)
        | some tenant =>
            if (findFlowEntry tenant flowId).isNone then (.notFound, [], s)
            else
              match hwfqAlloc s.mem 1 with
              | (none, mem) => (.noMemory, [], { s with mem := mem })
              | (some addr, mem) =>
                  offerSession { s with mem := mem } tenantId flowId tenant
                    (newContext s addr tenantId flowId work now)

/-! ## Dequeue -/

/-- What `hwfq_dequeue` writes through its output pointers. -/
structure Delivery where
  tenantId : ℕ
  flowId : ℕ
  userData : UserData
  workSize : ℕ
  timestamp : ℕ
deriving DecidableEq, Repr

/-- The first half of `hwfq_dequeue`: take a token, charge the system clock, take a
session of the tenant. `tenantId` is the slot of the tenant. -/
inductive Selection where
  | refused (status : Status)
  | selected (tenantId : ℕ) (context : FlowSessionContext)

def dequeueSelect (s : Scheduler) : Selection × Scheduler :=
  if groupSchedulerIsEmpty s.systemScheduler then (.refused .noWork, s)
  else
    match groupSchedulerDequeue s.systemScheduler with
    | (none, system) => (.refused .noWork, { s with systemScheduler := system })
    | (some tenantSession, system) =>
        let s := { s with systemScheduler := system }
        match tenantSession.userData.bind s.tenantAt with
        | none => (.refused .internal, s)
        | some tenant =>
            let s := { s with
              systemScheduler := groupSchedulerUpdateVirtualTime system tenantSession.workSize }
            let (flowSession, flows) := groupSchedulerDequeue tenant.flowScheduler
            let s := s.setTenant tenant.tenantId
              { tenant with hasBacklog := false, tenantSession := none, flowScheduler := flows }
            match flowSession.bind (·.userData) with
            | none => (.refused .internal, s)
            | some context => (.selected tenant.tenantId context, s)

/-- Queue a selected session and its tenant again. Both results are ignored. -/
def putBack (s : Scheduler) (id : ℕ) (context : FlowSessionContext) : Scheduler :=
  let s := (registerTenantBacklog s id).2
  match s.tenants id with
  | none => s
  | some tenant =>
      let r := groupSchedulerEnqueue s.mem tenant.flowScheduler context.flowId context.workSize
        (some context) true
      { s with mem := r.mem }.setTenant id { tenant with flowScheduler := r.gs }

/-- The test of `hwfq_dequeue` against `total_capacity`, in 64-bit arithmetic. -/
def overCapacity (s : Scheduler) (context : FlowSessionContext) : Bool :=
  decide (s.totalCapacity > 0) &&
    decide (u64 (s.inFlightWorkSize + context.workSize) > s.totalCapacity)

/-- Charge the flow clock of the tenant. -/
def chargeFlow (s : Scheduler) (id workSize : ℕ) : Scheduler :=
  match s.tenants id with
  | none => s
  | some tenant =>
      s.setTenant id
        { tenant with
          flowScheduler := groupSchedulerUpdateVirtualTime tenant.flowScheduler workSize }

def newInFlightEntry (context : FlowSessionContext) (addr : Addr) (now : ℕ) : InFlightEntry :=
  { addr := addr
    tenantId := context.tenantId
    flowId := context.flowId
    workSize := context.workSize
    dequeueTimeNs := now
    timeoutNs := context.timeoutNs
    userData := context.userData }

def Stats.addWait (waitTimeNs : ℕ) (stats : Stats) : Stats :=
  { stats with totalWaitTimeNs := u64 (stats.totalWaitTimeNs + waitTimeNs) }

/-- The wait statistics of `hwfq_dequeue`, when both the tenant and the flow are there. -/
def recordWait (s : Scheduler) (id : ℕ) (context : FlowSessionContext) (now : ℕ) : Scheduler :=
  match s.tenants id with
  | none => s
  | some tenant =>
      if s.config.enableStatistics && (findFlowEntry tenant context.flowId).isSome then
        let waitTimeNs := if context.enqueueTimeNs > 0 then subU64 now context.enqueueTimeNs else 0
        s.setTenant id (tenant.mapStats context.flowId (Stats.addWait waitTimeNs))
      else s

/-- Put an entry into the table and onto the in-flight totals. -/
def addInFlight (s : Scheduler) (entry : InFlightEntry) : Scheduler :=
  let s := inFlightInsert s entry
  { s with
    inFlightWorkSize := u64 (s.inFlightWorkSize + entry.workSize)
    inFlightCount := u32 (s.inFlightCount + 1) }

/-- A new token for a tenant that still has queued sessions. -/
def registerIfBacklogged (s : Scheduler) (id : ℕ) : Scheduler :=
  match s.tenants id with
  | none => s
  | some tenant =>
      if groupSchedulerIsEmpty tenant.flowScheduler then s else (registerTenantBacklog s id).2

/-- The end of `hwfq_dequeue`, once the in-flight entry is there. -/
def deliverSession (s : Scheduler) (id : ℕ) (context : FlowSessionContext) (addr : Addr)
    (now : ℕ) : Status × Option Delivery × Scheduler :=
  let s := addInFlight s (newInFlightEntry context addr now)
  let s := recordWait s id context now
  (.success,
    some ⟨context.tenantId, context.flowId, context.userData, context.workSize,
      context.enqueueTimeNs⟩,
    registerIfBacklogged s id)

/-- A NULL `tenant_id_out` or `flow_id_out` only drops that result, so the two are
not parameters; `workOut` says whether `work_out` is not NULL. -/
def hwfqDequeue (s : Scheduler) (workOut : Bool) (now : ℕ) : Status × Option Delivery × Scheduler :=
  if !workOut then (.invalidArg, none, s)
  else
    match dequeueSelect s with
    | (.refused status, s) => (status, none, s)
    | (.selected id context, s) =>
        if overCapacity s context then (.noWork, none, putBack s id context)
        else
          let s := chargeFlow s id context.workSize
          match hwfqAlloc s.mem 1 with
          | (none, mem) => (.noMemory, none, putBack { s with mem := mem } id context)
          | (some addr, mem) => deliverSession { s with mem := mem } id context addr now

/-! ## Complete, cancel and timeouts -/

def Stats.addCompletion (workSize : ℕ) (stats : Stats) : Stats :=
  { stats with
    workUnitsProcessed := u64 (stats.workUnitsProcessed + workSize)
    operationsCompleted := u64 (stats.operationsCompleted + 1) }

/-- Rewrite the statistics of a session's tenant and flow where they are there. The
flow is looked up in a configured tenant only. -/
def updateStats (s : Scheduler) (tenantId flowId : ℕ) (f : Stats → Stats) : Scheduler :=
  if tenantId < s.maxTenants then
    match s.tenants tenantId with
    | none => s
    | some tenant =>
        s.setTenant tenantId
          (if tenant.configured then tenant.mapStats flowId f
          else { tenant with stats := f tenant.stats })
  else s

/-- The tenant that complete serves after its bookkeeping: a token if it has work. -/
def serveCompleted (s : Scheduler) (tenantId : ℕ) : Bool × Scheduler :=
  if tenantId < s.maxTenants then
    match s.tenants tenantId with
    | none => (false, s)
    | some tenant =>
        if groupSchedulerIsEmpty tenant.flowScheduler then (false, s)
        else (true, (registerTenantBacklog s tenantId).2)
  else (false, s)

def hwfqComplete (s : Scheduler) (work : Option Session) (tenantId flowId : ℕ) :
    Status × List Callback × Scheduler :=
  match inFlightLookup s work tenantId flowId with
  | none => (.notFound, [], s)
  | some found =>
      let s := takeInFlight s found
      let s := updateStats s tenantId flowId Stats.backlogDownIfPositive
      let s :=
        if s.config.enableStatistics then
          updateStats s tenantId flowId (Stats.addCompletion found.workSize)
        else s
      let hasCapacity := s.hasCapacity
      let hasWork := !groupSchedulerIsEmpty s.systemScheduler
      let (tenantHasWork, s) := serveCompleted s tenantId
      (.success, notifyIf s (hasCapacity && (hasWork || tenantHasWork)), s)

def hwfqCancel (s : Scheduler) (work : Option Session) (tenantId flowId : ℕ) :
    Status × List Callback × Scheduler :=
  match inFlightLookup s work tenantId flowId with
  | none => (.notFound, [], s)
  | some found =>
      let s := takeInFlight s found
      let s := updateStats s found.tenantId found.flowId Stats.backlogDownIfPositive
      (.success, notifyIf s (s.hasCapacity && !groupSchedulerIsEmpty s.systemScheduler), s)

/-- The elapsed time is a 64-bit difference. -/
def isTimedOut (currentTimeNs : ℕ) (entry : InFlightEntry) : Bool :=
  decide (entry.timeoutNs > 0) &&
    decide (subU64 currentTimeNs entry.dequeueTimeNs ≥ entry.timeoutNs)

/-- The scan of `hwfq_check_timeouts`; the list of timed out entries is a stack. -/
def scanTimeouts (s : Scheduler) (currentTimeNs : ℕ) : List InFlightEntry × Scheduler :=
  s.inFlight.foldl
    (fun (timedOutList, s) entry =>
      if isTimedOut currentTimeNs entry then (entry :: timedOutList, takeInFlight s entry)
      else (timedOutList, s))
    ([], s)

def hwfqCheckTimeouts (s : Scheduler) (currentTimeNs : ℕ) : ℕ × List Callback × Scheduler :=
  let (timedOutList, s) := scanTimeouts s currentTimeNs
  let timeoutCount := u32 timedOutList.length
  let timeouts :=
    if s.config.sessionTimeoutFn then
      timedOutList.map fun e =>
        Callback.sessionTimeout e.tenantId e.flowId e.userData e.workSize e.timeoutNs
    else []
  let available :=
    notifyIf s (decide (timeoutCount > 0) && s.hasCapacity &&
      !groupSchedulerIsEmpty s.systemScheduler)
  (timeoutCount, timeouts ++ available, s)

end Hwfq
