import Hwfq.GroupCalendar

/-!
# One WF2Q+ group scheduler

`hwfq_group_scheduler.c`: entries with a rate or a weight, sessions tagged with
start and finish times in virtual time, and the virtual clock with its rebase.
Locks are not modelled: every function runs to its end before the next starts.
-/
namespace Hwfq

variable {α : Type*}

def timePrecisionShift : ℕ := 20

/-- `HWFQ_REBASE_THRESHOLD`. -/
def rebaseThreshold : ℕ := uint64Max / 2

def rateMarginShift : ℕ := 1

/-- The test that `validate_allocation` and `group_scheduler_configure_entry` share. -/
def validateAllocation : Allocation → Bool
  | .weight w => w ≠ 0
  | .rate r => r ≠ 0
  | .other => false

/-- The weight read from the union; 0 stands for the padding of other kinds. -/
def Allocation.weightValue : Allocation → ℕ
  | .weight w => w.toNat
  | _ => 0

/-! ## Rates -/

def calculateEffectiveRate (gs : GroupScheduler α) (entry : EntryConfig) : ℕ :=
  let withMargin (rate : ℕ) : ℕ :=
    let rate := rate >>> rateMarginShift
    if rate = 0 then 1 else rate
  match entry.allocation with
  | .rate rate => withMargin rate.toNat
  | allocation =>
      if gs.totalWeight = 0 then 0
      else
        let available := subU64 gs.totalCapacity gs.allocatedRateCapacity
        withMargin (u64 (allocation.weightValue * available) / gs.totalWeight)

def recalculateWeightBasedRates (gs : GroupScheduler α) : GroupScheduler α :=
  let refresh (entry : EntryConfig) : EntryConfig :=
    match entry.allocation with
    | .weight _ => { entry with calculatedRate := calculateEffectiveRate gs entry }
    | _ => entry
  { gs with entries := gs.configuredEntries.foldl (fun ce id => ce.write id refresh) gs.entries }

/-! ## Construction and destruction -/

/-- `group_scheduler_init_with_entries`. -/
def groupSchedulerInitWithEntries (α : Type*) (mem : Allocator)
    (numGroups binsPerGroup totalCapacity maxEntries : ℕ) (entries : ChunkedEntries) :
    Option (GroupScheduler α) × Allocator :=
  if numGroups = 0 ∨ binsPerGroup = 0 ∨ maxEntries = 0 then (none, mem)
  else
    let numBins := u32 (numGroups * binsPerGroup)
    let binBitfieldSize := u32 (numBins + 31) / 32
    match hwfqAlloc mem 1 with
    | (none, mem) => (none, mem)
    | (some _, mem) =>
        match hwfqAlloc mem binBitfieldSize with
        | (none, mem) => (none, mem)
        | (some _, mem) =>
            match hwfqAlloc mem numBins with
            | (none, mem) => (none, mem)
            | (some _, mem) =>
                (some
                  { binBitfield := fun _ => 0#32
                    binHeads := fun _ => []
                    groupBitfield := fun _ => 0#32
                    entries := entries
                    maxEntries := maxEntries
                    configuredEntries := []
                    allocatedRateCapacity := 0
                    totalWeight := 0
                    numGroups := numGroups
                    binsPerGroup := binsPerGroup
                    numBins := numBins
                    binBitfieldSize := binBitfieldSize
                    baseInterval := 1
                    totalCapacity := totalCapacity
                    virtualTime := 0
                    activeSessionCount := 0
                    minFinishTime := uint64Max
                    minStartTime := uint64Max
                    minSession := none }, mem)

/-- `group_scheduler_destroy` frees every queued session bin by bin. The result
is the user data its cleanup callback is called on, in that order. -/
def groupSchedulerDestroy (gs : GroupScheduler α) : List (Option α) :=
  (List.range (u32 (gs.numGroups * gs.binsPerGroup))).flatMap fun i =>
    ((gs.binHeads i).filter (·.cleanupFn)).map (·.userData)

/-! ## Entries -/

def groupSchedulerGetEntry (gs : GroupScheduler α) (entryId : ℕ) : Option EntryConfig :=
  hwfqChunkedGet gs.entries entryId

def groupSchedulerFindEntry (gs : GroupScheduler α) (entryId : ℕ) : Option EntryConfig :=
  (hwfqChunkedGet gs.entries entryId).filter (·.configured)

def GroupScheduler.writeEntry (gs : GroupScheduler α) (entryId : ℕ)
    (f : EntryConfig → EntryConfig) : GroupScheduler α :=
  { gs with entries := gs.entries.write entryId f }

/-- Subtract an allocation from the sums. -/
def GroupScheduler.release (gs : GroupScheduler α) : Allocation → GroupScheduler α
  | .rate rate =>
      { gs with allocatedRateCapacity := subU64 gs.allocatedRateCapacity rate.toNat }
  | allocation => { gs with totalWeight := subU32 gs.totalWeight allocation.weightValue }

/-- Add an allocation to the sums. -/
def GroupScheduler.reserve (gs : GroupScheduler α) : Allocation → GroupScheduler α
  | .rate rate =>
      { gs with allocatedRateCapacity := u64 (gs.allocatedRateCapacity + rate.toNat) }
  | allocation => { gs with totalWeight := u32 (gs.totalWeight + allocation.weightValue) }

/-- The tail of `group_scheduler_configure_entry` after its last check. -/
def commitEntry (gs : GroupScheduler α) (entry : EntryConfig) (entryId : ℕ)
    (allocation : Allocation) : GroupScheduler α :=
  let gs := gs.reserve allocation
  let gs := gs.writeEntry entryId fun e =>
    { e with
      entryId := entryId
      allocation := allocation
      calculatedRate := allocation.reserved
      lastFinishTime := 0
      configured := true }
  recalculateWeightBasedRates
    { gs with
      configuredEntries :=
        if entry.configured then gs.configuredEntries else entryId :: gs.configuredEntries }

def groupSchedulerConfigureEntry (gs : GroupScheduler α) (entryId : ℕ) (allocation : Allocation) :
    Status × GroupScheduler α :=
  if entryId ≥ gs.maxEntries then (.invalidArg, gs)
  else if !validateAllocation allocation then (.invalidArg, gs)
  else
    match groupSchedulerGetEntry gs entryId with
    | none => (.notFound, gs)
    | some entry =>
        let released := if entry.configured then gs.release entry.allocation else gs
        let newTotal := u64 (released.allocatedRateCapacity + allocation.reserved)
        match allocation with
        | .rate _ =>
            if newTotal > released.totalCapacity then
              (.overbooked,
                if entry.configured then released.reserve entry.allocation else released)
            else (.success, commitEntry released entry entryId allocation)
        | _ => (.success, commitEntry released entry entryId allocation)

def groupSchedulerRemoveEntry (gs : GroupScheduler α) (entryId : ℕ) :
    Status × GroupScheduler α :=
  if entryId ≥ gs.maxEntries then (.invalidArg, gs)
  else
    match groupSchedulerFindEntry gs entryId with
    | none => (.notFound, gs)
    | some entry =>
        let gs := gs.release entry.allocation
        let gs := { gs with configuredEntries := gs.configuredEntries.erase entryId }
        let gs := gs.writeEntry entryId fun e => { e with configured := false }
        (.success, recalculateWeightBasedRates gs)

/-! ## Enqueue and dequeue -/

/-- The rate that enqueue divides by. -/
def entryRate (gs : GroupScheduler α) (entry : EntryConfig) : ℕ :=
  match entry.allocation with
  | .rate _ => entry.calculatedRate
  | _ => calculateEffectiveRate gs entry

def serviceIntervalOf (workSize rate : ℕ) : ℕ :=
  let scaledWork :=
    if workSize > uint64Max >>> timePrecisionShift then uint64Max
    else workSize <<< timePrecisionShift
  let serviceInterval := scaledWork / rate
  if serviceInterval = 0 then 1 else serviceInterval

/-- The session that enqueue builds: `S = max(V, F_last)` and `F = S + interval`,
capped. -/
def newSession (gs : GroupScheduler α) (entry : EntryConfig) (addr : Addr)
    (entryId workSize : ℕ) (userData : Option α) (cleanupFn : Bool) : SessionState α :=
  let serviceInterval := serviceIntervalOf workSize (entryRate gs entry)
  let startTime :=
    if gs.virtualTime > entry.lastFinishTime then gs.virtualTime else entry.lastFinishTime
  let finishTime :=
    if startTime > uint64Max - serviceInterval then uint64Max else startTime + serviceInterval
  { addr := addr
    entryId := entryId
    startTime := startTime
    finishTime := finishTime
    serviceInterval := serviceInterval
    groupIndex := calculateGroupIndexFromInterval serviceInterval gs.baseInterval
    binIndex := 0
    userData := userData
    workSize := workSize
    cleanupFn := cleanupFn }

structure EnqueueResult (α : Type*) where
  status : Status
  /-- `*session_out` -/
  session : Option Addr
  mem : Allocator
  gs : GroupScheduler α

def groupSchedulerEnqueue (mem : Allocator) (gs : GroupScheduler α) (entryId workSize : ℕ)
    (userData : Option α) (cleanupFn : Bool) : EnqueueResult α :=
  if workSize = 0 then ⟨.invalidArg, none, mem, gs⟩
  else if entryId ≥ gs.maxEntries then ⟨.invalidArg, none, mem, gs⟩
  else
    match groupSchedulerFindEntry gs entryId with
    | none => ⟨.notFound, none, mem, gs⟩
    | some entry =>
        if entryRate gs entry = 0 then ⟨.internal, none, mem, gs⟩
        else
          match hwfqAlloc mem 1 with
          | (none, mem) => ⟨.noMemory, none, mem, gs⟩
          | (some addr, mem) =>
              let session := newSession gs entry addr entryId workSize userData cleanupFn
              match calendarInsertSession gs session with
              | (.success, gs) =>
                  let gs := gs.writeEntry entryId fun e =>
                    { e with lastFinishTime := session.finishTime }
                  ⟨.success, some addr, mem,
                    { gs with activeSessionCount := u32 (gs.activeSessionCount + 1) }⟩
              | (ret, gs) => ⟨ret, none, mem, gs⟩

def groupSchedulerDequeue (gs : GroupScheduler α) : Option (SessionState α) × GroupScheduler α :=
  if gs.activeSessionCount = 0 then (none, gs)
  else
    match calendarFindMinSession gs with
    | (none, gs) => (none, gs)
    | (some session, gs) =>
        match calendarRemoveSession gs session with
        | (.success, gs) =>
            (some session, { gs with activeSessionCount := subU32 gs.activeSessionCount 1 })
        | (_, gs) => (none, gs)

def groupSchedulerIsEmpty (gs : GroupScheduler α) : Bool := gs.activeSessionCount = 0

/-! ## Virtual time -/

/-- A time stamp moved down by the offset of a rebase, cut off at zero. -/
def rebaseTime (rebaseOffset t : ℕ) : ℕ := if t ≥ rebaseOffset then t - rebaseOffset else 0

/-- A cached time stamp; the empty value of the cache stays. -/
def rebaseCached (rebaseOffset t : ℕ) : ℕ :=
  if t ≠ uint64Max then rebaseTime rebaseOffset t else t

def SessionState.rebase (rebaseOffset : ℕ) (s : SessionState α) : SessionState α :=
  { s with
    startTime := rebaseTime rebaseOffset s.startTime
    finishTime := rebaseTime rebaseOffset s.finishTime }

def groupSchedulerRebaseIfNeeded (gs : GroupScheduler α) : GroupScheduler α :=
  if gs.virtualTime < rebaseThreshold then gs
  else
    let rebaseOffset := gs.virtualTime / 2
    { gs with
      virtualTime := gs.virtualTime - rebaseOffset
      minStartTime := rebaseCached rebaseOffset gs.minStartTime
      minFinishTime := rebaseCached rebaseOffset gs.minFinishTime
      binHeads := fun bin =>
        if bin < gs.numBins then (gs.binHeads bin).map (·.rebase rebaseOffset)
        else gs.binHeads bin
      entries := gs.configuredEntries.foldl
        (fun ce id => ce.write id fun e =>
          { e with lastFinishTime := rebaseTime rebaseOffset e.lastFinishTime })
        gs.entries }

def virtualTimeDelta (gs : GroupScheduler α) (workCompleted : ℕ) : ℕ :=
  let scaledWork := u64 (workCompleted <<< timePrecisionShift)
  if gs.totalCapacity > 0 then
    let delta := scaledWork / gs.totalCapacity
    if delta = 0 then 1 else delta
  else scaledWork

/-- `max(V + delta, min S)` with a saturating sum, before any rebase. -/
def advancedVirtualTime (gs : GroupScheduler α) (workCompleted : ℕ) : ℕ :=
  let delta := virtualTimeDelta gs workCompleted
  let normalAdvance :=
    if gs.virtualTime > uint64Max - delta then uint64Max else gs.virtualTime + delta
  if normalAdvance > gs.minStartTime then normalAdvance else gs.minStartTime

def groupSchedulerUpdateVirtualTime (gs : GroupScheduler α) (workCompleted : ℕ) :
    GroupScheduler α :=
  groupSchedulerRebaseIfNeeded { gs with virtualTime := advancedVirtualTime gs workCompleted }

end Hwfq
