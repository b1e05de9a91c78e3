import Mathlib.Logic.Function.Basic
import Mathlib.Tactic.SplitIfs
import Hwfq.Types

/-!
# Chunked entry storage

`hwfq_chunked_entries.c`: entries live in chunks of 1024 slots reached through an
array of chunk pointers that grows by doubling. Freed slots are threaded into a
free list through their `entry_id` field. An entry pointer is the id of its slot;
chunks never move, so the pointer stays good for as long as the store lives.
-/
namespace Hwfq

def chunkShift : ℕ := 10
def chunkSize : ℕ := 1024
def chunkMask : ℕ := 1023
def maxChunks : ℕ := 1048576

/-- `HWFQ_ENTRY_NONE`. -/
def entryNone : ℕ := uint32Max

/-- The counters of `hwfq_flow_stats_t` and `hwfq_tenant_stats_t` that the
library writes. -/
structure Stats where
  workUnitsProcessed : ℕ := 0
  operationsCompleted : ℕ := 0
  totalWaitTimeNs : ℕ := 0
  currentBacklog : ℕ := 0
deriving DecidableEq, Repr

/-- `entry_config_t`. The link `next_configured` is the list
`configuredEntries` of the group scheduler. -/
structure EntryConfig where
  entryId : ℕ
  configured : Bool
  allocation : Allocation
  calculatedRate : ℕ
  lastFinishTime : ℕ
  stats : Stats
deriving DecidableEq, Repr

/-- An entry of a chunk right after `memset`. -/
def EntryConfig.zero : EntryConfig := ⟨0, false, .weight 0, 0, 0, {}⟩

structure ChunkedEntries where
  chunks : ℕ → Option (ℕ → EntryConfig)
  numChunks : ℕ
  numAllocated : ℕ
  numConfigured : ℕ
  freeHead : ℕ
  maxEntries : ℕ

def hwfqChunkedGet (ce : ChunkedEntries) (entryId : ℕ) : Option EntryConfig :=
  let chunk := entryId >>> chunkShift
  let slot := entryId &&& chunkMask
  if chunk ≥ ce.numChunks then none else (ce.chunks chunk).map (· slot)

/-- A write through the entry pointer of `entryId`. -/
def ChunkedEntries.write (ce : ChunkedEntries) (entryId : ℕ) (f : EntryConfig → EntryConfig) :
    ChunkedEntries :=
  let chunk := entryId >>> chunkShift
  let slot := entryId &&& chunkMask
  { ce with
    chunks := Function.update ce.chunks chunk
      ((ce.chunks chunk).map fun entries => Function.update entries slot (f (entries slot))) }

def hwfqChunkedEntriesInit (maxEntries : ℕ) : ChunkedEntries :=
  { chunks := fun _ => none, numChunks := 0, numAllocated := 0, numConfigured := 0,
    freeHead := entryNone, maxEntries := maxEntries }

/-- `while (alloc_chunks < new_num_chunks) alloc_chunks *= 2`; twenty-one rounds
reach every count of chunks the store can ask for. -/
def doubleUntil (newNumChunks : ℕ) : ℕ → ℕ → ℕ
  | 0, allocChunks => allocChunks
  | fuel + 1, allocChunks =>
      if allocChunks < newNumChunks then doubleUntil newNumChunks fuel (allocChunks * 2)
      else allocChunks

/-- The first half of `allocate_chunk`: make the pointer array reach `chunkIndex`. -/
def growChunks (mem : Allocator) (ce : ChunkedEntries) (chunkIndex : ℕ) :
    Status × Allocator × ChunkedEntries :=
  if chunkIndex ≥ ce.numChunks then
    let doubled := doubleUntil (chunkIndex + 1) 21 1
    let allocChunks := if doubled > maxChunks then maxChunks else doubled
    match hwfqAlloc mem allocChunks with
    | (none, mem) => (.noMemory, mem, ce)
    | (some _, mem) =>
        (.success, mem,
          { ce with
            chunks := fun i => if i < ce.numChunks then ce.chunks i else none
            numChunks := allocChunks })
  else (.success, mem, ce)

def allocateChunk (mem : Allocator) (ce : ChunkedEntries) (chunkIndex : ℕ) :
    Status × Allocator × ChunkedEntries :=
  if chunkIndex ≥ maxChunks then (.noMemory, mem, ce)
  else
    match growChunks mem ce chunkIndex with
    | (.success, mem, ce) =>
        match ce.chunks chunkIndex with
        | some _ => (.success, mem, ce)
        | none =>
            match hwfqAlloc mem chunkSize with
            | (none, mem) => (.noMemory, mem, ce)
            | (some _, mem) =>
                (.success, mem,
                  { ce with
                    chunks := Function.update ce.chunks chunkIndex
                      (some fun _ => EntryConfig.zero) })
    | failed => failed

/-- The number of entries the store may hold. -/
def ChunkedEntries.limit (ce : ChunkedEntries) : ℕ :=
  if ce.maxEntries > 0 then ce.maxEntries else maxChunks * chunkSize

/-- The branch of `hwfq_chunked_entries_alloc` that takes a slot never used before. -/
def allocFresh (mem : Allocator) (ce : ChunkedEntries) :
    Except Status ℕ × Allocator × ChunkedEntries :=
  let chunkIndex := ce.numAllocated >>> chunkShift
  let slot := ce.numAllocated &&& chunkMask
  match allocateChunk mem ce chunkIndex with
  | (.success, mem, ce) =>
      let entryId := (chunkIndex <<< chunkShift) ||| slot
      let ce := ce.write entryId fun _ => { EntryConfig.zero with entryId := entryId }
      (.ok entryId, mem,
        { ce with
          numAllocated := ce.numAllocated + 1
          numConfigured := ce.numConfigured + 1 })
  | (ret, mem, ce) => (.error ret, mem, ce)

def hwfqChunkedEntriesAlloc (mem : Allocator) (ce : ChunkedEntries) :
    Except Status ℕ × Allocator × ChunkedEntries :=
  if ce.numConfigured ≥ ce.limit then (.error .noMemory, mem, ce)
  else if ce.freeHead ≠ entryNone then
    match hwfqChunkedGet ce ce.freeHead with
    | some entry =>
        -- a recycled slot keeps everything but its id and its flag
        let taken := ce.write ce.freeHead fun e =>
          { e with entryId := ce.freeHead, configured := false }
        (.ok ce.freeHead, mem,
          { taken with
            freeHead := entry.entryId
            numConfigured := ce.numConfigured + 1 })
    | none => allocFresh mem { ce with freeHead := entryNone }
  else allocFresh mem ce

def hwfqChunkedEntriesFree (ce : ChunkedEntries) (entryId : ℕ) : ChunkedEntries :=
  match hwfqChunkedGet ce entryId with
  | none => ce
  | some _ =>
      let freed := ce.write entryId fun e => { e with configured := false, entryId := ce.freeHead }
      { freed with
        freeHead := entryId
        numConfigured := if ce.numConfigured > 0 then ce.numConfigured - 1 else ce.numConfigured }

def hwfqChunkedEntriesHasCapacity (ce : ChunkedEntries) : Bool :=
  if ce.freeHead ≠ entryNone then true else decide (ce.numAllocated < ce.limit)

/-- `reset_flow_stats`: the backlog survives. -/
def resetFlowStats (entry : EntryConfig) : EntryConfig :=
  if entry.configured then
    { entry with stats := { currentBacklog := entry.stats.currentBacklog } }
  else entry

/-- `reset_all_flow_stats`: every slot of every chunk. -/
def resetAllFlowStats (ce : ChunkedEntries) : ChunkedEntries :=
  { ce with
    chunks := fun c =>
      if c < ce.numChunks then
        (ce.chunks c).map fun entries s =>
          if s < chunkSize then resetFlowStats (entries s) else entries s
      else ce.chunks c }

end Hwfq
