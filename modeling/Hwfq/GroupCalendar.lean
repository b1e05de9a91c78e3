import Hwfq.ChunkedEntries
import Hwfq.MinSearch
import Hwfq.SetBits

/-!
# The calendar queue of one group scheduler

`hwfq_group_calendar.c` and the state of `hwfq_group_scheduler_internal.h`. A bin
list is the list of its sessions from `bin_heads[b]` along `bin_next`. Bit `b` of
the bin bitfield is bit `b % 32` of word `b / 32`; the group bitfield has 32 words,
one bit for each bin word.
-/
namespace Hwfq
open SetBits MinSearch

/-- `session_state_t` with user data pointing to an `α`. The address names the
object: two sessions with equal fields are still two sessions. -/
structure SessionState (α : Type*) where
  addr : Addr
  entryId : ℕ
  startTime : ℕ
  finishTime : ℕ
  serviceInterval : ℕ
  groupIndex : ℕ
  binIndex : ℕ
  userData : Option α
  workSize : ℕ
  cleanupFn : Bool
deriving DecidableEq, Repr

/-- `group_scheduler_t`. The entry store is owned by the caller in the source; it
is reached through this scheduler only, so it is kept here. -/
structure GroupScheduler (α : Type*) where
  binBitfield : ℕ → BitVec 32
  binHeads : ℕ → List (SessionState α)
  groupBitfield : ℕ → BitVec 32
  entries : ChunkedEntries
  maxEntries : ℕ
  configuredEntries : List ℕ
  allocatedRateCapacity : ℕ
  totalWeight : ℕ
  numGroups : ℕ
  binsPerGroup : ℕ
  numBins : ℕ
  binBitfieldSize : ℕ
  baseInterval : ℕ
  totalCapacity : ℕ
  virtualTime : ℕ
  activeSessionCount : ℕ
  minFinishTime : ℕ
  minStartTime : ℕ
  minSession : Option Addr

variable {α : Type*}

/-! ## Bitfields and bin numbers -/

def setBinBit (bitfield : ℕ → BitVec 32) (binIndex : ℕ) : ℕ → BitVec 32 :=
  Function.update bitfield (binIndex / 32) (set (bitfield (binIndex / 32)) (binIndex % 32))

def clearBinBit (bitfield : ℕ → BitVec 32) (binIndex : ℕ) : ℕ → BitVec 32 :=
  Function.update bitfield (binIndex / 32) (clear (bitfield (binIndex / 32)) (binIndex % 32))

/-- `63 - clzll(ratio)` is the binary logarithm of a positive ratio. -/
def calculateGroupIndexFromInterval (serviceInterval baseInterval : ℕ) : ℕ :=
  if baseInterval = 0 then 0
  else if serviceInterval ≤ baseInterval then 0
  else
    let group := Nat.log2 (serviceInterval / baseInterval)
    if group > 15 then 15 else group

def calculateBinIndexFromFinishTime (finishTime groupIndex binsPerGroup baseInterval : ℕ) : ℕ :=
  if binsPerGroup = 0 ∨ baseInterval = 0 then 0
  else
    let groupIntervalRange := u64 (baseInterval <<< (groupIndex + 1))
    let binSize := groupIntervalRange / binsPerGroup
    let binSize := if binSize = 0 then 1 else binSize
    let bin := u32 (finishTime % groupIntervalRange / binSize)
    if bin ≥ binsPerGroup then binsPerGroup - 1 else bin

/-! ## Bin lists -/

def sessionLess (a b : SessionState α) : Bool :=
  if a.finishTime ≠ b.finishTime then a.finishTime < b.finishTime else a.startTime < b.startTime

def binListInsert (gs : GroupScheduler α) (binIndex : ℕ) (session : SessionState α) :
    ℕ → List (SessionState α) :=
  Function.update gs.binHeads binIndex (insertSorted sessionLess session (gs.binHeads binIndex))

/-- Unlink the node at the address of `session`. -/
def binListRemove (gs : GroupScheduler α) (binIndex : ℕ) (session : SessionState α) :
    ℕ → List (SessionState α) :=
  Function.update gs.binHeads binIndex
    ((gs.binHeads binIndex).eraseP fun s => s.addr = session.addr)

/-! ## Calendar operations -/

/-- The absolute bin of a session, in 32-bit arithmetic. -/
def sessionBin (gs : GroupScheduler α) (session : SessionState α) : ℕ :=
  u32 (session.groupIndex * gs.binsPerGroup +
    calculateBinIndexFromFinishTime session.finishTime session.groupIndex gs.binsPerGroup
      gs.baseInterval)

def calendarInsertSession (gs : GroupScheduler α) (session : SessionState α) :
    Status × GroupScheduler α :=
  let binIndex := sessionBin gs session
  if binIndex ≥ gs.numBins then (.internal, gs)
  else
    let session := { session with binIndex := binIndex }
    let groupWord := binIndex / 32 / 32
    let groupBit := binIndex / 32 % 32
    (.success,
      { gs with
        binHeads := binListInsert gs binIndex session
        binBitfield := setBinBit gs.binBitfield binIndex
        groupBitfield :=
          if groupWord < 32 then
            Function.update gs.groupBitfield groupWord (set (gs.groupBitfield groupWord) groupBit)
          else gs.groupBitfield
        minFinishTime :=
          if session.finishTime < gs.minFinishTime then session.finishTime else gs.minFinishTime
        minSession :=
          if session.finishTime < gs.minFinishTime then some session.addr else gs.minSession
        minStartTime :=
          if session.startTime < gs.minStartTime then session.startTime else gs.minStartTime })

/-- The first session of a bin list that is eligible at `virtualTime`. -/
def eligibleInBin (gs : GroupScheduler α) (virtualTime binIdx : ℕ) : Option (SessionState α) :=
  (gs.binHeads binIdx).find? fun cand => !decide (cand.startTime > virtualTime)

/-- The bins of one bin word in the order of the search, cut off at the first
bin that is not below `bin_end`. -/
def searchedBins (gs : GroupScheduler α) (binGroupIdx : ℕ) : List ℕ :=
  let binStart := binGroupIdx * 32
  let binEnd := if binStart + 32 > gs.numBins then gs.numBins else binStart + 32
  let wordIdx := binStart / 32
  ((setBits (gs.binBitfield wordIdx)).map (wordIdx * 32 + ·)).takeWhile (· < binEnd)

def findEligibleMinBitfield (gs : GroupScheduler α) (virtualTime : ℕ) : Option (SessionState α) :=
  ((List.range 32).foldl
    (fun best gword =>
      if gs.groupBitfield gword = 0#32 then best
      else
        (setBits (gs.groupBitfield gword)).foldl
          (fun best groupBit =>
            (searchedBins gs (gword * 32 + groupBit)).foldl
              (fun best binIdx =>
                keepBest SessionState.finishTime best (eligibleInBin gs virtualTime binIdx))
              best)
          best)
    (none, uint64Max)).1

def calendarFindMinSession (gs : GroupScheduler α) :
    Option (SessionState α) × GroupScheduler α :=
  if gs.activeSessionCount = 0 then (none, gs)
  else
    let found :=
      match findEligibleMinBitfield gs gs.virtualTime with
      | some s => (some s, gs)
      | none =>
          if gs.minStartTime ≠ uint64Max then
            -- jump ahead, never backwards
            let gs :=
              if gs.minStartTime > gs.virtualTime then { gs with virtualTime := gs.minStartTime }
              else gs
            (findEligibleMinBitfield gs gs.virtualTime, gs)
          else (none, gs)
    match found with
    | (some s, gs) => (some s, { gs with minFinishTime := s.finishTime })
    | (none, gs) => (none, gs)

/-- The rescan of `calendar_remove_session`: every session of every bin whose
bits are set. -/
def rescanMinStartTime (gs : GroupScheduler α) : ℕ :=
  (List.range 32).foldl
    (fun m gword =>
      if gs.groupBitfield gword = 0#32 then m
      else
        (setBits (gs.groupBitfield gword)).foldl
          (fun m groupBit =>
            let wordIdx := gword * 32 + groupBit
            if wordIdx < gs.binBitfieldSize then
              (setBits (gs.binBitfield wordIdx)).foldl
                (fun m bitPos =>
                  let binIdx := wordIdx * 32 + bitPos
                  if binIdx < gs.numBins then
                    (gs.binHeads binIdx).foldl (keepMin SessionState.startTime) m
                  else m)
                m
            else m)
          m)
    uint64Max

/-- Unlink a session and clear the bits of a bin and of a bin word that became empty. -/
def unlinkSession (gs : GroupScheduler α) (session : SessionState α) : GroupScheduler α :=
  let binIndex := session.binIndex
  let gs := { gs with binHeads := binListRemove gs binIndex session }
  if gs.binHeads binIndex = [] then
    let gs := { gs with binBitfield := clearBinBit gs.binBitfield binIndex }
    let wordIdx := binIndex / 32
    if wordIdx < gs.binBitfieldSize ∧ gs.binBitfield wordIdx = 0#32 then
      let groupWord := wordIdx / 32
      let groupBit := wordIdx % 32
      { gs with
        groupBitfield :=
          if groupWord < 32 then
            Function.update gs.groupBitfield groupWord (clear (gs.groupBitfield groupWord) groupBit)
          else gs.groupBitfield }
    else gs
  else gs

def calendarRemoveSession (gs : GroupScheduler α) (session : SessionState α) :
    Status × GroupScheduler α :=
  if session.binIndex ≥ gs.numBins then (.internal, gs)
  else
    let gs := unlinkSession gs session
    let gs :=
      if gs.minSession = some session.addr then
        { gs with minSession := none, minFinishTime := uint64Max }
      else gs
    let gs :=
      if session.startTime = gs.minStartTime then
        { gs with minStartTime := rescanMinStartTime gs }
      else gs
    (.success, gs)

end Hwfq
