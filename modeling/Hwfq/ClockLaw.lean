import Hwfq.SessionRemoval

/-!
# The law of the virtual clock

`V' = max(V + delta, min S)` over the queued sessions. The cached minimum of an empty
queue is the largest time stamp, so without sessions the clock jumps to the end of its
range instead of advancing by `delta`.
-/
namespace Hwfq
open GuardedRuns

variable {α : Type*} {gs : GroupScheduler α} {mem : Allocator} {w : ℕ}

/-- The advance of the clock for `w` units of work, in unbounded integers. -/
def clockDelta (gs : GroupScheduler α) (w : ℕ) : ℕ := max 1 (w * 2 ^ 20 / gs.totalCapacity)

/-- `V + delta`, saturating. -/
def clockAdvance (gs : GroupScheduler α) (w : ℕ) : ℕ :=
  min uint64Max (gs.virtualTime + clockDelta gs w)

/-- An update sets the clock to `max(V + delta, min S)`, and to `V + delta` when nothing is
queued, before it may rebase. -/
structure ClockLaw (gs : GroupScheduler α) (w : ℕ) : Prop where
  busy : ∀ m, (∃ s ∈ gs.queued, s.startTime = m) → (∀ s ∈ gs.queued, m ≤ s.startTime) →
    groupSchedulerUpdateVirtualTime gs w =
      groupSchedulerRebaseIfNeeded { gs with virtualTime := max (clockAdvance gs w) m }
  idle : gs.queued = 0 → groupSchedulerUpdateVirtualTime gs w =
    groupSchedulerRebaseIfNeeded { gs with virtualTime := clockAdvance gs w }

theorem virtualTimeDelta_eq (hcap : 0 < gs.totalCapacity) (hw : w < 2 ^ 44) :
    virtualTimeDelta gs w = clockDelta gs w := by
  have hscaled : u64 (w <<< timePrecisionShift) = w * 2 ^ 20 := by
    rw [Nat.shiftLeft_eq, timePrecisionShift]
    apply u64_of_le
    unfold uint64Max
    omega
  unfold virtualTimeDelta clockDelta
  dsimp only
  rw [if_pos hcap, hscaled]
  split_ifs with hzero
  · rw [hzero]
    rfl
  · exact (max_eq_right (Nat.pos_of_ne_zero hzero)).symm

theorem advancedVirtualTime_clock (hcap : 0 < gs.totalCapacity) (hw : w < 2 ^ 44) :
    advancedVirtualTime gs w = max (clockAdvance gs w) gs.minStartTime := by
  have hbound := virtualTimeDelta_le gs w
  rw [advancedVirtualTime_eq, clockAdvance, ← virtualTimeDelta_eq hcap hw]
  split_ifs
  · rw [min_eq_left (by omega)]
  · rw [min_eq_right (by omega)]

theorem update_clock (hcap : 0 < gs.totalCapacity) (hw : w < 2 ^ 44) :
    groupSchedulerUpdateVirtualTime gs w =
      groupSchedulerRebaseIfNeeded
        { gs with virtualTime := max (clockAdvance gs w) gs.minStartTime } := by
  rw [← advancedVirtualTime_clock hcap hw, groupSchedulerUpdateVirtualTime]

/-- The cached minimum is the least start time of a queue that is not empty. -/
theorem ExactCache.minStartTime_eq (h : ExactCache gs) {m : ℕ}
    (hstamps : ∀ s ∈ gs.queued, s.startTime ≤ uint64Max)
    (hattained : ∃ s ∈ gs.queued, s.startTime = m) (hle : ∀ s ∈ gs.queued, m ≤ s.startTime) :
    gs.minStartTime = m := by
  obtain ⟨s, hs, rfl⟩ := hattained
  have hmin := h.least.le s hs
  rcases h.least.attained with hmax | ⟨r, hr, hatt⟩
  · have hfits := hstamps s hs
    omega
  · have hother := hle r hr
    omega

/-- Two clocks that differ still differ after a rebase, when one of them is at the end of
the range. -/
theorem rebase_of_max {v : ℕ}
    (h : (groupSchedulerRebaseIfNeeded { gs with virtualTime := uint64Max }).virtualTime =
      (groupSchedulerRebaseIfNeeded { gs with virtualTime := v }).virtualTime) : uint64Max ≤ v := by
  unfold groupSchedulerRebaseIfNeeded rebaseThreshold uint64Max at h
  unfold uint64Max
  dsimp only at h
  split_ifs at h <;> dsimp only at h <;> omega

theorem Searchable.clockLaw_iff {st : GroupState α} (h : Searchable st)
    (hcap : 0 < st.gs.totalCapacity) (hw : w < 2 ^ 44) :
    ClockLaw st.gs w ↔
      st.gs.queued ≠ 0 ∨ uint64Max ≤ st.gs.virtualTime + clockDelta st.gs w := by
  have hstamps : ∀ s ∈ st.gs.queued, s.startTime ≤ uint64Max := fun s hs =>
    (h.inv.stamps s hs).1.trans (h.inv.stamps s hs).2
  have hempty : st.gs.queued = 0 → st.gs.minStartTime = uint64Max := by
    intro hzero
    rcases h.cache.least.attained with hmax | ⟨s, hs, -⟩
    · exact hmax
    · exact absurd (hzero ▸ hs) (Multiset.notMem_zero s)
  have hjump : st.gs.queued = 0 → max (clockAdvance st.gs w) st.gs.minStartTime = uint64Max := by
    intro hzero
    rw [hempty hzero]
    exact max_eq_right (min_le_left _ _)
  constructor
  · intro hlaw
    by_cases hzero : st.gs.queued = 0
    · right
      have hidle := hlaw.idle hzero
      rw [update_clock hcap hw, hjump hzero] at hidle
      have hclock := rebase_of_max (congrArg GroupScheduler.virtualTime hidle)
      unfold clockAdvance at hclock
      omega
    · exact .inl hzero
  · intro hcond
    constructor
    · intro m hattained hle
      rw [update_clock hcap hw, h.cache.minStartTime_eq hstamps hattained hle]
    · intro hzero
      have hclock := hcond.resolve_left fun hne => hne hzero
      have hlast : clockAdvance st.gs w = uint64Max := min_eq_left hclock
      rw [update_clock hcap hw, hjump hzero, hlast]

/-! ## Runs -/

/-- No removal takes a session out that finishes at the end of the clock's range. Sessions of its
entry may start there, at the time stamp that stands for an empty queue. -/
def SparesSaturated (st : GroupState α) : CalendarCall α → Prop
  | .group _ => True
  | .removeSession addr => ∀ s ∈ st.gs.sessionAt addr, s.finishTime < uint64Max

instance (st : GroupState α) : ∀ c, Decidable (SparesSaturated st c)
  | .group _ => isTrue trivial
  | .removeSession addr =>
      inferInstanceAs (Decidable (∀ s ∈ st.gs.sessionAt addr, s.finishTime < uint64Max))

theorem ExactCache.sessionRemoved (hinv : GroupInv mem gs) (hn : gs.numBins ≤ 32768)
    (h : ExactCache gs) {s : SessionState α} (hs : s ∈ gs.queued) (hfin : s.finishTime < uint64Max) :
    ExactCache (sessionRemoved gs s) := by
  apply h.without (sessionRemoved_queued hinv.calendar hs)
  · exact removed_isMinStart hinv.calendar hn hs h.least
  · exact activeEntry_of_ledger (@removed_ledger _ gs s)
  · exact hfin

theorem Searchable.calendarStep {st : GroupState α} (h : Searchable st) {c : CalendarCall α}
    (hc : SparesSaturated st c) : Searchable (st.calendarStep c) := by
  constructor
  · exact h.inv.calendarStep c
  · have hgeo := GroupState.calendarStep_geometry h.inv c
    exact (congrArg Geometry.numBins hgeo).trans_le h.bins
  · cases h.inv.calendarEffect c with
    | @group c => exact h.cache.step h.inv h.bins c
    | absent _ after =>
      rw [after]
      exact h.cache
    | @removed _ s found queued after =>
      rw [after]
      exact h.cache.sessionRemoved h.inv h.bins queued (hc s found)

/-- The law holds exactly of the states with something queued, and of those at the end of
the range of the clock. -/
theorem clock_law_iff {numGroups binsPerGroup totalCapacity maxEntries : ℕ} {st : GroupState α}
    (h : Fresh numGroups binsPerGroup totalCapacity maxEntries st)
    (hbins : u32 (numGroups * binsPerGroup) ≤ 32768) {calls : List (CalendarCall α)}
    (hcalls : Along GroupState.calendarStep SparesSaturated st calls) {w : ℕ}
    (hcap : 0 < (run GroupState.calendarStep st calls).gs.totalCapacity) (hw : w < 2 ^ 44) :
    let gs := (run GroupState.calendarStep st calls).gs
    ClockLaw gs w ↔ gs.queued ≠ 0 ∨ uint64Max ≤ gs.virtualTime + clockDelta gs w := by
  have hlast : Searchable (run GroupState.calendarStep st calls) :=
    run_invariant (fun _ _ hs hc => hs.calendarStep hc) (h.searchable (h.numBins.trans_le hbins)) hcalls
  exact hlast.clockLaw_iff hcap hw

/-- Of two queued sessions the first one is removed. -/
def firstRemoved : List (CalendarCall ℕ) := twoEntryCalls.map .group ++ [.removeSession 6]

theorem clock_law_iff_small :
    let gs := (run GroupState.calendarStep smallGroup firstRemoved).gs
    ClockLaw gs 5 ↔ gs.queued ≠ 0 ∨ uint64Max ≤ gs.virtualTime + clockDelta gs 5 :=
  clock_law_iff smallGroup_fresh (by decide +kernel) (by decide +kernel) (by decide +kernel)
    (by decide)

-- a session behind a saturated one that was removed loses its place in the cache with a rebase
example :
    let gs := (run GroupState.calendarStep smallGroup
      [.group (.configureEntry 0 (.rate 1)), .group (.enqueue 0 (2 ^ 44) (some 1) false),
        .group (.enqueue 0 1 (some 2) false), .removeSession 6, .group (.updateVirtualTime 1)]).gs
    (gs.sessionAt 7).map (·.startTime) = some (2 ^ 63) ∧ gs.minStartTime = uint64Max := by
  decide +kernel

/-- With nothing queued, one unit of work moves the clock by half of its range. -/
theorem clock_law_fails_idle :
    defaultGroup.gs.queued = 0 ∧ ¬ ClockLaw defaultGroup.gs 1 ∧
      (groupSchedulerUpdateVirtualTime defaultGroup.gs 1).virtualTime = 9223372036854775808 := by
  have hempty : defaultGroup.gs.queued = 0 := defaultGroup_fresh.queued
  refine ⟨hempty, fun hlaw => ?_, ?_⟩
  · have hidle := congrArg GroupScheduler.virtualTime (hlaw.idle hempty)
    revert hidle
    decide +kernel
  · decide +kernel

end Hwfq
