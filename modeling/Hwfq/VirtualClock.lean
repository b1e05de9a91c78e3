import Hwfq.GroupSchedulerSteps

/-!
# The virtual clock and its rebase

`group_scheduler_update_virtual_time` moves the clock to `max(V + delta, min S)` and
then takes one offset off every time stamp of the scheduler when the clock has
passed the threshold. Without a rebase the offset is zero, so both outcomes read
the same.
-/
namespace Hwfq
open MinSearch Bins

variable {α : Type*} {gs : GroupScheduler α}

/-- What a rebase at virtual time `vt` takes off every time stamp. -/
def rebaseOffsetAt (vt : ℕ) : ℕ := if vt < rebaseThreshold then 0 else vt / 2

theorem rebaseOffsetAt_le (v : ℕ) : rebaseOffsetAt v ≤ v := by
  unfold rebaseOffsetAt
  split_ifs <;> omega

theorem rebaseTime_eq_sub (off t : ℕ) : rebaseTime off t = t - off := by
  unfold rebaseTime
  split_ifs <;> omega

section Rebase
variable {off : ℕ}

theorem rebase_finishTime (s : SessionState α) :
    (s.rebase off).finishTime = s.finishTime - off := rebaseTime_eq_sub _ _

theorem rebase_startTime (s : SessionState α) :
    (s.rebase off).startTime = s.startTime - off := rebaseTime_eq_sub _ _

end Rebase

@[simp] theorem SessionState.rebase_zero (s : SessionState α) : s.rebase 0 = s := by
  simp [SessionState.rebase, rebaseTime_eq_sub]

theorem rebaseCached_zero (t : ℕ) : rebaseCached 0 t = t := by
  unfold rebaseCached
  split_ifs
  · exact rebaseTime_eq_sub 0 t
  · rfl

/-- The scheduler with `off` taken off every time stamp. -/
def rebasedBy (off : ℕ) (gs : GroupScheduler α) : GroupScheduler α :=
  { gs with
    virtualTime := gs.virtualTime - off
    minStartTime := rebaseCached off gs.minStartTime
    minFinishTime := rebaseCached off gs.minFinishTime
    binHeads := fun bin =>
      if bin < gs.numBins then (gs.binHeads bin).map (·.rebase off) else gs.binHeads bin
    entries := writeAll gs.entries gs.configuredEntries fun e =>
      { e with lastFinishTime := rebaseTime off e.lastFinishTime } }

theorem rebaseIfNeeded_cases (gs : GroupScheduler α) :
    (gs.virtualTime < rebaseThreshold ∧ groupSchedulerRebaseIfNeeded gs = gs) ∨
    (rebaseThreshold ≤ gs.virtualTime ∧
      groupSchedulerRebaseIfNeeded gs = rebasedBy (gs.virtualTime / 2) gs) := by
  unfold groupSchedulerRebaseIfNeeded
  rcases Nat.lt_or_ge gs.virtualTime rebaseThreshold with h | h
  · exact .inl ⟨h, if_pos h⟩
  · exact .inr ⟨h, if_neg (Nat.not_lt.mpr h)⟩

/-! ## What a rebase changes -/

section Rebased
variable (off : ℕ)

@[simp] theorem rebasedBy_geometry : (rebasedBy off gs).geometry = gs.geometry := rfl

theorem rebasedBy_get (hids : gs.configuredEntries.Nodup) (j : ℕ) :
    hwfqChunkedGet (rebasedBy off gs).entries j =
      if j ∈ gs.configuredEntries then
        (hwfqChunkedGet gs.entries j).map fun e =>
          { e with lastFinishTime := rebaseTime off e.lastFinishTime }
      else hwfqChunkedGet gs.entries j :=
  get_writeAll hids _ _ _

theorem rebasedBy_queued : (rebasedBy off gs).queued = gs.queued.map (·.rebase off) := by
  rw [GroupScheduler.queued, GroupScheduler.queued, ← contents_map]
  refine contents_congr fun b hb => ?_
  rw [show (rebasedBy off gs).binHeads b = (gs.binHeads b).map (·.rebase off) from if_pos hb]

theorem CalendarInv.rebasedBy_binHeads (h : CalendarInv gs) (b : ℕ) :
    (rebasedBy off gs).binHeads b = (gs.binHeads b).map (·.rebase off) := by
  by_cases hb : b < gs.numBins
  · exact if_pos hb
  · rw [h.outside b (Nat.le_of_not_lt hb), List.map_nil]
    exact (if_neg hb).trans (h.outside b (Nat.le_of_not_lt hb))

/-- Truncated subtraction keeps the order of a bin as long as no session starts
after it finishes. -/
theorem rebase_order {a b : SessionState α} (ha : a.startTime ≤ a.finishTime)
    (hab : sessionLess b a = false) : sessionLess (b.rebase off) (a.rebase off) = false := by
  rw [sessionLess_false] at *
  simp only [SessionState.rebase, rebaseTime_eq_sub]
  omega

theorem CalendarInv.rebase (h : CalendarInv gs)
    (hstamps : ∀ s ∈ gs.queued, s.startTime ≤ s.finishTime) : CalendarInv (rebasedBy off gs) := by
  have hbins := h.rebasedBy_binHeads off
  refine ⟨fun b hb => ?_, fun b t ht => ?_, fun b => ?_, ?_, fun b => ?_, h.groupBits, h.words⟩
  · rw [hbins, h.outside b hb, List.map_nil]
  · rw [hbins] at ht
    obtain ⟨s, hs, rfl⟩ := List.mem_map.mp ht
    exact h.ownBin b s hs
  · rw [hbins]
    refine List.pairwise_map.mpr ((h.ordered b).imp_of_mem fun ha _ hab => ?_)
    exact rebase_order off (hstamps _ (h.bin_mem ha)) hab
  · rw [rebasedBy_queued, Multiset.map_map]
    exact h.addrs
  · rw [hbins, ne_eq, List.map_eq_nil_iff]
    exact h.binBits b

end Rebased

/-! ## The clock -/

theorem advancedVirtualTime_eq (gs : GroupScheduler α) (w : ℕ) :
    advancedVirtualTime gs w =
      max (if gs.virtualTime > uint64Max - virtualTimeDelta gs w then uint64Max
        else gs.virtualTime + virtualTimeDelta gs w) gs.minStartTime := by
  unfold advancedVirtualTime
  dsimp only
  split_ifs <;> omega

theorem virtualTime_le_advanced (hv : gs.virtualTime ≤ uint64Max) (w : ℕ) :
    gs.virtualTime ≤ advancedVirtualTime gs w := by
  rw [advancedVirtualTime_eq]
  refine le_max_of_le_left ?_
  split_ifs
  · exact hv
  · exact Nat.le_add_right _ _

theorem virtualTimeDelta_le (gs : GroupScheduler α) (w : ℕ) :
    virtualTimeDelta gs w ≤ uint64Max := by
  have hscaled := u64_le (w <<< timePrecisionShift)
  have hdiv := (Nat.div_le_self (u64 (w <<< timePrecisionShift)) gs.totalCapacity).trans hscaled
  have hone := one_le_uint64Max
  unfold virtualTimeDelta
  dsimp only
  split_ifs
  · exact hone
  · exact hdiv
  · exact hscaled

theorem advancedVirtualTime_le (hm : gs.minStartTime ≤ uint64Max) (w : ℕ) :
    advancedVirtualTime gs w ≤ uint64Max := by
  have hdelta := virtualTimeDelta_le gs w
  rw [advancedVirtualTime_eq]
  refine max_le ?_ hm
  split_ifs <;> omega

/-- The offset of the rebase inside an update; 0 when it does not rebase. -/
def updateOffset (gs : GroupScheduler α) (w : ℕ) : ℕ := rebaseOffsetAt (advancedVirtualTime gs w)

theorem updateVirtualTime_cases (gs : GroupScheduler α) (w : ℕ) :
    (advancedVirtualTime gs w < rebaseThreshold ∧
      groupSchedulerUpdateVirtualTime gs w = gs.at (advancedVirtualTime gs w)) ∨
    (rebaseThreshold ≤ advancedVirtualTime gs w ∧
      groupSchedulerUpdateVirtualTime gs w =
        rebasedBy (advancedVirtualTime gs w / 2) (gs.at (advancedVirtualTime gs w))) :=
  rebaseIfNeeded_cases (gs.at (advancedVirtualTime gs w))

theorem updateVirtualTime_queued (gs : GroupScheduler α) (w : ℕ) :
    (groupSchedulerUpdateVirtualTime gs w).queued = gs.queued.map (·.rebase (updateOffset gs w)) := by
  rcases updateVirtualTime_cases gs w with ⟨hlt, heq⟩ | ⟨hge, heq⟩
  · rw [heq, updateOffset, rebaseOffsetAt, if_pos hlt]
    simp [GroupScheduler.queued]
  · rw [heq, updateOffset, rebaseOffsetAt, if_neg (Nat.not_lt.mpr hge)]
    exact @rebasedBy_queued _ (gs.at _) _

theorem updateVirtualTime_virtualTime (gs : GroupScheduler α) (w : ℕ) :
    (groupSchedulerUpdateVirtualTime gs w).virtualTime =
      advancedVirtualTime gs w - updateOffset gs w := by
  rcases updateVirtualTime_cases gs w with ⟨hlt, heq⟩ | ⟨hge, heq⟩
  · rw [heq, updateOffset, rebaseOffsetAt, if_pos hlt]
    rfl
  · rw [heq, updateOffset, rebaseOffsetAt, if_neg (Nat.not_lt.mpr hge)]
    rfl

theorem updateVirtualTime_minStartTime (gs : GroupScheduler α) (w : ℕ) :
    (groupSchedulerUpdateVirtualTime gs w).minStartTime =
      rebaseCached (updateOffset gs w) gs.minStartTime := by
  rcases updateVirtualTime_cases gs w with ⟨hlt, heq⟩ | ⟨hge, heq⟩
  · rw [heq, updateOffset, rebaseOffsetAt, if_pos hlt, rebaseCached_zero]
  · rw [heq, updateOffset, rebaseOffsetAt, if_neg (Nat.not_lt.mpr hge)]
    rfl

@[simp] theorem updateVirtualTime_geometry (w : ℕ) :
    (groupSchedulerUpdateVirtualTime gs w).geometry = gs.geometry := by
  rcases updateVirtualTime_cases gs w with ⟨-, heq⟩ | ⟨-, heq⟩
  · rw [heq]
    rfl
  · rw [heq]
    rfl

/-- The parts of the ledger that a rebase leaves alone. -/
theorem updateVirtualTime_totals (gs : GroupScheduler α) (w : ℕ) :
    (groupSchedulerUpdateVirtualTime gs w).configuredEntries = gs.configuredEntries ∧
      (groupSchedulerUpdateVirtualTime gs w).maxEntries = gs.maxEntries ∧
      (groupSchedulerUpdateVirtualTime gs w).allocatedRateCapacity = gs.allocatedRateCapacity ∧
      (groupSchedulerUpdateVirtualTime gs w).totalWeight = gs.totalWeight ∧
      (groupSchedulerUpdateVirtualTime gs w).totalCapacity = gs.totalCapacity := by
  rcases updateVirtualTime_cases gs w with ⟨-, heq⟩ | ⟨-, heq⟩
  · rw [heq]
    exact ⟨rfl, rfl, rfl, rfl, rfl⟩
  · rw [heq]
    exact ⟨rfl, rfl, rfl, rfl, rfl⟩

theorem updateVirtualTime_get (hids : gs.configuredEntries.Nodup) (w j : ℕ) :
    hwfqChunkedGet (groupSchedulerUpdateVirtualTime gs w).entries j =
      if j ∈ gs.configuredEntries then
        (hwfqChunkedGet gs.entries j).map fun e =>
          { e with lastFinishTime := rebaseTime (updateOffset gs w) e.lastFinishTime }
      else hwfqChunkedGet gs.entries j := by
  rcases updateVirtualTime_cases gs w with ⟨hlt, heq⟩ | ⟨hge, heq⟩
  · rw [heq, updateOffset, rebaseOffsetAt, if_pos hlt]
    simp [rebaseTime_eq_sub]
  · rw [heq, updateOffset, rebaseOffsetAt, if_neg (Nat.not_lt.mpr hge)]
    exact @rebasedBy_get _ (gs.at _) _ hids j

end Hwfq
