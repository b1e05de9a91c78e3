import Hwfq.ClockLaw

/-!
# What a job is charged

`group_scheduler_enqueue` and `group_scheduler_update_virtual_time` scale the work of a job
by the same shift. Enqueue caps the product at `UINT64_MAX` before it shifts; the update
shifts without a look, and from `2^44` units of work on the product leaves its 64 bits.
-/
namespace Hwfq
open GuardedRuns

variable {α : Type*} {gs : GroupScheduler α} {w w' : ℕ}

/-- The `scaled_work` of `group_scheduler_enqueue`. -/
def taggedWork (workSize : ℕ) : ℕ :=
  if workSize > uint64Max >>> timePrecisionShift then uint64Max
  else workSize <<< timePrecisionShift

/-- The `scaled_work` of `group_scheduler_update_virtual_time`. -/
def chargedWork (workCompleted : ℕ) : ℕ := u64 (workCompleted <<< timePrecisionShift)

/-- The service interval of scaled work at a rate. -/
def intervalAt (rate scaledWork : ℕ) : ℕ := if scaledWork / rate = 0 then 1 else scaledWork / rate

/-- The advance of a clock over scaled work. -/
def advanceAt (totalCapacity scaledWork : ℕ) : ℕ :=
  if totalCapacity > 0 then
    if scaledWork / totalCapacity = 0 then 1 else scaledWork / totalCapacity
  else scaledWork

theorem serviceIntervalOf_tagged (w rate : ℕ) :
    serviceIntervalOf w rate = intervalAt rate (taggedWork w) := rfl

theorem virtualTimeDelta_charged (gs : GroupScheduler α) (w : ℕ) :
    virtualTimeDelta gs w = advanceAt gs.totalCapacity (chargedWork w) := rfl

/-! ## The two scalings -/

theorem taggedWork_eq (w : ℕ) : taggedWork w = min (w * 2 ^ 20) uint64Max := by
  unfold taggedWork timePrecisionShift uint64Max
  rw [Nat.shiftLeft_eq, Nat.shiftRight_eq_div_pow]
  split_ifs <;> omega

theorem chargedWork_of_lt (hw : w < 2 ^ 44) : chargedWork w = w * 2 ^ 20 := by
  unfold chargedWork timePrecisionShift
  rw [Nat.shiftLeft_eq]
  apply u64_of_le
  unfold uint64Max
  omega

/-- A product of the shift never ends on the capped value, so a job that is capped is
charged something else. -/
theorem chargedWork_eq_tagged_iff (w : ℕ) : chargedWork w = taggedWork w ↔ w < 2 ^ 44 := by
  rw [taggedWork_eq]
  constructor
  · intro heq
    unfold chargedWork timePrecisionShift u64 uint64Max at heq
    rw [Nat.shiftLeft_eq] at heq
    omega
  · intro hw
    rw [chargedWork_of_lt hw]
    unfold uint64Max
    omega

theorem chargedWork_mono (hw : w < 2 ^ 44) (hle : w' ≤ w) : chargedWork w' ≤ chargedWork w := by
  rw [chargedWork_of_lt hw, chargedWork_of_lt (hle.trans_lt hw)]
  exact Nat.mul_le_mul_right _ hle

/-! ## The advance of the clock -/

theorem advanceAt_mono (cap : ℕ) {m n : ℕ} (h : m ≤ n) : advanceAt cap m ≤ advanceAt cap n := by
  have hdiv : m / cap ≤ n / cap := Nat.div_le_div_right h
  unfold advanceAt
  split_ifs <;> omega

/-- A clock that advances further ends no earlier. -/
theorem advancedVirtualTime_mono (h : virtualTimeDelta gs w' ≤ virtualTimeDelta gs w) :
    advancedVirtualTime gs w' ≤ advancedVirtualTime gs w := by
  rw [advancedVirtualTime_eq, advancedVirtualTime_eq]
  apply max_le_max_right
  have hbound := virtualTimeDelta_le gs w
  split_ifs <;> omega

/-- The work that is charged for a job of size `w` is the work its tags are computed from,
and no smaller job is charged more or moves a clock further. -/
structure ChargedAsTagged (α : Type*) (w : ℕ) : Prop where
  agrees : chargedWork w = taggedWork w
  charge : ∀ w' ≤ w, chargedWork w' ≤ chargedWork w
  advance : ∀ (gs : GroupScheduler α) (w' : ℕ), w' ≤ w →
    virtualTimeDelta gs w' ≤ virtualTimeDelta gs w ∧
      advancedVirtualTime gs w' ≤ advancedVirtualTime gs w

theorem chargedAsTagged_iff (w : ℕ) : ChargedAsTagged α w ↔ w < 2 ^ 44 := by
  constructor
  · intro h
    exact (chargedWork_eq_tagged_iff w).mp h.agrees
  · intro hw
    have hdelta : ∀ (gs : GroupScheduler α) (w' : ℕ), w' ≤ w →
        virtualTimeDelta gs w' ≤ virtualTimeDelta gs w := by
      intro gs w' hle
      rw [virtualTimeDelta_charged, virtualTimeDelta_charged]
      exact advanceAt_mono _ (chargedWork_mono hw hle)
    constructor
    · exact (chargedWork_eq_tagged_iff w).mpr hw
    · intro w' hle
      exact chargedWork_mono hw hle
    · intro gs w' hle
      exact ⟨hdelta gs w' hle, advancedVirtualTime_mono (hdelta gs w' hle)⟩

/-- Enqueue computes the tags of every job from its scaled work in unbounded integers, capped
at `UINT64_MAX`. The update charges the same work exactly for the jobs below `2^44`. -/
theorem charged_as_tagged (w : UInt64) :
    (∀ rate, serviceIntervalOf w.toNat rate = intervalAt rate (taggedWork w.toNat)) ∧
      taggedWork w.toNat = min (w.toNat * 2 ^ 20) uint64Max ∧
      (∀ gs : GroupScheduler α,
        virtualTimeDelta gs w.toNat = advanceAt gs.totalCapacity (chargedWork w.toNat)) ∧
      (ChargedAsTagged α w.toNat ↔ w.toNat < 2 ^ 44) := by
  refine ⟨?_, ?_, ?_, ?_⟩
  · intro rate
    exact serviceIntervalOf_tagged w.toNat rate
  · exact taggedWork_eq w.toNat
  · intro gs
    exact virtualTimeDelta_charged gs w.toNat
  · exact chargedAsTagged_iff w.toNat

/-- The first job that is too large is charged nothing: the clock makes its least step, and
for the job one unit smaller a step over a hundredth of its range. -/
theorem charge_wraps : virtualTimeDelta defaultGroup.gs (2 ^ 44) = 1 ∧
    virtualTimeDelta defaultGroup.gs (2 ^ 44 - 1) = 184467440737085030 ∧
    ¬ ChargedAsTagged ℕ (2 ^ 44) := by
  have hcap : defaultGroup.gs.totalCapacity = 100 := by decide +kernel
  refine ⟨?_, ?_, ?_⟩
  · rw [virtualTimeDelta_charged, hcap]
    simp [chargedWork, timePrecisionShift, u64, advanceAt]
  · rw [virtualTimeDelta_charged, hcap]
    simp [chargedWork, timePrecisionShift, u64, advanceAt]
  · rw [chargedAsTagged_iff]
    exact lt_irrefl _

end Hwfq
