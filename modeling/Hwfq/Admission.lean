import Hwfq.SchedulerRuns

/-!
# Admission against the capacity

The dequeue compares the size of its choice plus what is in flight with the
capacity in 64-bit arithmetic. As long as that sum never wraps, what is in flight
stays within the capacity.
-/
namespace Hwfq
open GuardedRuns

variable {s : Scheduler}

/-- The true size of all sessions in flight. -/
def inFlightWork (s : Scheduler) : ℕ := (s.inFlight.map (·.workSize)).sum

/-- The sum that a dequeue compares with the capacity fits 64 bits. -/
def AddsWithoutWrap (s : Scheduler) (c : Call) : Prop :=
  c.asksSession = true → ∀ x ∈ chosen s, s.inFlightWorkSize + x.workSize ≤ uint64Max

instance (s : Scheduler) (c : Call) : Decidable (AddsWithoutWrap s c) :=
  inferInstanceAs (Decidable (c.asksSession = true →
    ∀ x ∈ chosen s, s.inFlightWorkSize + x.workSize ≤ uint64Max))

structure WithinCapacity (s : Scheduler) : Prop where
  inv : SchedulerInv s
  capacity : 0 < s.totalCapacity
  within : inFlightWork s ≤ s.totalCapacity

theorem totalCapacity_le (s : Scheduler) : s.totalCapacity ≤ uint64Max := by
  have := s.config.totalCapacity.toNat_lt
  unfold Scheduler.totalCapacity uint64Max
  omega

/-- Within the capacity the 64-bit total is the true one. -/
theorem WithinCapacity.total (h : WithinCapacity s) : s.inFlightWorkSize = inFlightWork s := by
  rw [h.inv.totals.workSize]
  exact u64_of_le (h.within.trans (totalCapacity_le s))

theorem WithinCapacity.step (h : WithinCapacity s) {c : Call} (hc : AddsWithoutWrap s c) :
    WithinCapacity (after s c) := by
  have hconf : (after s c).totalCapacity = s.totalCapacity :=
    congrArg (·.totalCapacity.toNat) (h.inv.after_config c)
  refine ⟨h.inv.after c, hconf ▸ h.capacity, hconf ▸ ?_⟩
  rcases (h.inv.effect c).inFlight h.inv with
    ⟨now, i, t, q, x, flows, t', rfl, htaken, hdel⟩ | hsub
  · have hfits := hc rfl x htaken.chosen
    obtain ⟨addr, -, hlist, -⟩ := hdel.inFlight
    have hover := hdel.fits
    unfold overCapacity at hover
    rw [u64_of_le hfits, h.total] at hover
    have hwork : inFlightWork (after s (.dequeue true now)) = inFlightWork s + x.workSize := by
      rw [inFlightWork, hlist, inFlightInsert, List.map_append, List.sum_append]
      rfl
    rw [hwork]
    simpa [h.capacity] using hover
  · obtain ⟨l, hperm, hsublist⟩ := hsub
    calc inFlightWork (after s c) = (l.map (·.workSize)).sum :=
          ((hperm.map InFlightEntry.workSize).sum_eq).symm
      _ ≤ inFlightWork s := (hsublist.map (·.workSize)).sum_le_sum fun _ _ => Nat.zero_le _
      _ ≤ s.totalCapacity := h.within

theorem NewScheduler.withinCapacity (h : NewScheduler s) : WithinCapacity s where
  inv := h.inv
  capacity := by
    have hvalid := h.valid
    simp only [Config.valid, Bool.and_eq_true, decide_eq_true_eq] at hvalid
    exact Nat.pos_of_ne_zero fun hzero => hvalid.2 (UInt64.toNat_inj.mp hzero)
  within := by simp [inFlightWork, h.inFlight]

/-- What is in flight stays within the capacity in every run whose dequeues add
without a wrap. -/
theorem in_flight_within_capacity (h : Made s) {calls : List Call}
    (hcalls : Along after AddsWithoutWrap s calls) :
    inFlightWork (afterRun s calls) ≤ s.totalCapacity := by
  obtain ⟨mem, config, hinit⟩ := h
  have hrun : WithinCapacity (afterRun s calls) :=
    run_invariant (fun _ _ hs hc => hs.step hc) (hwfqInit_success hinit).withinCapacity hcalls
  have hconf : (afterRun s calls).config = s.config :=
    (hwfqInit_success hinit).inv.afterRun_config calls
  have hcap : (afterRun s calls).totalCapacity = s.totalCapacity :=
    congrArg (·.totalCapacity.toNat) hconf
  exact hcap ▸ hrun.within

theorem in_flight_within_capacity_small :
    inFlightWork (afterRun smallScheduler [.addTenant (some (.weight 1)) true,
      .addFlow 0 (some (.weight 1)) true, .enqueue 0 1 (some { userData := 7, workSize := 60 }) 0,
      .enqueue 0 1 (some { userData := 8, workSize := 60 }) 0, .dequeue true 0,
      .dequeue true 0]) ≤ smallScheduler.totalCapacity :=
  in_flight_within_capacity smallScheduler_made (by decide +kernel)

/-- A session of 1 in flight and a session of 2^64 - 1. -/
def wrappingCalls : List Call :=
  [.addTenant (some (.weight 1)) true, .addFlow 0 (some (.weight 1)) true,
    .enqueue 0 1 (some { userData := 7, workSize := 1 }) 0, .dequeue true 0,
    .enqueue 0 1 (some { userData := 8, workSize := 18446744073709551615 }) 0, .dequeue true 0]

theorem in_flight_exceeds_capacity :
    Made smallScheduler ∧
      smallScheduler.totalCapacity < inFlightWork (afterRun smallScheduler wrappingCalls) :=
  ⟨smallScheduler_made, by decide +kernel⟩

end Hwfq
