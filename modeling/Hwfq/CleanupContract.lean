import Hwfq.SessionHistory

/-!
# The cleanup functions of the sessions

The library calls the cleanup function of a session that it disposes of itself: when the
session is cancelled, times out, or is still queued when its tenant is removed or the
scheduler destroyed. Cancellation and timeout make no such call.
-/
namespace Hwfq
open GuardedRuns

variable {s : Scheduler} {c : Call} {i : ℕ}

/-! ## The destruction of a scheduler -/

theorem SchedulerInv.tenant_cleanups (h : SchedulerInv s) (hgrid : OnGrid s s.cores) (i : ℕ) :
    Hwfq.cleanups ((s.tenants i).elim [] cleanupCalls) =
      (s.queue i).filterMap FlowSessionContext.cleanup := by
  cases ht : s.tenants i with
  | none =>
    rw [queue_none ht]
    rfl
  | some t =>
    rw [queue_some ht]
    exact cleanups_queued (hgrid.numBins ht) (h.tenants i t ht).flows.carried

/-- The destruction calls the cleanup functions of the queued sessions. -/
theorem SchedulerInv.destroy_cleanups (h : SchedulerInv s) (hgrid : OnGrid s s.cores) :
    Hwfq.cleanups (hwfqDestroy s).2 = s.queuedSessions.filterMap FlowSessionContext.cleanup := by
  rw [hwfqDestroy, Scheduler.queuedSessions]
  dsimp only
  induction s.maxTenants with
  | zero => rfl
  | succ n ih =>
    rw [List.range_succ, List.flatMap_append, cleanups_append, ih, Finset.sum_range_succ,
      Multiset.filterMap_add, List.flatMap_singleton, h.tenant_cleanups hgrid]

/-! ## The contract -/

/-- A call owes the cleanup functions of the sessions that it disposes of, cancels or finds
timed out. -/
def PaysCleanups (h : History) (c : Call) : Prop :=
  cleanups (respond h.scheduler c).callbacks =
    (disposed h.scheduler c + (h.abortedBy c).map Prod.fst).filterMap FlowSessionContext.cleanup

/-- The cleanup functions over a run that ends with the destruction of the scheduler. The
sessions whose cleanup is owed, or must not be called, are each met once. -/
structure CleanupContract (s : Scheduler) (calls : List Call) : Prop where
  paid : Along History.step PaysCleanups (.start s) calls
  destroyed : cleanups (hwfqDestroy (afterRun s calls)).2 =
    (afterRun s calls).queuedSessions.filterMap FlowSessionContext.cleanup
  once : let h := run History.step (.start s) calls
    ((h.disposed + h.aborted.map Prod.fst + h.completed.map Prod.fst +
      h.scheduler.queuedSessions).map (·.addr)).Nodup

/-- No session with a cleanup function is cancelled or times out. -/
def AbortsPlain (h : History) (c : Call) : Prop := ∀ p ∈ h.abortedBy c, p.1.cleanupFn = false

instance (h : History) (c : Call) : Decidable (AbortsPlain h c) :=
  inferInstanceAs (Decidable (∀ p ∈ _, _))

theorem filterMap_cleanup_eq_zero {m : Multiset FlowSessionContext} :
    m.filterMap FlowSessionContext.cleanup = 0 ↔ ∀ x ∈ m, x.cleanupFn = false := by
  have hnone : ∀ x : FlowSessionContext, x.cleanup = none ↔ x.cleanupFn = false := by
    intro x
    unfold FlowSessionContext.cleanup
    split_ifs with hx
    · simp [hx]
    · simp [hx]
  rw [Multiset.eq_zero_iff_forall_notMem]
  constructor
  · intro h x hx
    rw [← hnone]
    cases hcall : x.cleanup with
    | none => rfl
    | some u => exact absurd ((Multiset.mem_filterMap FlowSessionContext.cleanup m).mpr ⟨x, hx, hcall⟩) (h u)
  · intro h u hu
    obtain ⟨x, hx, hcall⟩ := (Multiset.mem_filterMap FlowSessionContext.cleanup m).mp hu
    rw [(hnone x).mpr (h x hx)] at hcall
    cases hcall

theorem History.Placed.paysCleanups_iff {h : History} (hp : h.Placed) (c : Call) :
    PaysCleanups h c ↔ AbortsPlain h c := by
  rw [PaysCleanups, hp.inv.cleanups hp.grid, Multiset.filterMap_add, left_eq_add,
    filterMap_cleanup_eq_zero, AbortsPlain]
  simp only [Multiset.mem_map, forall_exists_index, and_imp, forall_apply_eq_imp_iff₂]

theorem History.Placed.once {h : History} (hp : h.Placed) :
    ((h.disposed + h.aborted.map Prod.fst + h.completed.map Prod.fst +
      h.scheduler.queuedSessions).map (·.addr)).Nodup := by
  have hsub : h.disposed + h.aborted.map Prod.fst + h.completed.map Prod.fst +
      h.scheduler.queuedSessions ≤ h.accepted := by
    have hsplit : h.accepted = h.disposed + h.aborted.map Prod.fst + h.completed.map Prod.fst +
        h.scheduler.queuedSessions + (h.flying.map Prod.fst + h.lost) := by
      rw [hp.queued, History.returned, Multiset.map_add, Multiset.map_add]
      abel
    rw [hsplit]
    exact Multiset.le_add_right _ _
  exact Multiset.nodup_of_le (Multiset.map_le_map hsub) hp.sessions

/-- In any run, with any allocation pattern, the contract is kept if and only if no session
with a cleanup function is cancelled or times out. -/
theorem cleanup_contract (s : Scheduler) (h : Made s) (calls : List Call) :
    CleanupContract s calls ↔ Along History.step AbortsPlain (.start s) calls := by
  have hplaced := h.placed calls
  have hstate : (run History.step (.start s) calls).scheduler = afterRun s calls :=
    History.run_scheduler (.start s) calls
  have hpaid : Along History.step PaysCleanups (.start s) calls ↔
      Along History.step AbortsPlain (.start s) calls :=
    along_iff (I := History.Placed) (fun _ c hp => hp.step c) (fun _ c hp => hp.paysCleanups_iff c)
      (h.placed []) calls
  rw [← hpaid]
  constructor
  · exact fun hcontract => hcontract.paid
  · intro hall
    constructor
    · exact hall
    · rw [← hstate]
      exact hplaced.inv.destroy_cleanups hplaced.grid
    · exact hplaced.once

/-- A session without a cleanup function is cancelled, one with a cleanup function is
completed, and one is still queued at the end. -/
def plainCancelled : List Call :=
  [.addTenant (some (.weight 1)) true, .addFlow 0 (some (.weight 1)) true,
    .enqueue 0 1 (some { userData := 7, workSize := 6 }) 0,
    .enqueue 0 1 (some { userData := 8, workSize := 6, cleanupFn := true }) 0,
    .enqueue 0 1 (some { userData := 9, workSize := 6, cleanupFn := true }) 0,
    .dequeue true 0, .cancel 0 1 none, .dequeue true 0, .complete 0 1 none]

theorem cleanup_contract_plain : CleanupContract smallScheduler plainCancelled :=
  (cleanup_contract smallScheduler smallScheduler_made plainCancelled).mpr (by decide +kernel)

/-- One session is cancelled and one times out. -/
def abortedSessions : List Call :=
  [.addTenant (some (.weight 1)) true, .addFlow 0 (some (.weight 1)) true,
    .enqueue 0 1 (some { userData := 7, workSize := 6, cleanupFn := true }) 0,
    .enqueue 0 1 (some { userData := 8, workSize := 6, timeoutNs := 10, cleanupFn := true }) 0,
    .dequeue true 0, .cancel 0 1 none, .dequeue true 0, .checkTimeouts 20]

/-- Both sessions are gone, and no cleanup function was called. -/
theorem cleanup_missed :
    let h := run History.step (.start smallScheduler) abortedSessions
    h.aborted.card = 2 ∧ h.scheduler.inFlight = [] ∧
      (outputs after (fun s c => (respond s c).callbacks) smallScheduler abortedSessions).flatten =
        [] ∧
      ¬ CleanupContract smallScheduler abortedSessions := by
  refine ⟨by decide +kernel, by decide +kernel, by decide +kernel, fun hcontract => ?_⟩
  have hpaid := hcontract.paid
  revert hpaid
  unfold PaysCleanups
  decide +kernel

end Hwfq
