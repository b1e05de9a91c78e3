import Hwfq.SteadyService
import Hwfq.WakeUps

/-!
# Workers that wait for a signal

`session_available_fn` wakes a worker, and a woken worker dequeues until it is refused. As long
as the scheduler stays in service, work is never left behind: when no signal is pending and no
worker is awake, either a session is in flight, whose end gives the next signal, or nothing is
queued.
-/
namespace Hwfq
open GuardedRuns

variable {s : Scheduler} {c : Call}

/-! ## The pool -/

/-- The signals of the callback that no refused dequeue has answered yet. -/
structure WorkerPool where
  scheduler : Scheduler
  signals : ℕ

inductive Move where
  | call (c : Call)
  /-- A woken worker dequeues; it goes back to sleep when it is refused. -/
  | ask (now : UInt64)
deriving DecidableEq, Repr

def Move.made : Move → Call
  | .call c => c
  | .ask now => .dequeue true now

def Response.signals (r : Response) : ℕ := r.callbacks.count .sessionAvailable

def WorkerPool.step (pool : WorkerPool) (m : Move) : WorkerPool where
  scheduler := after pool.scheduler m.made
  signals :=
    match m with
    | .call c => pool.signals + (respond pool.scheduler c).signals
    | .ask now =>
        if (respond pool.scheduler (.dequeue true now)).status = .success then pool.signals
        else pool.signals - 1

/-- The number of timed out sessions fits into 32 bits. -/
def KeepsPool (pool : WorkerPool) (m : Move) : Prop :=
  KeepsService pool.scheduler m.made ∧
    match m with
    | .call (.checkTimeouts _) => pool.scheduler.inFlight.length ≤ uint32Max
    | _ => True

instance (pool : WorkerPool) (m : Move) : Decidable (KeepsPool pool m) := by
  unfold KeepsPool
  have hcall : Decidable (match m with
      | .call (.checkTimeouts _) => pool.scheduler.inFlight.length ≤ uint32Max
      | _ => True) := by
    split <;> infer_instance
  infer_instance

/-- Queued work that nobody is awake for waits for the end of a session. -/
structure Attended (pool : WorkerPool) : Prop where
  service : InService pool.scheduler
  notified : pool.scheduler.config.sessionAvailableFn = true
  capacity : 0 < pool.scheduler.totalCapacity
  awake : pool.signals = 0 → pool.scheduler.inFlight = [] → pool.scheduler.queuedSessions = 0

/-! ## Calls that give no signal -/

theorem Scheduler.hasCapacity_idle (h : SchedulerInv s) (hcap : 0 < s.totalCapacity)
    (hidle : s.inFlight = []) : s.hasCapacity = true := by
  have hzero : s.inFlightWorkSize = 0 := by
    rw [h.totals.workSize, hidle]
    unfold u64
    rfl
  rw [Scheduler.hasCapacity, hzero]
  exact decide_eq_true hcap

/-- An enqueue that succeeds tells of it where capacity is left. -/
theorem SchedulerInv.enqueue_notifies (h : SchedulerInv s) {i f : UInt32} {work : Option Session}
    {now : UInt64} (hok : (respond s (.enqueue i f work now)).status = .success) :
    (respond s (.enqueue i f work now)).callbacks =
      notifyIf (Hwfq.after s (.enqueue i f work now))
        (Hwfq.after s (.enqueue i f work now)).hasCapacity := by
  simp only [respond, Hwfq.after, exec] at hok ⊢
  rcases h.enqueue i.toNat f.toNat work now.toNat with ⟨-, hbad, -⟩ | ⟨s₁, t, x, -, -, heq⟩
  · exact absurd hok hbad
  · rw [heq] at hok ⊢
    unfold offerSession at hok ⊢
    dsimp only at hok ⊢
    split_ifs at hok ⊢ with hsuccess
    · rfl
    · exact absurd hok hsuccess

theorem exists_queue (hwork : s.queuedSessions ≠ 0) : ∃ i, s.queue i ≠ 0 := by
  obtain ⟨x, hx⟩ := Multiset.exists_mem_of_ne_zero hwork
  obtain ⟨i, -, hi⟩ := Scheduler.mem_queuedSessions.mp hx
  refine ⟨i, ?_⟩
  intro hzero
  exact Multiset.notMem_zero x (hzero ▸ hi)

/-- The end of a session wakes a worker when it leaves queued work to an idle server. -/
theorem InService.end_signals (h : InService s) (hfn : s.config.sessionAvailableFn = true)
    (hcap : 0 < s.totalCapacity) (hfew : ∀ now, c = .checkTimeouts now →
      s.inFlight.length ≤ uint32Max)
    (hend : ended s c ≠ 0) (hidle : (after s c).inFlight = [])
    (hwork : (after s c).queuedSessions ≠ 0) : .sessionAvailable ∈ (respond s c).callbacks := by
  have hkept := h.serving.kept
  have hinv := hkept.inv
  have hspare : (after s c).hasCapacity = true := by
    apply Scheduler.hasCapacity_idle (hinv.after c) _ hidle
    rw [Scheduler.totalCapacity, hinv.after_config c]
    exact hcap
  have hends : ∀ {i f work}, EndsOne c i f work →
      inFlightLookup s work i.toNat f.toNat ≠ none → (respond s c).status = .success := by
    intro i f work hone hfound
    rcases endsOne_cases hinv hone with ⟨hnone, -⟩ | ⟨-, -, hok, -⟩
    · exact absurd hnone hfound
    · exact hok
  obtain ⟨i, hi⟩ := exists_queue hwork
  cases c with
  | complete j f work =>
    have hok := hends (.complete j f work) fun hnone => hend (by simp [ended, hnone])
    have hwoken := (hinv.complete_wakes hfn hok hspare).mpr fun k hk => .inl (hkept.flagged k hk)
    exact (hwoken i hi).1
  | cancel j f work =>
    have hok := hends (.cancel j f work) fun hnone => hend (by simp [ended, hnone])
    have hwoken := (hinv.cancel_wakes hfn hok hspare).mpr fun k hk => hkept.flagged k hk
    exact (hwoken i hi).1
  | checkTimeouts now =>
    have hlist : (s.inFlight.filter (isTimedOut now.toNat)).length ≠ 0 := by
      intro hzero
      rw [List.length_eq_zero_iff] at hzero
      exact hend (by simp [ended, hzero])
    have hlength : (s.inFlight.filter (isTimedOut now.toNat)).length ≤ uint32Max :=
      (List.length_filter_le _ _).trans (hfew now rfl)
    have hwoken := (hinv.timeouts_wake hfn hspare).mpr fun k hk =>
      ⟨hkept.flagged k hk, (u32_of_le hlength).symm ▸ hlist⟩
    exact (hwoken i hi).1
  | _ => exact absurd rfl hend

/-- A call that gives no signal and leaves an idle server with work has found it so. -/
theorem InService.silent_idle (h : InService s) (hfn : s.config.sessionAvailableFn = true)
    (hcap : 0 < s.totalCapacity) (hfew : ∀ now, c = .checkTimeouts now →
      s.inFlight.length ≤ uint32Max)
    (hlost : lost s c = 0) (hsilent : .sessionAvailable ∉ (respond s c).callbacks)
    (hidle : (after s c).inFlight = []) (hwork : (after s c).queuedSessions ≠ 0) :
    s.inFlight = [] ∧ s.queuedSessions ≠ 0 := by
  have hinv := h.serving.kept.inv
  have hbalance := hinv.balanced c
  have hended : ended s c = 0 := by
    by_contra hend
    exact hsilent (h.end_signals hfn hcap hfew hend hidle hwork)
  have haccepted : accepted s c = 0 := by
    cases c with
    | enqueue i f work now =>
      cases work with
      | none => rfl
      | some w =>
        rw [accepted, if_neg]
        intro hok
        apply hsilent
        rw [hinv.enqueue_notifies hok, mem_notifyIf]
        constructor
        · apply Scheduler.hasCapacity_idle (hinv.after _) _ hidle
          rw [Scheduler.totalCapacity, hinv.after_config _]
          exact hcap
        · rw [hinv.after_config _]
          exact hfn
    | _ => rfl
  constructor
  · have hflight := hbalance.flight
    rw [hended, hidle, add_zero, Multiset.coe_nil, add_eq_zero] at hflight
    exact (Multiset.coe_eq_zero _).mp hflight.1
  · intro hzero
    have hqueued := hbalance.queued
    rw [haccepted, hzero, add_zero, eq_comm, add_eq_zero] at hqueued
    exact hwork hqueued.1

/-! ## Dequeues -/

theorem KeepsService.lost_none (h : KeepsService s c) : lost s c = 0 := by
  cases c with
  | dequeue out now =>
    cases out with
    | false => exact lost_quiet rfl
    | true =>
      cases hpoint : putBackPoint s with
      | none => exact Hwfq.lost_none hpoint
      | some p => rw [lost_some rfl hpoint, if_pos (h.2 p hpoint).1]
  | _ => exact lost_quiet rfl

/-- A worker that is refused leaves an idle server without work. -/
theorem InService.refused_idle (h : InService s) {now : UInt64}
    (hc : KeepsService s (.dequeue true now))
    (hbad : (respond s (.dequeue true now)).status ≠ .success)
    (hidle : (after s (.dequeue true now)).inFlight = []) :
    (after s (.dequeue true now)).queuedSessions = 0 := by
  have hinv := h.serving.kept.inv
  have hbalance := hinv.balanced (.dequeue true now)
  obtain ⟨haccepted, hdelivered, hended, hdisposed⟩ := nothing_moved hinv hbad
  have hflight := hbalance.flight
  have hqueued := hbalance.queued
  rw [hdelivered, hended, hidle, Multiset.map_zero, add_zero, add_zero, Multiset.coe_nil] at hflight
  rw [haccepted, hdelivered, hdisposed, hc.lost_none, Multiset.map_zero, add_zero, add_zero,
    add_zero, add_zero] at hqueued
  by_contra hwork
  rw [← hqueued] at hwork
  exact hbad (h.serving.serves (h.servesIdle hc) ((Multiset.coe_eq_zero _).mp hflight) hwork)

theorem SchedulerInv.served_busy (h : SchedulerInv s) {out : Bool} {now : UInt64}
    (hok : (respond s (.dequeue out now)).status = .success) :
    (Hwfq.after s (.dequeue out now)).inFlight ≠ [] := by
  obtain ⟨x, addr, -, hdelivered, -⟩ := h.delivery hok
  intro hidle
  have hflight := (h.balanced (.dequeue out now)).flight
  have hended : ended s (.dequeue out now) = 0 := rfl
  rw [hdelivered, hidle, hended, Multiset.map_singleton, Multiset.coe_nil, zero_add,
    add_eq_zero] at hflight
  exact Multiset.singleton_ne_zero _ hflight.2

/-! ## Runs of the pool -/

theorem Attended.step {pool : WorkerPool} (h : Attended pool) {m : Move}
    (hm : KeepsPool pool m) : Attended (pool.step m) := by
  have hinv := h.service.serving.kept.inv
  have hconf : (pool.step m).scheduler.config = pool.scheduler.config := hinv.after_config m.made
  constructor
  · exact h.service.step hm.1
  · rw [hconf]
    exact h.notified
  · rw [Scheduler.totalCapacity, hconf]
    exact h.capacity
  intro hasleep hidle
  cases m with
  | ask now =>
    by_cases hok : (respond pool.scheduler (.dequeue true now)).status = .success
    · exact absurd hidle (hinv.served_busy hok)
    · exact h.service.refused_idle hm.1 hok hidle
  | call c =>
    have hsum : pool.signals + (respond pool.scheduler c).signals = 0 := hasleep
    have hfew : ∀ now, c = .checkTimeouts now →
        pool.scheduler.inFlight.length ≤ uint32Max := by
      rintro now rfl
      exact hm.2
    have hsilent : .sessionAvailable ∉ (respond pool.scheduler c).callbacks :=
      List.count_eq_zero.mp (Nat.eq_zero_of_add_eq_zero_left hsum)
    by_contra hwork
    obtain ⟨hbefore, hqueued⟩ := h.service.silent_idle h.notified h.capacity hfew
      hm.1.lost_none hsilent hidle hwork
    exact hqueued (h.awake (Nat.eq_zero_of_add_eq_zero_right hsum) hbefore)

/-- The calls of a pool. -/
theorem pool_scheduler (pool : WorkerPool) (moves : List Move) :
    (run WorkerPool.step pool moves).scheduler = afterRun pool.scheduler (moves.map Move.made) := by
  induction moves generalizing pool with
  | nil => rfl
  | cons m moves ih => exact ih (pool.step m)

theorem Made.attended (h : Made s) (hservice : InService s)
    (hfn : s.config.sessionAvailableFn = true) : Attended ⟨s, 0⟩ := by
  obtain ⟨mem, config, hinit⟩ := h
  have hnew := hwfqInit_success hinit
  constructor
  · exact hservice
  · exact hfn
  · exact hnew.totalCapacity_pos
  · intro _ _
    exact hnew.queuedSessions

/-- In every interleaving of calls with the dequeues of woken workers: when every signal has
been answered by a refused dequeue and nothing is in flight, nothing is queued. -/
theorem workers_never_stall (h : Made s) (hmem : s.mem.AlwaysOk) (hgroups : 15 < s.numGroups)
    (hreached : Reached s) (hfn : s.config.sessionAvailableFn = true) {moves : List Move}
    (hmoves : Along WorkerPool.step KeepsPool ⟨s, 0⟩ moves) :
    let pool := run WorkerPool.step ⟨s, 0⟩ moves
    pool.scheduler = afterRun s (moves.map Move.made) ∧
      (pool.signals = 0 → pool.scheduler.inFlight = [] → pool.scheduler.queuedSessions = 0) := by
  have hstart : Attended ⟨s, 0⟩ := h.attended (h.inService hmem hgroups hreached) hfn
  have hlast : Attended (run WorkerPool.step ⟨s, 0⟩ moves) :=
    run_invariant (fun _ _ hs hm => hs.step hm) hstart hmoves
  exact ⟨pool_scheduler _ moves, hlast.awake⟩

/-- The first session is served at once; the second one waits for its end. -/
def twoMoves : List Move :=
  twoTenants.map .call ++
    [.call (.enqueue 0 1 (some { userData := 7, workSize := 60 }) 0),
      .call (.enqueue 1 1 (some { userData := 8, workSize := 60 }) 0), .ask 0, .ask 0, .ask 0,
      .call (.complete 1 1 (some { userData := 8, workSize := 60 })), .ask 0, .ask 0,
      .call (.cancel 0 1 none)]

theorem workers_never_stall_two :
    let s := madeWith generousAllocator notifyingConfig notifyingConfig_accepted
    let pool := run WorkerPool.step ⟨s, 0⟩ twoMoves
    pool.scheduler = afterRun s (twoMoves.map Move.made) ∧
      (pool.signals = 0 → pool.scheduler.inFlight = [] → pool.scheduler.queuedSessions = 0) := by
  apply workers_never_stall (madeWith_made notifyingConfig_accepted)
  · exact madeWith_granted generousAllocator_alwaysOk notifyingConfig_accepted
  · decide +kernel
  · show Scheduler.numGroups _ * Scheduler.binsPerGroup _ ≤ 32768
    decide +kernel
  · decide +kernel
  · decide +kernel

end Hwfq
