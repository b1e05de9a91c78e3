import Hwfq.FlightTable

/-!
# The scan for timeouts

`hwfq_check_timeouts` measures the age of a session as a 64-bit difference of two readings of
the clock. A session that was dequeued after the reading of the caller has a huge age and
times out at once, unless its timeout is larger still.
-/
namespace Hwfq
open GuardedRuns

variable {s s' : Scheduler} {c : Call} {r : Response} {now : ℕ}

/-- The session has timed out, in unbounded integers. -/
def expired (now : ℕ) (e : InFlightEntry) : Bool :=
  decide (0 < e.timeoutNs) && decide (e.dequeueTimeNs + e.timeoutNs ≤ now)

def expiredEntries (s : Scheduler) (now : ℕ) : List InFlightEntry := s.inFlight.filter (expired now)

def workOf (l : List InFlightEntry) : ℕ := (l.map (·.workSize)).sum

/-- The call of `session_timeout_fn` for a session. -/
def InFlightEntry.report (e : InFlightEntry) : Callback :=
  .sessionTimeout e.tenantId e.flowId e.userData e.workSize e.timeoutNs

def Callback.isTimeout : Callback → Bool
  | .sessionTimeout .. => true
  | _ => false

/-- The scan takes the sessions that have timed out off the list, the totals and nothing
else, and reports each of them once. -/
structure TimeoutScan (s : Scheduler) (now : ℕ) : Prop where
  count : (hwfqCheckTimeouts s now).1 = (expiredEntries s now).length
  reports : s.config.sessionTimeoutFn = true →
    ((hwfqCheckTimeouts s now).2.1.filter Callback.isTimeout).Perm
      ((expiredEntries s now).map InFlightEntry.report)
  kept : (hwfqCheckTimeouts s now).2.2.inFlight = s.inFlight.filter fun e => !expired now e
  workSize : (hwfqCheckTimeouts s now).2.2.inFlightWorkSize + workOf (expiredEntries s now) =
    s.inFlightWorkSize
  inFlightCount : (hwfqCheckTimeouts s now).2.2.inFlightCount + (expiredEntries s now).length =
    s.inFlightCount

/-! ## The readings of the clock -/

/-- No age of the scan wraps onto a timeout: the session was dequeued by the time `now`, or
its timeout is beyond the wrapped age. -/
def AgeFits (now : ℕ) (e : InFlightEntry) : Prop :=
  0 < e.timeoutNs → e.dequeueTimeNs ≤ now ∨ now + 2 ^ 64 < e.dequeueTimeNs + e.timeoutNs

theorem isTimedOut_eq_expired_iff {e : InFlightEntry} (hfits : e.dequeueTimeNs ≤ uint64Max) :
    isTimedOut now e = expired now e ↔ AgeFits now e := by
  unfold uint64Max at hfits
  unfold isTimedOut expired AgeFits subU64 u64
  rw [Bool.eq_iff_iff]
  simp only [Bool.and_eq_true, decide_eq_true_eq, gt_iff_lt, ge_iff_le]
  split_ifs with hle <;> omega

/-- A reading of the clock has 64 bits. -/
def ReadingsFit (s : Scheduler) : Prop := ∀ e ∈ s.inFlight, e.dequeueTimeNs ≤ uint64Max

theorem uint64_le (n : UInt64) : n.toNat ≤ uint64Max := by
  have hlt := n.toNat_lt
  unfold uint64Max
  omega

theorem Effect.readingsFit (h : Effect s c r s') (hinv : SchedulerInv s) (hs : ReadingsFit s) :
    ReadingsFit s' := by
  rcases h.inFlight hinv with ⟨now, i, t, q, x, flows, t', -, -, hdel⟩ | hsub
  · obtain ⟨addr, -, hlist, -⟩ := hdel.inFlight
    intro e he
    rw [hlist] at he
    rcases List.mem_append.mp he with he | he
    · exact hs e he
    · rw [List.mem_singleton.mp he]
      exact uint64_le now
  · intro e he
    exact hs e (hsub.subset he)

theorem Made.readingsFit (h : Made s) (calls : List Call) : ReadingsFit (Hwfq.afterRun s calls) := by
  have hnew : ReadingsFit s := by
    obtain ⟨mem, config, hinit⟩ := h
    intro e he
    rw [(hwfqInit_success hinit).inFlight] at he
    cases he
  exact (run_invariant_all (I := fun s => SchedulerInv s ∧ ReadingsFit s)
    (fun s c hs => ⟨hs.1.after c, (hs.1.effect c).readingsFit hs.1 hs.2⟩) ⟨h.inv, hnew⟩ calls).2

/-! ## What the scan leaves -/

/-- The scan along a part `l` of the list, with `kept` before it. -/
theorem SchedulerInv.scan_list (h : SchedulerInv s) (now : ℕ) {kept l : List InFlightEntry}
    (hlist : s.inFlight = kept ++ l) (found : List InFlightEntry) :
    (l.foldl (scanStep now) (found, s)).2.inFlight =
      kept ++ l.filter fun e => !isTimedOut now e := by
  induction l generalizing s kept found with
  | nil => exact hlist
  | cons e l ih =>
    have hin : e ∈ s.inFlight := by
      rw [hlist]
      exact List.mem_append_right kept List.mem_cons_self
    rw [List.foldl_cons, scanStep]
    by_cases hout : isTimedOut now e = true
    · rw [if_pos hout, List.filter_cons_of_neg (by simp [hout])]
      apply ih (h.takeInFlight hin)
      exact inFlightRemove_split h.flight hin hlist
    · rw [if_neg hout, List.filter_cons_of_pos (by simpa using hout), List.append_cons]
      apply ih h
      rw [hlist, List.append_cons]

theorem SchedulerInv.checkTimeouts_list (h : SchedulerInv s) (now : ℕ) :
    (hwfqCheckTimeouts s now).2.2.inFlight = s.inFlight.filter fun e => !isTimedOut now e :=
  h.scan_list now (List.nil_append _).symm []

theorem SchedulerInv.checkTimeouts_answer (h : SchedulerInv s) (now : ℕ) :
    (hwfqCheckTimeouts s now).1 = u32 (s.inFlight.filter (isTimedOut now)).length ∧
      (s.config.sessionTimeoutFn = true →
        (hwfqCheckTimeouts s now).2.1.filter Callback.isTimeout =
          (s.inFlight.filter (isTimedOut now)).reverse.map InFlightEntry.report) := by
  obtain ⟨-, honly, hlist, -⟩ := h.scanTimeouts now
  unfold hwfqCheckTimeouts
  generalize Hwfq.scanTimeouts s now = scan at honly hlist ⊢
  obtain ⟨timedOutList, s₁⟩ := scan
  dsimp only at honly hlist ⊢
  constructor
  · rw [hlist, List.length_reverse]
  · intro hfn
    have hnotify : ∀ b : Bool, (notifyIf s₁ b).filter Callback.isTimeout = [] := by
      intro b
      unfold notifyIf
      split_ifs <;> rfl
    have hreports : ∀ l : List InFlightEntry, (l.map InFlightEntry.report).filter
        Callback.isTimeout = l.map InFlightEntry.report := by
      intro l
      apply List.filter_eq_self.mpr
      intro k hk
      obtain ⟨e, -, rfl⟩ := List.mem_map.mp hk
      rfl
    rw [honly.config, if_pos hfn, List.filter_append, hnotify, List.append_nil, ← hlist]
    exact hreports timedOutList

theorem workOf_filter (p : InFlightEntry → Bool) (l : List InFlightEntry) :
    workOf l = workOf (l.filter p) + workOf (l.filter fun e => !p e) := by
  unfold workOf
  have hperm := (List.filter_append_perm p l).symm.map (·.workSize)
  rw [hperm.sum_eq, List.map_append, List.sum_append]

theorem length_filter (p : InFlightEntry → Bool) (l : List InFlightEntry) :
    l.length = (l.filter p).length + (l.filter fun e => !p e).length := by
  rw [(List.filter_append_perm p l).symm.length_eq, List.length_append]

/-- Taking a part off a total modulo its width takes it off the total as it stands exactly
when the total is that large. -/
theorem u64_take_iff (out rest : ℕ) :
    u64 rest + out = u64 (out + rest) ↔ out ≤ u64 (out + rest) := by
  unfold u64
  omega

theorem u32_take_iff (out rest : ℕ) :
    u32 rest + out = u32 (out + rest) ↔ out ≤ u32 (out + rest) := by
  unfold u32
  omega

/-- The scan is exact when no age wraps and the totals hold what has timed out. -/
theorem SchedulerInv.timeoutScan_iff (h : SchedulerInv s) (hfits : ReadingsFit s) (now : ℕ) :
    TimeoutScan s now ↔ (∀ e ∈ s.inFlight, AgeFits now e) ∧
      workOf (expiredEntries s now) ≤ s.inFlightWorkSize ∧
      (expiredEntries s now).length ≤ s.inFlightCount := by
  have hlist := h.checkTimeouts_list now
  obtain ⟨hcount, hreports⟩ := h.checkTimeouts_answer now
  have htotals := h.totals
  have htotals' := (h.checkTimeouts now).1.totals
  constructor
  · intro hscan
    refine ⟨fun e he => ?_, ?_, ?_⟩
    · have hsame := hlist.symm.trans hscan.kept
      apply (isTimedOut_eq_expired_iff (hfits e he)).mp
      have hmem : e ∈ (s.inFlight.filter fun e => !isTimedOut now e) ↔
          e ∈ s.inFlight.filter fun e => !expired now e := by rw [hsame]
      simp only [List.mem_filter, he, true_and, Bool.not_eq_true'] at hmem
      cases hout : isTimedOut now e <;> cases hexp : expired now e <;> simp_all
    · rw [← hscan.workSize]
      exact Nat.le_add_left _ _
    · rw [← hscan.inFlightCount]
      exact Nat.le_add_left _ _
  · intro hcond
    obtain ⟨hages, hwork, hlen⟩ := hcond
    have hagree : ∀ e ∈ s.inFlight, isTimedOut now e = expired now e := fun e he =>
      (isTimedOut_eq_expired_iff (hfits e he)).mpr (hages e he)
    have hout : s.inFlight.filter (isTimedOut now) = expiredEntries s now :=
      List.filter_congr hagree
    have hkept : (hwfqCheckTimeouts s now).2.2.inFlight =
        s.inFlight.filter fun e => !expired now e := by
      rw [hlist]
      apply List.filter_congr
      intro e he
      rw [hagree e he]
    have hworkSplit : workOf s.inFlight = workOf (expiredEntries s now) +
        workOf (s.inFlight.filter fun e => !expired now e) := workOf_filter (expired now) s.inFlight
    have hlenSplit : s.inFlight.length = (expiredEntries s now).length +
        (s.inFlight.filter fun e => !expired now e).length := length_filter (expired now) s.inFlight
    have hworkSize : s.inFlightWorkSize = u64 (workOf s.inFlight) := htotals.workSize
    have hworkSize' : (hwfqCheckTimeouts s now).2.2.inFlightWorkSize =
        u64 (workOf (hwfqCheckTimeouts s now).2.2.inFlight) := htotals'.workSize
    rw [hworkSize, hworkSplit] at hwork
    rw [htotals.count, hlenSplit] at hlen
    constructor
    · rw [hcount, hout]
      exact u32_of_le (hlen.trans (u32_le _))
    · intro hfn
      rw [hreports hfn, hout]
      exact (List.reverse_perm _).map _
    · exact hkept
    · rw [hworkSize', hkept, hworkSize, hworkSplit]
      exact (u64_take_iff _ _).mpr hwork
    · rw [htotals'.count, hkept, htotals.count, hlenSplit]
      exact (u32_take_iff _ _).mpr hlen

/-- In every reachable state the scan is exact exactly when every session with a timeout was
dequeued by the time it is given (or has a timeout beyond the wrapped age), and the totals
hold the sessions that have timed out. -/
theorem timeout_scan_iff {s : Scheduler} (h : Made s) (calls : List Call) (now : UInt64) :
    let s' := afterRun s calls
    TimeoutScan s' now.toNat ↔
      (∀ e ∈ s'.inFlight, 0 < e.timeoutNs →
        e.dequeueTimeNs ≤ now.toNat ∨ now.toNat + 2 ^ 64 < e.dequeueTimeNs + e.timeoutNs) ∧
      workOf (expiredEntries s' now.toNat) ≤ s'.inFlightWorkSize ∧
      (expiredEntries s' now.toNat).length ≤ s'.inFlightCount :=
  (h.afterRun calls).timeoutScan_iff (h.readingsFit calls) now.toNat

/-- One session with a timeout of ten, dequeued at the time 100. -/
def dequeuedLate : List Call :=
  [.addTenant (some (.weight 1)) true, .addFlow 0 (some (.weight 1)) true,
    .enqueue 0 1 (some { userData := 7, workSize := 6, timeoutNs := 10 }) 0, .dequeue true 100]

theorem timeout_scan_iff_late :
    let s' := afterRun smallScheduler dequeuedLate
    TimeoutScan s' 110 ↔
      (∀ e ∈ s'.inFlight, 0 < e.timeoutNs →
        e.dequeueTimeNs ≤ 110 ∨ 110 + 2 ^ 64 < e.dequeueTimeNs + e.timeoutNs) ∧
      workOf (expiredEntries s' 110) ≤ s'.inFlightWorkSize ∧
      (expiredEntries s' 110).length ≤ s'.inFlightCount :=
  timeout_scan_iff smallScheduler_made dequeuedLate 110

/-- A time read before the dequeue times the session out. -/
theorem timeout_scan_early :
    let s' := afterRun smallScheduler dequeuedLate
    (hwfqCheckTimeouts s' 50).1 = 1 ∧ (hwfqCheckTimeouts s' 50).2.2.inFlight = [] ∧
      expiredEntries s' 50 = [] ∧ ¬ TimeoutScan s' 50 := by
  have hcount : (hwfqCheckTimeouts (afterRun smallScheduler dequeuedLate) 50).1 = 1 := by
    decide +kernel
  have hnone : expiredEntries (afterRun smallScheduler dequeuedLate) 50 = [] := by decide +kernel
  refine ⟨hcount, by decide +kernel, hnone, fun hscan => ?_⟩
  have hexact := hscan.count
  rw [hcount, hnone] at hexact
  cases hexact

end Hwfq
