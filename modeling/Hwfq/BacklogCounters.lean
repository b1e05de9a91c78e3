import Hwfq.RemovalGuards

/-!
# The backlog counters

With no session timing out and none put back in vain, every backlog counter is the number
of outstanding sessions it stands for. The timeout scan takes sessions out of the in-flight
list as completion and cancellation do, but leaves both counters as they are.
-/
namespace Hwfq
open GuardedRuns

variable {s s' : Scheduler} {c : Call} {i j : ℕ} {t : Tenant}

/-! ## The counters and the sessions -/

/-- Every counter is exact, also in the slots of removed flows. -/
structure Counted (s : Scheduler) : Prop where
  named : Named s
  flows : ∀ i j b, backlogAt s.cores i j = some b → b = s.outstanding.count (i, j)
  tenants : ∀ i b, tenantBacklogAt s.cores i = some b → b = (s.outstanding.map Prod.fst).count i

theorem Counted.accounted (h : Counted s) : Accounted s :=
  ⟨h.named, fun i j b hb => (h.flows i j b hb).ge⟩

/-- What keeps the counters exact: no session in flight loses its tenant, no counter
overflows, no session times out, and a refused dequeue can put its session back. -/
def KeepsCounters (s : Scheduler) : Call → Prop
  | .removeTenant i => ∀ t ∈ s.tenants i.toNat, t.hasBacklog = false →
      ∀ e ∈ s.inFlight, e.tenantId ≠ i.toNat
  | .enqueue i f _ _ => (∀ b ∈ backlogAt s.cores i.toNat f.toNat, b < uint32Max) ∧
      ∀ b ∈ tenantBacklogAt s.cores i.toNat, b < uint32Max
  | .checkTimeouts now => ∀ e ∈ s.inFlight, isTimedOut now.toNat e = false
  | .dequeue out _ => out = true → ∀ p ∈ putBackPoint s, takesBack p
  | _ => True

instance (s : Scheduler) : ∀ c, Decidable (KeepsCounters s c)
  | .removeTenant i => inferInstanceAs (Decidable (∀ t ∈ s.tenants i.toNat, t.hasBacklog = false →
      ∀ e ∈ s.inFlight, e.tenantId ≠ i.toNat))
  | .enqueue i f _ _ =>
      inferInstanceAs (Decidable ((∀ b ∈ backlogAt s.cores i.toNat f.toNat, b < uint32Max) ∧
        ∀ b ∈ tenantBacklogAt s.cores i.toNat, b < uint32Max))
  | .checkTimeouts now =>
      inferInstanceAs (Decidable (∀ e ∈ s.inFlight, isTimedOut now.toNat e = false))
  | .dequeue out _ => inferInstanceAs (Decidable (out = true → ∀ p ∈ putBackPoint s, takesBack p))
  | .addTenant .. | .configureTenant .. | .addFlow .. | .reconfigureFlow .. | .removeFlow ..
  | .complete .. | .cancel .. | .resetStats .. => isTrue trivial

theorem KeepsCounters.keepsAccounts (h : KeepsCounters s c) : KeepsAccounts s c := by
  cases c with
  | removeTenant i => exact h
  | enqueue i f work now => exact h.1
  | _ => trivial

/-- Only the removal of its tenant takes an unsettled session away. -/
theorem KeepsCounters.dropped (hc : KeepsCounters s c) (h : SchedulerInv s) {p : ℕ × ℕ}
    (hp : p ∈ dropped s c) :
    ∃ i : UInt32, c = .removeTenant i ∧ (respond s c).status = .success ∧ p.1 = i.toNat := by
  have hexpired : timedOut s c = 0 := by
    cases c with
    | checkTimeouts now =>
      rw [timedOut]
      have hnone : s.inFlight.filter (isTimedOut now.toNat) = [] :=
        List.filter_eq_nil_iff.mpr fun e he => by simp [hc e he]
      rw [hnone]
      rfl
    | _ => rfl
  have hlost : lost s c = 0 := by
    cases hask : c.asksSession with
    | false => exact lost_quiet hask
    | true =>
      cases c with
      | dequeue out now =>
        cases hpoint : putBackPoint s with
        | none => exact lost_none hpoint
        | some q =>
          rw [lost_some hask hpoint]
          exact if_pos (hc hask q hpoint)
      | _ => cases hask
  rw [Hwfq.dropped, hexpired, hlost, add_zero, Multiset.map_zero, zero_add] at hp
  obtain ⟨x, hx, rfl⟩ := Multiset.mem_map.mp hp
  cases c with
  | removeTenant i =>
    rw [disposed] at hx
    split_ifs at hx with hok
    · exact ⟨i, rfl, hok, h.queued_tenant hx⟩
    · exact absurd hx (Multiset.notMem_zero x)
  | _ => exact absurd hx (Multiset.notMem_zero x)

/-- After the removal of a tenant its slot is empty. -/
theorem SchedulerInv.removed_slot (h : SchedulerInv s) (i : UInt32)
    (hok : (respond s (.removeTenant i)).status = .success) :
    (Hwfq.after s (.removeTenant i)).cores i.toNat = none := by
  obtain ⟨-, ⟨hbad, -⟩ | ⟨t, -, -, heq⟩⟩ := h.removeTenant i.toNat
  · exact absurd hok hbad
  · have hstate : Hwfq.after s (.removeTenant i) = Hwfq.tenantRemoved s i.toNat t :=
      congrArg (·.2.2) heq
    have hgone : (Hwfq.after s (.removeTenant i)).tenants i.toNat = none := by
      rw [hstate]
      exact Function.update_self ..
    rw [Scheduler.cores, hgone]
    rfl

/-- No session of a tenant that is still there is dropped. -/
theorem KeepsCounters.kept (hc : KeepsCounters s c) (h : SchedulerInv s)
    (hthere : (Hwfq.after s c).cores i ≠ none) {p : ℕ × ℕ} (hp : p ∈ Hwfq.dropped s c) : p.1 ≠ i := by
  obtain ⟨k, rfl, hok, hk⟩ := hc.dropped h hp
  intro hi
  have hgone := h.removed_slot k hok
  rw [← hk, hi] at hgone
  exact hthere hgone

/-! ## One call -/

theorem Counted.step_flows (h : SchedulerInv s) (hfit : EveryTenant BacklogsFit s.cores)
    (ha : Counted s) (hc : KeepsCounters s c) {b : ℕ}
    (hb : backlogAt (after s c).cores i j = some b) : b = (after s c).outstanding.count (i, j) := by
  have hthere : (after s c).cores i ≠ none := by
    intro hnone
    rw [backlogAt, readAt, hnone] at hb
    cases hb
  have hdrop : (dropped s c).count (i, j) = 0 :=
    Multiset.count_eq_zero.mpr fun hin => hc.kept h hthere hin rfl
  have hbalance := h.count_balance c (i, j)
  rw [hdrop, Nat.add_zero] at hbalance
  cases hedit : c.editsFlows with
  | true =>
    obtain ⟨hin, hout⟩ := moved_edited (s := s) hedit
    rw [hin, hout, Multiset.count_zero] at hbalance
    rcases (h.effect c).read_edited h hedit hb with hsame | ⟨rfl, hgone⟩
    · have hcount := ha.flows i j b hsame
      omega
    · have hzero : s.outstanding.count (i, j) = 0 :=
        Multiset.count_eq_zero.mpr fun hin => hgone (ha.named _ hin)
      have hblank : ({} : Stats).currentBacklog = 0 := rfl
      omega
  | false =>
    rw [(h.recounted hfit ha.named hedit).flows] at hb
    obtain ⟨b₀, hb₀, rfl⟩ := Option.map_eq_some_iff.mp hb
    have hcount := ha.flows i j b₀ hb₀
    have hup : (i, j) ∈ entered s c → b₀ < uint32Max := by
      intro hin
      obtain ⟨-, i', f, work, now, rfl, hids⟩ := h.entered_configured hin
      cases hids
      exact hc.1 b₀ hb₀
    have hdown : (i, j) ∈ settled s c → 0 < b₀ := by
      intro hout
      have hpos := Multiset.count_pos.mpr (h.settled_outstanding hout)
      omega
    have hrecount := recount_balance (movesOne s c) hup hdown
    omega

theorem Counted.step_tenants (h : SchedulerInv s) (hfit : EveryTenant BacklogsFit s.cores)
    (ha : Counted s) (hc : KeepsCounters s c) {b : ℕ}
    (hb : tenantBacklogAt (after s c).cores i = some b) :
    b = ((after s c).outstanding.map Prod.fst).count i := by
  have hthere : (after s c).cores i ≠ none := by
    intro hnone
    rw [tenantBacklogAt, hnone] at hb
    cases hb
  have hdrop : ((dropped s c).map Prod.fst).count i = 0 := by
    apply Multiset.count_eq_zero.mpr
    intro hin
    obtain ⟨p, hp, hi⟩ := Multiset.mem_map.mp hin
    exact hc.kept h hthere hp hi
  have hbalance := congrArg (fun m => (m.map Prod.fst).count i) (h.outstanding_balance c)
  simp only [Multiset.map_add, Multiset.count_add] at hbalance
  rw [hdrop, Nat.add_zero] at hbalance
  cases hedit : c.editsFlows with
  | true =>
    obtain ⟨hin, hout⟩ := moved_edited (s := s) hedit
    rw [hin, hout, Multiset.map_zero, Multiset.count_zero] at hbalance
    rcases (h.effect c).tenantBacklog_edited hedit hb with hsame | ⟨rfl, hgone⟩
    · have hcount := ha.tenants i b hsame
      omega
    · have hzero : (s.outstanding.map Prod.fst).count i = 0 := by
        apply Multiset.count_eq_zero.mpr
        intro hin
        obtain ⟨p, hp, rfl⟩ := Multiset.mem_map.mp hin
        obtain ⟨t, ht, -⟩ := ha.named p hp
        rw [hgone] at ht
        cases ht
      omega
  | false =>
    rw [(h.recounted hfit ha.named hedit).tenants] at hb
    obtain ⟨b₀, hb₀, rfl⟩ := Option.map_eq_some_iff.mp hb
    have hcount := ha.tenants i b₀ hb₀
    have hup : i ∈ (entered s c).map Prod.fst → b₀ < uint32Max := by
      intro hin
      obtain ⟨p, hp, rfl⟩ := Multiset.mem_map.mp hin
      obtain ⟨-, i', f, work, now, rfl, rfl⟩ := h.entered_configured hp
      exact hc.2 b₀ hb₀
    have hdown : i ∈ (settled s c).map Prod.fst → 0 < b₀ := by
      intro hout
      obtain ⟨p, hp, rfl⟩ := Multiset.mem_map.mp hout
      have hpos := Multiset.count_pos.mpr
        (Multiset.mem_map_of_mem Prod.fst (h.settled_outstanding hp))
      omega
    have hrecount := recount_balance ((movesOne s c).map Prod.fst) hup hdown
    omega

theorem Counted.step (h : SchedulerInv s) (hfit : EveryTenant BacklogsFit s.cores) (ha : Counted s)
    (hc : KeepsCounters s c) : Counted (Hwfq.after s c) :=
  ⟨(ha.accounted.step h hfit hc.keepsAccounts).named, fun _ _ _ hb => ha.step_flows h hfit hc hb,
    fun _ _ hb => ha.step_tenants h hfit hc hb⟩

/-! ## Every run -/

/-- The counters are the numbers of outstanding sessions, and a flow without any can be
removed. -/
structure CountersExact (s : Scheduler) : Prop where
  tenant : ∀ i t, s.tenants i = some t →
    t.stats.currentBacklog = (s.outstanding.filter fun p => p.1 = i).card
  flow : ∀ i t f entry, s.tenants i = some t → findFlowEntry t f = some entry →
    entry.stats.currentBacklog = s.outstanding.count (i, f)
  flows : ∀ p ∈ s.outstanding, Configured s p
  removable : ∀ i f : UInt32, Configured s (i.toNat, f.toNat) →
    (i.toNat, f.toNat) ∉ s.outstanding → (respond s (.removeFlow i f)).status = .success

theorem Counted.exact (h : SchedulerInv s) (ha : Counted s) : CountersExact s := by
  have hflow : ∀ i t f entry, s.tenants i = some t → findFlowEntry t f = some entry →
      entry.stats.currentBacklog = s.outstanding.count (i, f) := fun i t f entry ht hfind =>
    ha.flows i f _ (backlogAt_of_find ht hfind)
  constructor
  · intro i t ht
    have hback : tenantBacklogAt s.cores i = some t.stats.currentBacklog := by
      rw [tenantBacklogAt, cores_some ht]
      rfl
    rw [ha.tenants i _ hback, Multiset.count_map]
    congr 1
    exact Multiset.filter_congr fun p _ => eq_comm
  · exact hflow
  · exact ha.named
  · intro i f hconf hnone
    obtain ⟨t, ht, hfind⟩ := hconf
    obtain ⟨entry, hentry⟩ := Option.isSome_iff_exists.mp hfind
    have hzero := hflow _ t _ entry ht hentry
    rw [Multiset.count_eq_zero.mpr hnone] at hzero
    have hslot : ¬ i.toNat ≥ s.maxTenants := Nat.not_le.mpr (h.lt_maxTenants ht)
    have hstatus : (respond s (.removeFlow i f)).status = (hwfqRemoveFlow s i.toNat f.toNat).1 := rfl
    rw [hstatus, hwfqRemoveFlow, if_neg hslot, h.configuredTenant, ht]
    dsimp only
    rw [hentry]
    dsimp only
    rw [if_neg (by omega)]

theorem Made.counted (h : Made s) : Counted s := by
  obtain ⟨mem, config, hinit⟩ := h
  have hnew := hwfqInit_success hinit
  have hcores : ∀ i, s.cores i = none := by
    intro i
    rw [Scheduler.cores, hnew.tenants]
    rfl
  refine ⟨(Made.accounted ⟨mem, config, hinit⟩).named, fun i j b hb => ?_, fun i b hb => ?_⟩
  · rw [backlogAt, readAt, hcores] at hb
    cases hb
  · rw [tenantBacklogAt, hcores] at hb
    cases hb

/-- In a run in which nothing times out, every refused session is taken back, no tenant goes
while its sessions are in flight and no counter overflows, all backlog counters are exact. -/
theorem backlog_exact (s : Scheduler) (h : Made s) (calls : List Call)
    (hkeeps : Along after KeepsCounters s calls) : CountersExact (afterRun s calls) := by
  have hstep : ∀ (s : Scheduler) (c : Call),
      SchedulerInv s ∧ EveryTenant BacklogsFit s.cores ∧ Counted s → KeepsCounters s c →
      SchedulerInv (after s c) ∧ EveryTenant BacklogsFit (after s c).cores ∧ Counted (after s c) :=
    fun s c hs hc => ⟨hs.1.after c, (hs.1.effect c).backlogsFit hs.1 hs.2.1,
      hs.2.2.step hs.1 hs.2.1 hc⟩
  obtain ⟨hinv, -, hcounted⟩ := run_invariant hstep ⟨h.inv, h.backlogsFit [], h.counted⟩ hkeeps
  exact hcounted.exact hinv

/-- A flow with one session completed, one cancelled and one refused and still queued. -/
theorem backlog_exact_small : CountersExact (afterRun smallScheduler
    [.addTenant (some (.weight 1)) true, .addFlow 0 (some (.weight 1)) true,
      .enqueue 0 1 (some { userData := 7, workSize := 6 }) 0,
      .enqueue 0 1 (some { userData := 8, workSize := 60 }) 0,
      .enqueue 0 1 (some { userData := 9, workSize := 50 }) 0, .dequeue true 0, .complete 0 1 none,
      .dequeue true 0, .dequeue true 0, .cancel 0 1 none]) :=
  backlog_exact smallScheduler smallScheduler_made _ (by decide +kernel)

/-- The only session of a flow times out in flight. -/
def timedOutSession : List Call :=
  [.addTenant (some (.weight 1)) true, .addFlow 0 (some (.weight 1)) true,
    .enqueue 0 1 (some { userData := 7, workSize := 6, timeoutNs := 10 }) 0, .dequeue true 0,
    .checkTimeouts 20]

/-- The session is gone, the counter of its flow stays at one, and the flow cannot be removed. -/
theorem backlog_not_exact : ¬ CountersExact (afterRun smallScheduler timedOutSession) := by
  intro hexact
  have hremovable := hexact.removable 0 1 (configured_iff.mpr (by decide +kernel))
    (by decide +kernel)
  revert hremovable
  decide +kernel

end Hwfq
