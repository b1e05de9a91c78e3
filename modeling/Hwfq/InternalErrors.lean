import Hwfq.TenantTokens

/-!
# Internal errors

An enqueue reports `HWFQ_ERR_INTERNAL` when the rate of the flow is zero or the bin of
the session lies outside the table, a dequeue when the tenant of the token it took has
no session to give.
-/
namespace Hwfq
open GuardedRuns

section Groups
variable {α : Type*} {gs : GroupScheduler α}

/-- A session of `w` work units of an entry has a rate to divide by and a bin. -/
def HasPlace (gs : GroupScheduler α) (entry : EntryConfig) (w : ℕ) : Prop :=
  entryRate gs entry ≠ 0 ∧ newSessionBin gs entry w < gs.numBins

instance (gs : GroupScheduler α) (entry : EntryConfig) (w : ℕ) : Decidable (HasPlace gs entry w) :=
  inferInstanceAs (Decidable (_ ∧ _))

/-- The counter is not zero, and some session in a bin that the search visits has started
by the clock, or by the cached minimum that the clock may jump to, and is not saturated. -/
def Offers (gs : GroupScheduler α) : Prop :=
  gs.activeSessionCount ≠ 0 ∧ ∃ q ∈ gs.queued, q.binIndex < 32768 ∧ q.finishTime < uint64Max ∧
    (q.startTime ≤ gs.virtualTime ∨ q.startTime ≤ gs.minStartTime ∧ gs.minStartTime ≠ uint64Max)

/-- What enqueue answers on a configured entry when memory is granted. -/
theorem enqueue_internal_iff {mem : Allocator} {id w : ℕ} {entry : EntryConfig} (ud : Option α)
    (cf : Bool) (hmem : mem.ok 0 = true) (hw : w ≠ 0) (hid : id < gs.maxEntries)
    (hfind : groupSchedulerFindEntry gs id = some entry) :
    (groupSchedulerEnqueue mem gs id w ud cf).status ≠ .internal ↔ HasPlace gs entry w := by
  have halloc : hwfqAlloc mem 1 = (some mem.next, ⟨fun k => mem.ok (k + 1), mem.next + 1⟩) := by
    rw [hwfqAlloc, if_neg (by decide), if_pos hmem]
  have hbin := sessionBin_newSession gs entry mem.next id w ud cf
  unfold groupSchedulerEnqueue HasPlace
  rw [if_neg hw, if_neg (Nat.not_le.mpr hid), hfind, halloc]
  dsimp only
  by_cases hrate : entryRate gs entry = 0
  · rw [if_pos hrate]
    simp [hrate]
  rw [if_neg hrate]
  rcases calendarInsertSession_cases gs (newSession gs entry mem.next id w ud cf) with
    ⟨hlt, hok⟩ | ⟨hge, hfail⟩
  · generalize calendarInsertSession gs (newSession gs entry mem.next id w ud cf) = r at hok ⊢
    obtain ⟨status, gs'⟩ := r
    cases hok
    exact iff_of_true (by simp) ⟨hrate, hbin ▸ hlt⟩
  · rw [hfail]
    exact iff_of_false (by simp) fun hplace => Nat.not_le.mpr hplace.2 (hbin ▸ hge)

/-- Dequeue returns a session exactly when the scheduler offers one. -/
theorem dequeue_isSome_iff_offers (h : CalendarInv gs) :
    (groupSchedulerDequeue gs).1.isSome = true ↔ Offers gs := by
  have hfind : (findEligibleMinBitfield gs (dequeueTime gs)).isSome = true ↔
      ∃ q ∈ gs.queued, q.binIndex < 32768 ∧ q.finishTime < uint64Max ∧
        (q.startTime ≤ gs.virtualTime ∨
          q.startTime ≤ gs.minStartTime ∧ gs.minStartTime ≠ uint64Max) := by
    rw [findEligible_isSome_visited h]
    constructor
    · intro hex
      obtain ⟨q, hq, hbin, hstart, hfinish⟩ := hex
      refine ⟨q, hq, hbin, hfinish, ?_⟩
      rcases dequeueTime_cases gs with heq | ⟨heq, hmin, -, -⟩
      · exact .inl (heq ▸ hstart)
      · exact .inr ⟨heq ▸ hstart, hmin⟩
    · intro hex
      obtain ⟨q, hq, hbin, hfinish, hstart⟩ := hex
      have hclock := virtualTime_le_dequeueTime gs
      rcases hstart with hstart | ⟨hstart, hmin⟩
      · exact ⟨q, hq, hbin, hstart.trans hclock, hfinish⟩
      cases hnow : findEligibleMinBitfield gs gs.virtualTime with
      | some r =>
        obtain ⟨r', hr', hbin', hstart', hfinish'⟩ :=
          (findEligible_isSome_visited h).mp (by rw [hnow]; rfl)
        exact ⟨r', hr', hbin', hstart'.trans hclock, hfinish'⟩
      | none =>
        refine ⟨q, hq, hbin, ?_, hfinish⟩
        unfold dequeueTime
        rw [hnow]
        dsimp only
        split_ifs with hjump
        · exact hstart
        · have hle : gs.minStartTime ≤ gs.virtualTime := by
            by_contra hlt
            exact hjump ⟨hmin, Nat.lt_of_not_le hlt⟩
          exact hstart.trans hle
  unfold Offers
  rw [← hfind]
  rcases dequeue_cases h with ⟨hzero, heq⟩ | ⟨hne, hnone, heq⟩ | ⟨hne, q, hsome, heq⟩
  · rw [heq]
    exact iff_of_false (by simp) fun hoffers => hoffers.1 hzero
  · rw [heq, hnone]
    simp
  · rw [heq, hsome]
    simp [hne]

end Groups

variable {s : Scheduler} {i : ℕ} {t : Tenant}

/-! ## Enqueue -/

theorem mapStats_find {flowId : ℕ} {entry : EntryConfig} (f : Stats → Stats)
    (hfind : findFlowEntry t flowId = some entry) :
    groupSchedulerFindEntry (t.mapStats flowId f).flowScheduler flowId =
      some { entry with stats := f entry.stats } := by
  have hentry : groupSchedulerFindEntry t.flowScheduler flowId = some entry := hfind
  rw [mapStats_findEntry, hentry, Option.map_some, if_pos rfl]

theorem mapStats_hasPlace {flowId w : ℕ} {entry : EntryConfig} (f : Stats → Stats)
    (hfind : (findFlowEntry t flowId).isSome = true) :
    HasPlace (t.mapStats flowId f).flowScheduler { entry with stats := f entry.stats } w ↔
      HasPlace t.flowScheduler entry w := by
  unfold Tenant.mapStats
  rw [if_pos hfind]
  exact Iff.rfl

theorem SchedulerInv.offer_internal_iff (h : SchedulerInv s) (ht : s.tenants i = some t)
    {x : FlowSessionContext} {entry : EntryConfig} (hfind : findFlowEntry t x.flowId = some entry)
    (hmem : s.mem.ok 0 = true) (htenant : x.tenantId = i)
    (hfits : 0 < x.workSize ∧ x.workSize ≤ uint64Max) :
    (offerSession s i x.flowId t x).1 ≠ .internal ↔ HasPlace t.flowScheduler entry x.workSize := by
  have hsome : (findFlowEntry t x.flowId).isSome = true := by rw [hfind, Option.isSome_some]
  obtain ⟨live, hpool⟩ := ((h.tenants i t ht).mapStats x.flowId Stats.backlogUp).flows.pooled
  have hfind' := mapStats_find Stats.backlogUp hfind
  have hid : x.flowId < (t.mapStats x.flowId Stats.backlogUp).flowScheduler.maxEntries := by
    apply hpool.bounded
    rw [activeEntry_eq, hfind', Option.map_some, Option.isSome_some]
  rw [(h.offer ht htenant hfits).2.1, ← mapStats_hasPlace Stats.backlogUp hsome]
  exact enqueue_internal_iff (some x) true hmem hfits.1.ne' hid hfind'

/-- Without memory failures an enqueue with valid arguments reports an internal error
exactly when the session has no place in the flow scheduler. -/
theorem SchedulerInv.enqueue_internal_iff (h : SchedulerInv s) (hmem : s.mem.AlwaysOk)
    (tenantId flowId : ℕ) (work : Option Session) (now : ℕ) :
    (hwfqEnqueue s tenantId flowId work now).1 ≠ .internal ↔
      ∀ w ∈ work, w.workSize ≠ 0 → flowId ≠ flowIdReserved → ∀ t ∈ s.tenants tenantId,
        ∀ entry ∈ findFlowEntry t flowId, HasPlace t.flowScheduler entry w.workSize.toNat := by
  have halloc : hwfqAlloc s.mem 1 =
      (some s.mem.next, ⟨fun k => s.mem.ok (k + 1), s.mem.next + 1⟩) := by
    rw [hwfqAlloc, if_neg (by decide), if_pos (hmem 0)]
  unfold hwfqEnqueue
  cases work with
  | none => simp
  | some w =>
    dsimp only
    by_cases hsize : w.workSize = 0
    · rw [if_pos hsize]
      simp [hsize]
    rw [if_neg hsize]
    cases ht : s.tenants tenantId with
    | none =>
      rw [h.configuredTenant, ht]
      split_ifs <;> simp
    | some t =>
      rw [if_neg (Nat.not_le.mpr (h.lt_maxTenants ht)), h.configuredTenant, ht]
      by_cases hreserved : flowId = flowIdReserved
      · rw [if_pos hreserved]
        simp [hreserved]
      rw [if_neg hreserved]
      dsimp only
      cases hfind : findFlowEntry t flowId with
      | none => simp [hfind]
      | some entry =>
        rw [Option.isNone_some, if_neg (by decide), halloc]
        dsimp only
        have hinv : SchedulerInv
            { s with mem := ⟨fun k => s.mem.ok (k + 1), s.mem.next + 1⟩ } :=
          h.withMem (Nat.le_succ s.mem.next)
        have hpos : 0 < w.workSize.toNat :=
          Nat.pos_of_ne_zero fun hzero => hsize (UInt64.toNat_inj.mp hzero)
        have hle : w.workSize.toNat ≤ uint64Max := by
          have hlt := w.workSize.toNat_lt
          unfold uint64Max
          omega
        have hoffer := hinv.offer_internal_iff (i := tenantId) ht
          (x := newContext s s.mem.next tenantId flowId w now) hfind (hmem 1) rfl
          ⟨hpos, hle⟩
        have hwork : (newContext s s.mem.next tenantId flowId w now).workSize = w.workSize.toNat :=
          rfl
        have hflow : (newContext s s.mem.next tenantId flowId w now).flowId = flowId := rfl
        rw [hflow, hwork] at hoffer
        rw [hoffer]
        simp [hsize, hreserved, hfind]

/-! ## Dequeue -/

/-- A dequeue reports an internal error exactly when the tenant of the next token offers
no session. -/
theorem SchedulerInv.dequeue_internal_iff (h : SchedulerInv s) (workOut : Bool) (now : ℕ) :
    (hwfqDequeue s workOut now).1 ≠ .internal ↔
      (workOut = true → ∀ t ∈ nextTenant s, Offers t.flowScheduler) := by
  unfold hwfqDequeue
  cases workOut with
  | false => simp
  | true =>
    simp only [Bool.not_true, Bool.false_eq_true, if_false, forall_const]
    rcases h.select with ⟨system, hd, heq, -⟩ | ⟨token, system, t, flows, hd, ht, -, -, hcase⟩
    · have hnone : nextTenant s = none := by rw [nextTenant, hd]; rfl
      rw [heq, hnone]
      simp
    have hoffers := dequeue_isSome_iff_offers (h.tenants _ t ht).flows.group.calendar
    rw [h.nextTenant_eq hd ht]
    rcases hcase with ⟨hmiss, heq⟩ | ⟨q, x, htake, -, heq⟩
    · rw [heq]
      rw [hmiss] at hoffers
      simpa using hoffers
    · rw [heq]
      rw [htake] at hoffers
      have hsome : Offers t.flowScheduler := hoffers.mp rfl
      generalize afterSelect s system token.entryId t flows = s₁
      dsimp only
      refine iff_of_true ?_ fun u hu => Option.some.inj hu ▸ hsome
      split_ifs
      · simp
      · split <;> simp [deliverSession]

/-! ## Every run -/

theorem SchedulerInv.afterRun_granted (h : SchedulerInv s) (hmem : s.mem.AlwaysOk)
    (calls : List Call) : (Hwfq.afterRun s calls).mem.AlwaysOk := by
  have hstep : ∀ (s : Scheduler) (c : Call), SchedulerInv s ∧ s.mem.AlwaysOk →
      SchedulerInv (Hwfq.after s c) ∧ (Hwfq.after s c).mem.AlwaysOk := by
    intro s c hs
    exact ⟨hs.1.after c, (hs.1.effect c).memory.2 hs.2⟩
  exact (run_invariant_all hstep ⟨h, hmem⟩ calls).2

/-- In every reachable state without memory failures, an enqueue avoids the internal error
exactly when the session has a rate and a bin, and a dequeue exactly when the tenant whose
token is next offers a session. -/
theorem internal_error_iff {s : Scheduler} (h : Made s) (hmem : s.mem.AlwaysOk)
    (calls : List Call) :
    let s' := afterRun s calls
    (∀ i f work now, (respond s' (.enqueue i f work now)).status ≠ .internal ↔
      ∀ w ∈ work, w.workSize ≠ 0 → f.toNat ≠ flowIdReserved → ∀ t ∈ s'.tenants i.toNat,
        ∀ entry ∈ findFlowEntry t f.toNat,
          HasPlace t.flowScheduler entry w.workSize.toNat) ∧
      ∀ out now, (respond s' (.dequeue out now)).status ≠ .internal ↔
        (out = true → ∀ t ∈ nextTenant s', Offers t.flowScheduler) := by
  have hinv := h.afterRun calls
  have hgranted := h.inv.afterRun_granted hmem calls
  constructor
  · intro i f work now
    exact hinv.enqueue_internal_iff hgranted i.toNat f.toNat work now.toNat
  · intro out now
    exact hinv.dequeue_internal_iff out now.toNat

/-- A session is put back after a second flow has made all weights of the tenant overflow. -/
def overflowCalls : List Call :=
  [.addTenant (some (.weight 1)) true, .addFlow 0 (some (.weight 1)) true,
    .enqueue 0 1 (some { userData := 7, workSize := 101 }) 0,
    .addFlow 0 (some (.weight 4294967295)) true, .dequeue true 0]

theorem internal_error_iff_overflow :
    let s := afterRun smallScheduler overflowCalls
    (∀ i f work now, (respond s (.enqueue i f work now)).status ≠ .internal ↔
      ∀ w ∈ work, w.workSize ≠ 0 → f.toNat ≠ flowIdReserved → ∀ t ∈ s.tenants i.toNat,
        ∀ entry ∈ findFlowEntry t f.toNat,
          HasPlace t.flowScheduler entry w.workSize.toNat) ∧
      ∀ out now, (respond s (.dequeue out now)).status ≠ .internal ↔
        (out = true → ∀ t ∈ nextTenant s, Offers t.flowScheduler) :=
  internal_error_iff smallScheduler_made smallScheduler_granted overflowCalls

/-- Both calls report an internal error with valid arguments and all memory granted. -/
theorem internal_errors :
    let s := afterRun smallScheduler overflowCalls
    Made smallScheduler ∧ smallScheduler.mem.AlwaysOk ∧
      (respond s (.enqueue 0 1 (some { userData := 8, workSize := 1 }) 0)).status = .internal ∧
      (respond s (.dequeue true 0)).status = .internal := by
  refine ⟨smallScheduler_made, smallScheduler_granted, ?_, ?_⟩
  · decide +kernel
  · decide +kernel

end Hwfq
