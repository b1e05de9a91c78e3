import Hwfq.SearchCoverage
import Hwfq.SessionLedger
import Hwfq.TenantShares
import Hwfq.WorkConservation

/-!
# Registering a tenant with the system scheduler

A tenant gets a token when its rate is positive and its token falls into a group
that exists. No call but a dequeue takes a token away, and a dequeue takes one.
-/
namespace Hwfq
open GuardedRuns

/-! ## The rate of an entry -/

section Rates
variable {α : Type*} {gs gs' : GroupScheduler α}

/-- The rate that enqueue divides by, for a configured entry. -/
def rateOf (gs : GroupScheduler α) (id : ℕ) : Option ℕ :=
  (groupSchedulerFindEntry gs id).map (entryRate gs)

/-- The group of a session of `w` work units at the rate of an entry. -/
def groupOf (gs : GroupScheduler α) (w rate : ℕ) : ℕ :=
  calculateGroupIndexFromInterval (serviceIntervalOf w rate) gs.baseInterval

theorem rateOf_of_ledger (h : gs'.ledger = gs.ledger) (id : ℕ) : rateOf gs' id = rateOf gs id := by
  simp only [GroupScheduler.ledger, Ledger.mk.injEq] at h
  obtain ⟨hentries, -, -, hrates, hweight, hcapacity⟩ := h
  have hrate : entryRate gs' = entryRate gs := by
    funext e
    unfold entryRate calculateEffectiveRate
    rw [hrates, hweight, hcapacity]
  rw [rateOf, rateOf, hrate, groupSchedulerFindEntry, hentries, groupSchedulerFindEntry]

theorem rateOf_update (hids : gs.configuredEntries.Nodup) (w id : ℕ) :
    rateOf (groupSchedulerUpdateVirtualTime gs w) id = rateOf gs id := by
  obtain ⟨-, -, hrates, hweight, hcapacity⟩ := updateVirtualTime_totals gs w
  have hrate : ∀ e e' : EntryConfig, e'.allocation = e.allocation →
      e'.calculatedRate = e.calculatedRate →
      entryRate (groupSchedulerUpdateVirtualTime gs w) e' = entryRate gs e := by
    intro e e' halloc hcalc
    unfold entryRate calculateEffectiveRate
    rw [hrates, hweight, hcapacity, halloc, hcalc]
  rw [rateOf, rateOf, groupSchedulerFindEntry, groupSchedulerFindEntry,
    updateVirtualTime_get hids w id]
  cases hwfqChunkedGet gs.entries id with
  | none => simp
  | some e =>
    cases hconf : e.configured with
    | false => split_ifs <;> simp [Option.filter, hconf]
    | true =>
      split_ifs
      · simp only [Option.map_some, Option.filter, hconf, if_true]
        exact congrArg some (hrate e _ rfl rfl)
      · simp only [Option.filter, hconf, if_true, Option.map_some]
        exact congrArg some (hrate e e rfl rfl)

/-- The tests of enqueue come down to the rate and the group. -/
theorem admissible_of_rate {id w r : ℕ} (hbins : gs.numBins = gs.numGroups * gs.binsPerGroup)
    (hfew : gs.numBins ≤ 32768) (hpos : 0 < gs.binsPerGroup) (hid : id < gs.maxEntries)
    (hw : w ≠ 0) (hrate : rateOf gs id = some r) (hr : r ≠ 0)
    (hgroup : groupOf gs w r < gs.numGroups) : ∃ e, Admissible gs id w e := by
  obtain ⟨e, he, rfl⟩ := Option.map_eq_some_iff.mp hrate
  refine ⟨e, hw, hid, he, hr, ?_⟩
  have hbin := binIndex_lt hpos (newSession gs e 0 0 w none false).finishTime
    (newSession gs e 0 0 w none false).groupIndex gs.baseInterval
  have hindex : (newSession gs e 0 0 w none false).groupIndex = groupOf gs w (entryRate gs e) := rfl
  have hlast : (groupOf gs w (entryRate gs e) + 1) * gs.binsPerGroup ≤
      gs.numGroups * gs.binsPerGroup := Nat.mul_le_mul_right _ hgroup
  rw [Nat.add_mul, Nat.one_mul] at hlast
  unfold newSessionBin sessionBin u32
  rw [hindex] at hbin ⊢
  omega

/-! ## Queues that can be served -/

/-- Some session that has started by the clock or starts first is not saturated. -/
def Servable (gs : GroupScheduler α) : Prop :=
  ∃ q ∈ gs.queued, q.startTime ≤ max gs.virtualTime gs.minStartTime ∧ q.finishTime < uint64Max

instance (gs : GroupScheduler α) : Decidable (Servable gs) := Multiset.decidableExistsMultiset

/-- The choice of a queue with an honest counter is exactly a matter of saturation. -/
theorem Searchable.dequeue_isSome_iff_servable {st : GroupState α} (h : Searchable st)
    (hcard : st.gs.queued.card ≤ uint32Max) :
    (groupSchedulerDequeue st.gs).1.isSome = true ↔ Servable st.gs := by
  have hcount := h.inv.count
  rw [u32_of_le hcard] at hcount
  have hfind : (findEligibleMinBitfield st.gs (dequeueTime st.gs)).isSome = true ↔
      Servable st.gs := by
    rw [findEligible_isSome_iff h.inv.calendar h.bins]
    constructor
    · rintro ⟨q, hq, hstart, hfinish⟩
      have htime : dequeueTime st.gs ≤ max st.gs.virtualTime st.gs.minStartTime := by
        rcases dequeueTime_cases st.gs with heq | ⟨heq, -⟩ <;> omega
      exact ⟨q, hq, hstart.trans htime, hfinish⟩
    · rintro ⟨q, hq, hstart, hfinish⟩
      refine ⟨q, hq, ?_, hfinish⟩
      have hclock := virtualTime_le_dequeueTime st.gs
      have hleast := h.cache.least.le
      have hstamps := h.inv.stamps q hq
      rcases Nat.lt_or_ge st.gs.virtualTime st.gs.minStartTime with hlt | hge
      · have hnone : findEligibleMinBitfield st.gs st.gs.virtualTime = none := by
          rw [← Option.not_isSome_iff_eq_none, findEligible_isSome_iff h.inv.calendar h.bins]
          rintro ⟨q', hq', hstart', -⟩
          have := hleast q' hq'
          omega
        have hjump : dequeueTime st.gs = st.gs.minStartTime := by
          have := hleast q hq
          simp only [dequeueTime, hnone]
          exact if_pos ⟨by omega, hlt⟩
        omega
      · omega
  rcases dequeue_cases h.inv.calendar with ⟨hzero, heq⟩ | ⟨-, hnone, heq⟩ | ⟨-, q, hsome, heq⟩
  · rw [heq]
    refine iff_of_false (by simp) ?_
    rintro ⟨q, hq, -⟩
    rw [Multiset.card_eq_zero.mp (hcount.symm.trans hzero)] at hq
    exact Multiset.notMem_zero q hq
  · rw [heq, ← hfind, hnone]
  · rw [heq, ← hfind, hsome]

end Rates

/-! ## Flags and tokens -/

variable {s s' s₁ s₂ : Scheduler} {c : Call} {r : Response} {i : ℕ} {t : Tenant}

/-- The tenant in slot `i` has its flag set. -/
def Flagged (s : Scheduler) (i : ℕ) : Prop := ∃ t ∈ s.tenants i, t.hasBacklog = true

/-- The system scheduler would take a token of the tenant in slot `i`: its rate is not
zero and the group of a token at that rate exists. -/
def Registrable (s : Scheduler) (i : ℕ) : Prop :=
  ∃ r ∈ rateOf s.systemScheduler i, r ≠ 0 ∧
    groupOf s.systemScheduler tenantQuantumSize r < s.numGroups

instance (s : Scheduler) (i : ℕ) : Decidable (Registrable s i) :=
  inferInstanceAs (Decidable (∃ r ∈ rateOf s.systemScheduler i, r ≠ 0 ∧
    groupOf s.systemScheduler tenantQuantumSize r < s.numGroups))

/-- There are at most as many tokens as tenants. -/
theorem SchedulerInv.card_tokens (h : SchedulerInv s) :
    s.systemScheduler.queued.card ≤ uint32Max := by
  have hmax : s.systemScheduler.maxEntries = s.maxTenants := congrArg Bounds.maxEntries h.bounds
  have hsub : s.systemScheduler.queued.map (·.entryId) ≤ Multiset.range s.maxTenants := by
    apply (Multiset.le_iff_subset h.system.distinct).mpr
    intro id hid
    obtain ⟨q, hq, rfl⟩ := Multiset.mem_map.mp hid
    obtain ⟨f, hf, -⟩ := h.system.tokens q hq
    rw [Multiset.mem_range, ← hmax]
    exact h.system.lt_maxEntries (by rw [hf, Option.isSome_some])
  have hcard := Multiset.card_le_card hsub
  rw [Multiset.card_map, Multiset.card_range] at hcard
  have hlt := s.config.maxTenants.toNat_lt
  have hmaxTenants : s.maxTenants = s.config.maxTenants.toNat := rfl
  unfold uint32Max
  omega

/-- All bins of a calendar can be reached. -/
def Reached (s : Scheduler) : Prop := s.numGroups * s.binsPerGroup ≤ 32768

theorem binsPerGroup_pos (s : Scheduler) : 0 < s.binsPerGroup := by
  unfold Scheduler.binsPerGroup defaultBinsPerGroup
  split_ifs with hzero
  · decide
  · exact Nat.pos_of_ne_zero fun h => hzero (UInt32.toNat_inj.mp h)

theorem Reached.numBins (h : Reached s) : s.grid.numBins = s.numGroups * s.binsPerGroup := by
  have hle : s.numGroups * s.binsPerGroup ≤ uint32Max := by
    have := h
    unfold Reached at this
    unfold uint32Max
    omega
  exact u32_of_le hle

/-- No flag is cleared. -/
def KeepsFlags (s s' : Scheduler) : Prop := ∀ i, Flagged s i → Flagged s' i

/-- No flag is cleared, and flags are set only where `P` holds. -/
structure FlagStep (P : ℕ → Prop) (s s' : Scheduler) : Prop where
  keeps : KeepsFlags s s'
  gains : ∀ i, Flagged s' i → Flagged s i ∨ P i

variable {P Q : ℕ → Prop}

theorem FlagStep.of_tenants (h : s'.tenants = s.tenants) : FlagStep P s s' := by
  have hsame : ∀ i, Flagged s' i ↔ Flagged s i := fun i => by rw [Flagged, h, Flagged]
  exact ⟨fun i => (hsame i).mpr, fun i hi => .inl ((hsame i).mp hi)⟩

theorem FlagStep.trans (h : FlagStep P s s₁) (h' : FlagStep P s₁ s₂) : FlagStep P s s₂ where
  keeps i hi := h'.keeps i (h.keeps i hi)
  gains i hi := by
    rcases h'.gains i hi with hi | hi
    · exact h.gains i hi
    · exact .inr hi

theorem FlagStep.mono (h : FlagStep P s s') (hPQ : ∀ i, P i → Q i) : FlagStep Q s s' :=
  ⟨h.keeps, fun i hi => (h.gains i hi).imp_right (hPQ i)⟩

/-- A slot is written that does not lose its flag, or gets one. -/
theorem FlagStep.update {v : Option Tenant}
    (hkeep : Flagged s i → ∃ t ∈ v, t.hasBacklog = true)
    (hgain : (∃ t ∈ v, t.hasBacklog = true) → Flagged s i ∨ P i)
    (htenants : s'.tenants = Function.update s.tenants i v) : FlagStep P s s' := by
  constructor
  · intro j hj
    rw [Flagged, htenants]
    by_cases hji : j = i
    · subst hji
      rw [Function.update_self]
      exact hkeep hj
    · rw [Function.update_of_ne hji]
      exact hj
  · intro j hj
    rw [Flagged, htenants] at hj
    by_cases hji : j = i
    · subst hji
      rw [Function.update_self] at hj
      exact hgain hj
    · rw [Function.update_of_ne hji] at hj
      exact .inl hj

theorem flagged_some (ht : s.tenants i = some t) : Flagged s i ↔ t.hasBacklog = true := by
  simp [Flagged, ht]

theorem FlagStep.write {u : Tenant} (ht : s.tenants i = some t)
    (htenants : s'.tenants = Function.update s.tenants i (some u))
    (hflag : u.hasBacklog = t.hasBacklog) : FlagStep P s s' := by
  have hsame := flagged_some ht
  rw [← hflag] at hsame
  refine .update (fun hi => ⟨u, rfl, hsame.mp hi⟩) ?_ htenants
  rintro ⟨v, hv, hi⟩
  rw [← Option.some.inj hv] at hi
  exact .inl (hsame.mpr hi)

theorem FlagStep.register (s : Scheduler) (hi : P i) : FlagStep P s (registerTenantBacklog s i).2 := by
  unfold registerTenantBacklog
  cases ht : s.tenants i with
  | none => exact .of_tenants rfl
  | some t =>
    dsimp only
    split_ifs
    · exact .of_tenants rfl
    · exact .update (fun _ => ⟨_, rfl, rfl⟩) (fun _ => .inr hi) rfl
    · exact .of_tenants rfl

/-- Registering succeeds where the token is taken and memory is granted. -/
theorem register_flagged
    (hbounds : s.systemScheduler.bounds = ⟨s.maxTenants, s.totalCapacity, s.grid⟩)
    (hslot : t.tenantId = i) (hlt : i < s.maxTenants) (hmem : s.mem.AlwaysOk)
    (hreached : Reached s) (ht : s.tenants i = some t) (hreg : Registrable s i) :
    Flagged (registerTenantBacklog s i).2 i := by
  by_cases hflag : t.hasBacklog = true
  · exact (FlagStep.register (P := (· = i)) s rfl).keeps i ((flagged_some ht).mpr hflag)
  have hmax : s.systemScheduler.maxEntries = s.maxTenants := congrArg Bounds.maxEntries hbounds
  have hgrid : s.systemScheduler.geometry = s.grid := congrArg Bounds.geometry hbounds
  have hbins : s.systemScheduler.numBins = s.numGroups * s.binsPerGroup :=
    (congrArg Geometry.numBins hgrid).trans hreached.numBins
  have hgroups : s.systemScheduler.numGroups = s.numGroups := congrArg Geometry.numGroups hgrid
  have hper : s.systemScheduler.binsPerGroup = s.binsPerGroup :=
    congrArg Geometry.binsPerGroup hgrid
  obtain ⟨r, hrate, hr, hgroup⟩ := hreg
  have hadm : ∃ e, Admissible s.systemScheduler i tenantQuantumSize e := by
    apply admissible_of_rate (r := r)
    · rw [hbins, hgroups, hper]
    · exact hbins.trans_le hreached
    · exact hper ▸ binsPerGroup_pos s
    · exact hmax ▸ hlt
    · decide
    · exact hrate
    · exact hr
    · exact hgroups ▸ hgroup
  have hok : (groupSchedulerEnqueue s.mem s.systemScheduler t.tenantId tenantQuantumSize
      (some t.ptr) false).status = .success := by
    rw [hslot]
    exact enqueue_success_iff.mpr ⟨hmem 0, hadm⟩
  unfold registerTenantBacklog
  rw [ht]
  dsimp only
  rw [if_neg hflag, if_pos hok]
  exact ⟨_, Function.update_self .., rfl⟩

theorem SchedulerInv.register_flagged (h : SchedulerInv s) (hmem : s.mem.AlwaysOk)
    (hreached : Reached s) (ht : s.tenants i = some t) (hreg : Registrable s i) :
    Flagged (registerTenantBacklog s i).2 i :=
  Hwfq.register_flagged h.bounds (h.tenants i t ht).slot (h.lt_maxTenants ht) hmem hreached ht hreg

/-! ## The parts of a dequeue -/

theorem FlagStep.putBack (s : Scheduler) (i : ℕ) (x : FlowSessionContext) :
    FlagStep P (registerTenantBacklog s i).2 (putBack s i x) := by
  unfold Hwfq.putBack
  dsimp only
  cases ht : (registerTenantBacklog s i).2.tenants i with
  | none => exact .of_tenants rfl
  | some t => exact .write ht rfl rfl

theorem FlagStep.recordWait (s : Scheduler) (i : ℕ) (x : FlowSessionContext) (now : ℕ) :
    FlagStep P s (recordWait s i x now) := by
  unfold Hwfq.recordWait
  cases ht : s.tenants i with
  | none => exact .of_tenants rfl
  | some t =>
    dsimp only
    split_ifs
    · exact .write ht rfl rfl
    · exact .write ht rfl rfl
    · exact .of_tenants rfl

/-- A queue whose counter is not zero is not empty. -/
theorem SchedulerInv.queue_of_busy (h : SchedulerInv s) (ht : s.tenants i = some t)
    (hbusy : ¬ groupSchedulerIsEmpty t.flowScheduler = true) : s.queue i ≠ 0 := by
  intro hzero
  have hflows := (h.tenants i t ht).flows
  have hcount := hflows.group.count
  rw [← hflows.card_contexts, ← queue_some ht, hzero, Multiset.card_zero] at hcount
  apply hbusy
  rw [groupSchedulerIsEmpty, decide_eq_true_eq, hcount]
  unfold u32
  rfl

theorem FlagStep.registerIfBacklogged (h : SchedulerInv s) (i : ℕ) :
    FlagStep (fun j => j = i ∧ s.queue j ≠ 0) s (registerIfBacklogged s i) := by
  unfold Hwfq.registerIfBacklogged
  cases ht : s.tenants i with
  | none => exact .of_tenants rfl
  | some t =>
    dsimp only
    split_ifs with hbusy
    · exact .of_tenants rfl
    · exact .register s ⟨rfl, h.queue_of_busy ht hbusy⟩

/-! ## Calls that take no token -/

theorem addTenant_tenants (s : Scheduler) (a : Option Allocation) (out : Bool) :
    (hwfqAddTenant s a out).1 = .success ∨ (hwfqAddTenant s a out).2.2.tenants = s.tenants := by
  unfold hwfqAddTenant installTenant
  cases a with
  | none => exact .inr rfl
  | some a =>
    dsimp only
    split_ifs
    · exact .inr rfl
    · exact .inr rfl
    · exact .inr rfl
    · exact .inr rfl
    · split
      · exact .inr rfl
      · split
        · exact .inr rfl
        · split
          · exact .inr rfl
          · split
            · exact .inl rfl
            · exact .inr rfl

theorem FlagStep.updateStats (s : Scheduler) (tenantId flowId : ℕ) (f : Stats → Stats) :
    FlagStep P s (updateStats s tenantId flowId f) := by
  unfold Hwfq.updateStats
  split_ifs
  · cases ht : s.tenants tenantId with
    | none => exact .of_tenants rfl
    | some t =>
      dsimp only
      refine .write ht rfl ?_
      split_ifs <;> rfl
  · exact .of_tenants rfl

theorem FlagStep.serveCompleted (h : SchedulerInv s) (i : ℕ) :
    FlagStep (fun j => s.queue j ≠ 0) s (serveCompleted s i).2 := by
  unfold Hwfq.serveCompleted
  split_ifs
  · cases ht : s.tenants i with
    | none => exact .of_tenants rfl
    | some t =>
      dsimp only
      split_ifs with hbusy
      · exact .of_tenants rfl
      · exact .register s (h.queue_of_busy ht hbusy)
  · exact .of_tenants rfl

theorem SchedulerInv.queue_updateStats (h : SchedulerInv s) (tenantId flowId : ℕ)
    (f : Stats → Stats) : (Hwfq.updateStats s tenantId flowId f).queue = s.queue := by
  have hcores := (h.updateStats_changes tenantId flowId f).cores
  rw [queue_of_cores hcores, queueOf_mapStatsAt, queueOf_cores]

/-- A completion gives a token to its tenant when that has queued sessions. -/
theorem SchedulerInv.completed_flags (h : SchedulerInv s) (work : Option Session)
    (tenantId flowId : ℕ) :
    FlagStep (fun j => s.queue j ≠ 0) s (hwfqComplete s work tenantId flowId).2.2 := by
  unfold hwfqComplete
  cases hfind : inFlightLookup s work tenantId flowId with
  | none => exact .of_tenants rfl
  | some found =>
    have htake := h.takeInFlight (inFlightLookup_some h.flight hfind).1
    have hsame : (Hwfq.takeInFlight s found).queue = s.queue := rfl
    have hstart : FlagStep (fun j => s.queue j ≠ 0) s (Hwfq.takeInFlight s found) :=
      .of_tenants rfl
    dsimp only
    generalize Hwfq.takeInFlight s found = s₁ at htake hsame hstart ⊢
    have hdown := (htake.updateStats tenantId flowId Stats.backlogDownIfPositive).1
    have hqueue := htake.queue_updateStats tenantId flowId Stats.backlogDownIfPositive
    have hfirst := hstart.trans (.updateStats s₁ tenantId flowId Stats.backlogDownIfPositive)
    generalize Hwfq.updateStats s₁ tenantId flowId Stats.backlogDownIfPositive = s₂
      at hdown hqueue hfirst ⊢
    rw [hsame] at hqueue
    split_ifs
    · have hadd := (hdown.updateStats tenantId flowId (Stats.addCompletion found.workSize)).1
      have hserve := FlagStep.serveCompleted hadd tenantId
      rw [hdown.queue_updateStats, hqueue] at hserve
      exact (hfirst.trans (.updateStats s₂ tenantId flowId _)).trans hserve
    · have hserve := FlagStep.serveCompleted hdown tenantId
      rw [hqueue] at hserve
      exact hfirst.trans hserve

theorem cancelled_flags (s : Scheduler) (work : Option Session) (tenantId flowId : ℕ) :
    FlagStep P s (hwfqCancel s work tenantId flowId).2.2 := by
  unfold hwfqCancel
  cases inFlightLookup s work tenantId flowId with
  | none => exact .of_tenants rfl
  | some found =>
    have htake : FlagStep P s (takeInFlight s found) := .of_tenants rfl
    exact htake.trans (.updateStats (takeInFlight s found) found.tenantId found.flowId _)

/-- An enqueue that succeeds may give a token to its tenant. -/
theorem enqueue_flags (s : Scheduler) (tenantId flowId : ℕ)
    (work : Option Session) (now : ℕ) :
    FlagStep (fun j => j = tenantId ∧ (hwfqEnqueue s tenantId flowId work now).1 = .success) s
      (hwfqEnqueue s tenantId flowId work now).2.2 := by
  have hoffer : ∀ {s₁ : Scheduler} {t : Tenant} {x : FlowSessionContext},
      s₁.tenants tenantId = some t →
      FlagStep (fun j => j = tenantId ∧ (offerSession s₁ tenantId flowId t x).1 = .success) s₁
        (offerSession s₁ tenantId flowId t x).2.2 := by
    intro s₁ t x ht
    unfold offerSession
    dsimp only
    split_ifs
    · refine FlagStep.trans ?_ (.register _ ⟨rfl, rfl⟩)
      exact .write ht rfl rfl
    · exact .write ht rfl rfl
  have hsame : ∀ P mem, FlagStep P s { s with mem := mem } := fun P mem => .of_tenants rfl
  unfold hwfqEnqueue
  cases work with
  | none => exact .of_tenants rfl
  | some w =>
    dsimp only
    split_ifs
    · exact .of_tenants rfl
    · exact .of_tenants rfl
    · exact .of_tenants rfl
    · cases ht : s.configuredTenant tenantId with
      | none => exact .of_tenants rfl
      | some t =>
        dsimp only
        split_ifs
        · exact .of_tenants rfl
        · split
          · exact .of_tenants rfl
          · rename_i addr mem _
            exact (hsame _ mem).trans (hoffer (configuredTenant_some ht))

/-- Only a dequeue takes a token, and only a tenant with work is given one. -/
theorem SchedulerInv.flagStep (h : SchedulerInv s) {c : Call} (hc : c.asksSession = false) :
    FlagStep (fun j => s.queue j ≠ 0 ∨ ∃ x ∈ accepted s c, x.tenantId = j) s (Hwfq.after s c) := by
  have hflows : ∀ {s' : Scheduler} {i : ℕ} {t : Tenant}
      {flows : GroupScheduler FlowSessionContext} {n : ℕ}, FlowsChange s s' i t flows n →
      ∀ {P}, FlagStep P s s' := fun hch => .write hch.tenant hch.tenants rfl
  cases c with
  | addTenant a out =>
    rcases addTenant_tenants s a out with hok | hsame
    · rcases (h.addTenant a out).2 with ⟨hbad, -⟩ | ⟨a, addr, flows, mem, i, -, -, -, -, -, hadm, -⟩
      · exact absurd hok hbad
      · refine .update ?_ ?_ hadm.tenants
        · rintro ⟨t, ht, -⟩
          rw [hadm.free] at ht
          cases ht
        · rintro ⟨t, ht, hflag⟩
          rw [← Option.some.inj ht] at hflag
          cases hflag
    · exact .of_tenants hsame
  | configureTenant i a =>
    rcases (h.configureTenant i.toNat a).2 with ⟨-, heq⟩ | ⟨a, t, rfl, ht, -, -, heq⟩
    · exact .of_tenants (congrArg Scheduler.tenants heq)
    · have hstate : Hwfq.after s (.configureTenant i (some a)) = reallocated s i.toNat t a :=
        congrArg Prod.snd heq
      rw [hstate]
      exact .write ht rfl rfl
  | removeTenant i =>
    rcases (h.removeTenant i.toNat).2 with ⟨-, heq⟩ | ⟨t, ht, hidle, heq⟩
    · exact .of_tenants (congrArg (fun r => r.2.tenants) heq)
    · have hstate : Hwfq.after s (.removeTenant i) = Hwfq.tenantRemoved s i.toNat t :=
        congrArg (fun r => r.2.2) heq
      rw [hstate]
      refine FlagStep.update (v := none) ?_ ?_ rfl
      · intro hi
        rw [flagged_some ht, hidle] at hi
        cases hi
      · rintro ⟨u, hu, -⟩
        cases hu
  | addFlow i a out =>
    rcases (h.addFlow i.toNat a out).2 with ⟨-, heq⟩ | ⟨a, t, ret, mem, flows, -, ht, -, -, -,
      ⟨e, -, -, -, hch⟩ | ⟨id, flows', -, -, ⟨-, -, hch⟩ | ⟨-, -, hch⟩⟩⟩
    · exact .of_tenants (congrArg (fun r => r.2.tenants) heq)
    · exact hflows hch
    · exact hflows hch
    · exact hflows hch
  | reconfigureFlow i f a =>
    rcases (h.reconfigureFlow i.toNat f.toNat a).2 with ⟨-, heq⟩ | ⟨a, t, -, -, -, -, -, hch⟩
    · exact .of_tenants (congrArg Scheduler.tenants heq)
    · exact hflows hch
  | removeFlow i f =>
    rcases (h.removeFlow i.toNat f.toNat).2 with ⟨-, heq⟩ | ⟨t, entry, -, -, -, -, hch⟩
    · exact .of_tenants (congrArg Scheduler.tenants heq)
    · exact hflows hch
  | enqueue i f work now =>
    refine (enqueue_flags s i.toNat f.toNat work now.toNat).mono ?_
    rintro j ⟨rfl, hok⟩
    cases work with
    | none => cases hok
    | some w =>
      refine .inr ⟨newContext s s.mem.next i.toNat f.toNat w now.toNat, ?_, rfl⟩
      rw [accepted, if_pos]
      · exact Multiset.mem_singleton_self _
      · exact hok
  | dequeue out now =>
    obtain rfl : out = false := hc
    exact .of_tenants rfl
  | complete i f work => exact (h.completed_flags work i.toNat f.toNat).mono fun _ => .inl
  | cancel i f work => exact cancelled_flags s work i.toNat f.toNat
  | checkTimeouts now => exact .of_tenants (h.checkTimeouts now.toNat).2.1.tenants
  | resetStats i f =>
    have hreset := resetStats_reset s i.toNat f.toNat
    have hsame : ∀ j, Flagged (hwfqResetStats s i.toNat f.toNat) j ↔ Flagged s j := by
      intro j
      rcases hreset.tenants j with ⟨hnone, hnone'⟩ | ⟨u, u', hu, hu', hr⟩
      · simp [Flagged, hnone, hnone']
      · rw [flagged_some hu, flagged_some hu']
        exact (congrArg (· = true) (congrArg TenantFace.hasBacklog hr.face)).to_iff
    exact ⟨fun j => (hsame j).mpr, fun j hj => .inl ((hsame j).mp hj)⟩

/-! ## The grid of the flow schedulers -/

/-- The calendar of every tenant has the grid that was set up at the start. -/
def OnGrid (s : Scheduler) : (ℕ → Option Tenant) → Prop :=
  EveryTenant fun t => t.flowScheduler.geometry = s.grid

theorem onGrid (h : Effect s c r s') (hinv : SchedulerInv s) (hs : OnGrid s s.cores) :
    OnGrid s s'.cores := by
  have hat : ∀ {i : ℕ} {t : Tenant}, s.tenants i = some t → t.flowScheduler.geometry = s.grid := by
    intro i t ht
    exact hs i t.core (cores_some ht)
  have hwrite : ∀ {i : ℕ} {t u : Tenant} {cores : ℕ → Option Tenant}, s.tenants i = some t →
      cores = Function.update s.cores i (some u) →
      u.flowScheduler.geometry = t.flowScheduler.geometry → OnGrid s cores := by
    intro i t u cores ht hcores hsame
    rw [hcores]
    apply hs.update
    intro v hv
    rw [← Option.some.inj hv, hsame, hat ht]
  have hstats : ∀ (t : Tenant) (f : ℕ) (g : Stats → Stats),
      (t.mapStats f g).flowScheduler.geometry = t.flowScheduler.geometry := fun t f g =>
    congrArg QueueView.geometry (t.mapStats_queueView f g)
  have hkeep : ∀ (t : Tenant) (f : ℕ) (g : Stats → Stats),
      t.flowScheduler.geometry = s.grid → (t.mapStats f g).flowScheduler.geometry = s.grid :=
    fun t f g ht => (hstats t f g).trans ht
  cases h with
  | idle _ _ tokens => exact tokens.cores ▸ hs
  | added admits valid fits blank store fresh =>
    rw [cores_of_tenants admits.tenants]
    apply hs.update
    intro u hu
    rw [← Option.some.inj hu]
    obtain ⟨mem, entries, -, hinit⟩ := fresh.init
    exact (init_some hinit).2.2.2.2.2.2.2.2.2.2.1
  | reallocated tenant => exact hwrite tenant (setTenant_cores _ _ _) rfl
  | removed tenant =>
    rw [cores_of_tenants (s := s) (v := none) rfl]
    exact hs.update fun u hu => by cases hu
  | flows update change =>
    refine hwrite change.tenant (cores_of_tenants change.tenants) ?_
    exact congrArg QueueView.geometry (update.queueView (hinv.tenants _ _ change.tenant))
  | accepted tenant _ _ _ _ _ changes =>
    refine hwrite tenant changes.cores ?_
    exact (congrArg Bounds.geometry (QueueStep.enqueue _ _ _ _ _ _).bounds).trans (hstats _ _ _)
  | rejected tenant _ _ _ changes =>
    exact hwrite tenant changes.cores ((hstats _ _ _).trans (hstats _ _ _))
  | @missed _ _ i t flows _ _ tenant dequeued _ _ changes =>
    have hstep := QueueStep.dequeue (hinv.tenants i t tenant).flows.group.calendar
    rw [dequeued] at hstep
    exact hwrite tenant changes.cores (congrArg Bounds.geometry hstep.bounds)
  | putBack taken before =>
    have hflows : QueueStep _ _ := (taken.queueStep hinv).trans before.queueStep
    exact hwrite taken.tenant (before.changes_all taken).cores
      (congrArg Bounds.geometry hflows.bounds)
  | @delivered _ i t q x flows t' _ taken delivers =>
    have hstep := (taken.queueStep hinv).trans (QueueStep.update flows x.workSize)
    refine hwrite taken.tenant delivers.cores ?_
    rcases delivers.tenant with rfl | ⟨w, rfl⟩
    · exact congrArg Bounds.geometry hstep.bounds
    · exact (hstats _ _ _).trans (congrArg Bounds.geometry hstep.bounds)
  | completed _ stats ends =>
    rw [ends.cores]
    rcases stats with rfl | rfl
    · exact hs.mapStatsAt hkeep _ _ _
    · exact (hs.mapStatsAt hkeep _ _ _).mapStatsAt hkeep _ _ _
  | cancelled _ ends => exact ends.cores ▸ hs.mapStatsAt hkeep _ _ _
  | timedOut only =>
    have hcores : s'.cores = s.cores := by
      funext j
      rw [Scheduler.cores, only.tenants, Scheduler.cores]
    exact hcores ▸ hs
  | reset reset =>
    intro i u hu
    obtain ⟨t', ht', rfl⟩ := tenants_of_cores hu
    rcases reset.tenants i with ⟨-, hnone⟩ | ⟨t, t'', ht, ht'', hr⟩
    · simp [hnone] at ht'
    · obtain rfl : t'' = t' := by simpa [ht''] using ht'
      have hsame := hat ht
      rw [hr.same]
      exact hsame

theorem grid_of_config (hconf : s'.config = s.config) : s'.grid = s.grid := by
  have hgroups : s'.numGroups = s.numGroups := by rw [Scheduler.numGroups, hconf, Scheduler.numGroups]
  have hbins : s'.binsPerGroup = s.binsPerGroup := by
    rw [Scheduler.binsPerGroup, hconf, Scheduler.binsPerGroup]
  rw [Scheduler.grid, hgroups, hbins, Scheduler.grid]

theorem SchedulerInv.onGrid (h : SchedulerInv s) (hs : OnGrid s s.cores) (c : Call) :
    OnGrid (Hwfq.after s c) (Hwfq.after s c).cores := by
  rw [OnGrid, grid_of_config (h.after_config c)]
  exact Hwfq.onGrid (h.effect c) h hs

end Hwfq
