import Hwfq.SchedulerInvariant

/-!
# The parts of the public calls

The calls of `hwfq_scheduler.c` are put together from a few parts: selection and
put-back of a session, the charge of a flow clock, statistics, tokens and the scan
of the in-flight list. Every part keeps the invariant.
-/
namespace Hwfq

variable {s : Scheduler} {i : ℕ} {t : Tenant}

/-! ## Statistics -/

theorem Tenant.mapStats_face (t : Tenant) (flowId : ℕ) (f : Stats → Stats) :
    (t.mapStats flowId f).face = t.face := rfl

theorem activeEntry_of_findFlowEntry {flowId : ℕ} (h : (findFlowEntry t flowId).isSome = true) :
    (activeEntry t.flowScheduler flowId).isSome = true := by
  rw [activeEntry_eq, Option.isSome_map]
  exact h

theorem Tenant.mapStats_queueView (t : Tenant) (flowId : ℕ) (f : Stats → Stats) :
    (t.mapStats flowId f).flowScheduler.queueView = t.flowScheduler.queueView := by
  simp only [Tenant.mapStats]
  split_ifs
  · rfl
  · rfl

/-- The entries after a change of the statistics of one flow. -/
theorem mapStats_findEntry (t : Tenant) (flowId : ℕ) (f : Stats → Stats) (id : ℕ) :
    groupSchedulerFindEntry (t.mapStats flowId f).flowScheduler id =
      (groupSchedulerFindEntry t.flowScheduler id).map fun e =>
        if id = flowId then { e with stats := f e.stats } else e := by
  unfold Tenant.mapStats findFlowEntry
  dsimp only
  by_cases hid : id = flowId
  · subst hid
    unfold groupSchedulerFindEntry GroupScheduler.writeEntry
    cases hget : hwfqChunkedGet t.flowScheduler.entries id with
    | none => simp [hget]
    | some e => cases hconf : e.configured <;> simp [get_write, hget, hconf, Option.filter_some]
  · simp only [if_neg hid]
    rw [Option.map_id']
    split_ifs
    · exact congrArg (Option.filter (·.configured))
        (get_write_of_ne hid fun e => { e with stats := f e.stats })
    · rfl

theorem TenantInv.mapStats {mem : Allocator} (h : TenantInv mem i t) (flowId : ℕ)
    (f : Stats → Stats) : TenantInv mem i (t.mapStats flowId f) where
  slot := h.slot
  configured := h.configured
  flows := by
    simp only [Tenant.mapStats]
    split_ifs with hfind
    · exact h.flows.writeStats (activeEntry_of_findFlowEntry hfind) f
    · exact h.flows

theorem SchedulerInv.updateStats (h : SchedulerInv s) (tenantId flowId : ℕ) (f : Stats → Stats) :
    SchedulerInv (updateStats s tenantId flowId f) ∧
      ((s.tenants tenantId = none ∧ updateStats s tenantId flowId f = s) ∨
        ∃ t, s.tenants tenantId = some t ∧
          updateStats s tenantId flowId f = s.setTenant tenantId (t.mapStats flowId f)) := by
  unfold Hwfq.updateStats
  cases ht : s.tenants tenantId with
  | none =>
    split_ifs
    · exact ⟨h, .inl ⟨rfl, rfl⟩⟩
    · exact ⟨h, .inl ⟨rfl, rfl⟩⟩
  | some t =>
    rw [if_pos (h.lt_maxTenants ht)]
    dsimp only
    rw [if_pos (h.tenants _ t ht).configured]
    exact ⟨h.withTenant ht (t.mapStats_face flowId f) ((h.tenants _ t ht).mapStats flowId f),
      .inr ⟨t, rfl, rfl⟩⟩

/-! ## Selection -/

/-- The state after a token was taken for tenant `t` in slot `i` and a session was
asked of it. -/
def afterSelect (s : Scheduler) (system : GroupScheduler TenantPtr) (i : ℕ) (t : Tenant)
    (flows : GroupScheduler FlowSessionContext) : Scheduler :=
  { s with systemScheduler := groupSchedulerUpdateVirtualTime system tenantQuantumSize }.setTenant i
    { t with hasBacklog := false, tenantSession := none, flowScheduler := flows }

theorem afterSelect_changes (s : Scheduler) (system : GroupScheduler TenantPtr) (i : ℕ) (t : Tenant)
    (flows : GroupScheduler FlowSessionContext) :
    Changes s (afterSelect s system i t flows)
      (Function.update s.cores i (some { t.core with flowScheduler := flows })) :=
  ⟨setTenant_cores _ i _, le_rfl, id, rfl, rfl, rfl, rfl, rfl, rfl, rfl, rfl⟩

/-- All outcomes of the first half of `hwfq_dequeue`: no token can be taken, or a
tenant is asked for a session and has none to give, or it gives one. -/
theorem SchedulerInv.select (h : SchedulerInv s) :
    (∃ system, groupSchedulerDequeue s.systemScheduler = (none, system) ∧
        dequeueSelect s = (.refused .noWork, { s with systemScheduler := system }) ∧
        SchedulerInv { s with systemScheduler := system }) ∨
      ∃ token system t flows, groupSchedulerDequeue s.systemScheduler = (some token, system) ∧
        s.tenants token.entryId = some t ∧ t.hasBacklog = true ∧
        SchedulerInv (afterSelect s system token.entryId t flows) ∧
        ((groupSchedulerDequeue t.flowScheduler = (none, flows) ∧
            dequeueSelect s = (.refused .internal, afterSelect s system token.entryId t flows)) ∨
          ∃ q c, groupSchedulerDequeue t.flowScheduler = (some q, flows) ∧
            Carries token.entryId q c ∧
            dequeueSelect s =
              (.selected token.entryId c, afterSelect s system token.entryId t flows)) := by
  unfold dequeueSelect
  by_cases hempty : groupSchedulerIsEmpty s.systemScheduler = true
  · rw [if_pos hempty]
    refine .inl ⟨s.systemScheduler, ?_, rfl, h⟩
    rw [groupSchedulerDequeue, if_pos (by simpa [groupSchedulerIsEmpty] using hempty)]
  rw [if_neg hempty]
  have hledger := dequeue_ledger s.systemScheduler
  have hgeo := dequeue_geometry h.system.group.calendar
  cases hd : groupSchedulerDequeue s.systemScheduler with
  | mk token system =>
    rw [hd] at hledger hgeo
    have hbounds := GroupScheduler.bounds_of_ledger hledger hgeo
    have hrate : system.allocatedRateCapacity = s.systemScheduler.allocatedRateCapacity :=
      congrArg Ledger.allocatedRateCapacity hledger
    cases token with
    | none => exact .inl ⟨system, rfl, rfl, h.withSystem le_rfl (h.system.miss hd) hbounds hrate⟩
    | some token =>
      obtain ⟨f, hface, hbacklog, hdata, hwork, hsystem⟩ := h.system.take hd
      obtain ⟨t, ht, rfl⟩ : ∃ t, s.tenants token.entryId = some t ∧ t.face = f :=
        Option.map_eq_some_iff.mp hface
      have hinv := h.tenants token.entryId t ht
      have hat : token.userData.bind
          ({ s with systemScheduler := system } : Scheduler).tenantAt = some t := by
        rw [hdata]
        simp [Scheduler.tenantAt, ht, Tenant.face]
      have hupdate := hsystem.update tenantQuantumSize
      have hboundsUpdate := (updateVirtualTime_bounds system tenantQuantumSize).trans hbounds
      have hrateUpdate :=
        (updateVirtualTime_totals system tenantQuantumSize).2.2.1.trans hrate
      have hslot := hinv.slot
      dsimp only
      rw [hat]
      dsimp only
      rw [hwork]
      rw [← hslot] at ht hinv hupdate
      cases hf : groupSchedulerDequeue t.flowScheduler with
      | mk q flows =>
        refine .inr ⟨token, system, t, flows, rfl, hslot ▸ ht, hbacklog, ?_⟩
        rw [← hslot]
        cases q with
        | none =>
          exact ⟨h.withToken ht le_rfl hupdate hboundsUpdate hrateUpdate
            ⟨hinv.slot, hinv.configured, (hinv.flows.miss hf).1⟩, .inl ⟨hf, rfl⟩⟩
        | some q =>
          obtain ⟨hflows, c, hc, -⟩ := hinv.flows.take hf
          refine ⟨h.withToken ht le_rfl hupdate hboundsUpdate hrateUpdate
            ⟨hinv.slot, hinv.configured, hflows⟩,
            .inr ⟨q, c, hf, hc, ?_⟩⟩
          simp only [Option.bind_some, hc.data]
          rfl

/-! ## Put-back, charge and tokens -/

/-- What the flow scheduler of a tenant answers to the put-back of a session: the
token is registered first and may use up memory. -/
def putBackResult (s : Scheduler) (i : ℕ) (t : Tenant) (c : FlowSessionContext) :
    EnqueueResult FlowSessionContext :=
  groupSchedulerEnqueue (registerTenantBacklog s i).2.mem t.flowScheduler c.flowId c.workSize
    (some c) true

theorem SchedulerInv.putBack (h : SchedulerInv s) (ht : s.tenants i = some t)
    {c : FlowSessionContext} (htenant : c.tenantId = i)
    (hfits : 0 < c.workSize ∧ c.workSize ≤ uint64Max) :
    SchedulerInv (putBack s i c) ∧
      Changes s (putBack s i c)
        (Function.update s.cores i
          (some { t.core with flowScheduler := (putBackResult s i t c).gs })) := by
  obtain ⟨hreg, htok⟩ := h.register i
  obtain ⟨t₁, ht₁, hcore⟩ := tenants_of_cores ((congrFun htok.cores i).trans (cores_some ht))
  have hflows : t₁.core.flowScheduler = t.core.flowScheduler :=
    congrArg Tenant.flowScheduler hcore
  change t₁.flowScheduler = t.flowScheduler at hflows
  have hinv := hreg.tenants i t₁ ht₁
  unfold Hwfq.putBack putBackResult
  generalize (registerTenantBacklog s i).2 = s₁ at hreg htok ht₁ hinv ⊢
  dsimp only
  rw [ht₁]
  dsimp only
  rw [← hflows]
  have henq := hinv.flows.enqueue htenant rfl rfl hfits
  have hnext := enqueue_next_le s₁.mem t₁.flowScheduler c.flowId c.workSize (some c) true
  refine ⟨(hreg.withMem hnext).withTenant ht₁ rfl ⟨hinv.slot, hinv.configured, henq.1⟩,
    htok.trans ⟨?_, hnext, fun hs => enqueue_granted hs _ _ _ _ _, rfl, rfl, rfl, rfl, rfl, rfl,
      rfl, rfl⟩⟩
  rw [setTenant_cores, ← hcore, ← htok.cores]
  rfl

theorem SchedulerInv.chargeFlow (h : SchedulerInv s) (ht : s.tenants i = some t) (w : ℕ) :
    chargeFlow s i w = s.setTenant i
        { t with flowScheduler := groupSchedulerUpdateVirtualTime t.flowScheduler w } ∧
      SchedulerInv (chargeFlow s i w) := by
  have heq : Hwfq.chargeFlow s i w = s.setTenant i
      { t with flowScheduler := groupSchedulerUpdateVirtualTime t.flowScheduler w } := by
    unfold Hwfq.chargeFlow
    rw [ht]
  have hinv := h.tenants i t ht
  exact ⟨heq, heq ▸ h.withTenant ht rfl ⟨hinv.slot, hinv.configured, hinv.flows.update w⟩⟩

theorem SchedulerInv.recordWait (h : SchedulerInv s) (ht : s.tenants i = some t)
    (c : FlowSessionContext) (now : ℕ) :
    SchedulerInv (recordWait s i c now) ∧
      (recordWait s i c now = s ∨
        ∃ w, recordWait s i c now = s.setTenant i (t.mapStats c.flowId (Stats.addWait w))) := by
  unfold Hwfq.recordWait
  rw [ht]
  dsimp only
  split_ifs
  · exact ⟨h.withTenant ht (t.mapStats_face _ _) ((h.tenants i t ht).mapStats _ _), .inr ⟨_, rfl⟩⟩
  · exact ⟨h.withTenant ht (t.mapStats_face _ _) ((h.tenants i t ht).mapStats _ _), .inr ⟨_, rfl⟩⟩
  · exact ⟨h, .inl rfl⟩

theorem SchedulerInv.registerIfBacklogged (h : SchedulerInv s) (i : ℕ) :
    SchedulerInv (registerIfBacklogged s i) ∧ TokensOnly s (registerIfBacklogged s i) := by
  unfold Hwfq.registerIfBacklogged
  cases s.tenants i with
  | none => exact ⟨h, Changes.refl s⟩
  | some t =>
    dsimp only
    split_ifs
    · exact ⟨h, Changes.refl s⟩
    · exact h.register i

theorem SchedulerInv.serveCompleted (h : SchedulerInv s) (i : ℕ) :
    SchedulerInv (serveCompleted s i).2 ∧ TokensOnly s (serveCompleted s i).2 := by
  unfold Hwfq.serveCompleted
  split_ifs
  · cases s.tenants i with
    | none => exact ⟨h, Changes.refl s⟩
    | some t =>
      dsimp only
      split_ifs
      · exact ⟨h, Changes.refl s⟩
      · exact h.register i
  · exact ⟨h, Changes.refl s⟩

/-! ## The scan for timeouts -/

/-- The scan over a part `l` of the in-flight list, with the entries found before. -/
theorem SchedulerInv.scan (h : SchedulerInv s) (now : ℕ) (l found : List InFlightEntry)
    (hl : l.Nodup) (hsub : ∀ e ∈ l, e ∈ s.inFlight) :
    let r := l.foldl
      (fun (timedOutList, s) entry =>
        if isTimedOut now entry then (entry :: timedOutList, Hwfq.takeInFlight s entry)
        else (timedOutList, s)) (found, s)
    SchedulerInv r.2 ∧ FlightOnly s r.2 ∧ r.1 = (l.filter (isTimedOut now)).reverse ++ found ∧
      s.inFlight.Perm (l.filter (isTimedOut now) ++ r.2.inFlight) := by
  induction l generalizing s found with
  | nil => exact ⟨h, .refl s, rfl, .refl _⟩
  | cons e l ih =>
    obtain ⟨hnot, hl⟩ := List.nodup_cons.mp hl
    rw [List.foldl_cons]
    by_cases hout : isTimedOut now e = true
    · have he := hsub e List.mem_cons_self
      simp only [hout, if_true]
      obtain ⟨hinv, honly, hlist, hperm⟩ := ih (h.takeInFlight he) (e :: found) hl fun e' he' =>
        (mem_inFlightRemove h.flight he).mpr
          ⟨hsub e' (List.mem_cons_of_mem e he'), fun heq => hnot (heq ▸ he')⟩
      refine ⟨hinv, (takeInFlight_flightOnly s e).trans honly, ?_, ?_⟩
      · rw [hlist, List.filter_cons_of_pos hout]
        simp
      · rw [List.filter_cons_of_pos hout]
        exact (inFlightRemove_perm h.flight he).trans (hperm.cons e)
    · simp only [hout]
      obtain ⟨hinv, honly, hlist, hperm⟩ := ih h found hl fun e' he' =>
        hsub e' (List.mem_cons_of_mem e he')
      rw [List.filter_cons_of_neg hout]
      exact ⟨hinv, honly, hlist, hperm⟩

theorem SchedulerInv.scanTimeouts (h : SchedulerInv s) (now : ℕ) :
    SchedulerInv (scanTimeouts s now).2 ∧ FlightOnly s (scanTimeouts s now).2 ∧
      (scanTimeouts s now).1 = (s.inFlight.filter (isTimedOut now)).reverse ∧
      s.inFlight.Perm (s.inFlight.filter (isTimedOut now) ++ (scanTimeouts s now).2.inFlight) := by
  obtain ⟨hinv, honly, hlist, hperm⟩ :=
    h.scan now s.inFlight [] h.flight.addrs.of_map fun _ he => he
  exact ⟨hinv, honly, hlist.trans (List.append_nil _), hperm⟩

end Hwfq
