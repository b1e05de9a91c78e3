import Hwfq.SchedulerParts

/-!
# Enqueue, dequeue and the ends of a session

One lemma for each call of `hwfq_scheduler.c` says all of its outcomes: what it
returns, which tenant it changes and how, and that the invariant lives on.
-/
namespace Hwfq

variable {s : Scheduler}

/-! ## Enqueue -/

/-- What the flow scheduler of tenant `t` answers to a new session with context `c`. -/
def offerResult (mem : Allocator) (t : Tenant) (c : FlowSessionContext) :
    EnqueueResult FlowSessionContext :=
  groupSchedulerEnqueue mem (t.mapStats c.flowId Stats.backlogUp).flowScheduler c.flowId
    c.workSize (some c) true

/-- A session that is offered to a flow scheduler is accepted, or only the backlog
counters go up and down. -/
theorem SchedulerInv.offer (h : SchedulerInv s) {i : ℕ} {t : Tenant} {c : FlowSessionContext}
    (ht : s.tenants i = some t) (htenant : c.tenantId = i)
    (hfits : 0 < c.workSize ∧ c.workSize ≤ uint64Max) :
    SchedulerInv (offerSession s i c.flowId t c).2.2 ∧
      (offerSession s i c.flowId t c).1 = (offerResult s.mem t c).status ∧
      (((offerResult s.mem t c).status = .success ∧
          Changes s (offerSession s i c.flowId t c).2.2 (Function.update s.cores i
            (some { t.core.mapStats c.flowId Stats.backlogUp with
              flowScheduler := (offerResult s.mem t c).gs }))) ∨
        ((offerResult s.mem t c).status ≠ .success ∧
          Changes s (offerSession s i c.flowId t c).2.2 (Function.update s.cores i
            (some ((t.core.mapStats c.flowId Stats.backlogUp).mapStats c.flowId
              Stats.backlogDown))))) := by
  have hinv := (h.tenants i t ht).mapStats c.flowId Stats.backlogUp
  have hnext := enqueue_next_le s.mem (t.mapStats c.flowId Stats.backlogUp).flowScheduler c.flowId
    c.workSize (some c) true
  have hgrant := fun hs : s.mem.AlwaysOk => enqueue_granted hs
    (t.mapStats c.flowId Stats.backlogUp).flowScheduler c.flowId c.workSize (some c) true
  have henq := hinv.flows.enqueue htenant rfl rfl hfits
  unfold offerSession
  dsimp only
  rw [← offerResult] at hnext hgrant henq ⊢
  generalize offerResult s.mem t c = r at hnext hgrant henq ⊢
  have hmem := withMem_tokensOnly s hnext hgrant
  have hwith := h.withMem hnext
  split_ifs with hsuccess
  · have htaken : TenantInv r.mem i
        { t.mapStats c.flowId Stats.backlogUp with flowScheduler := r.gs } :=
      ⟨hinv.slot, hinv.configured, henq.1⟩
    have hsame : ({ t.mapStats c.flowId Stats.backlogUp with flowScheduler := r.gs } : Tenant).face =
        t.face := rfl
    have hset := hwith.withTenant ht hsame htaken
    obtain ⟨hreg, htok⟩ := hset.register i
    exact ⟨hreg, hsuccess.symm, .inl ⟨hsuccess,
      Changes.tokens (hmem.trans (setTenant_changes { s with mem := r.mem } i _)) htok⟩⟩
  · obtain ⟨-, ⟨hgood, -⟩ | ⟨-, hgs⟩⟩ := henq
    · exact absurd hgood hsuccess
    rw [hgs]
    exact ⟨hwith.withTenant ht rfl ((hinv.weaken hnext).mapStats c.flowId Stats.backlogDown), rfl,
      .inr ⟨hsuccess, hmem.trans (setTenant_changes { s with mem := r.mem } i _)⟩⟩

/-- An enqueue that reaches the flow scheduler of tenant `t` with the new context `c`,
in the state `s₁` after `c` was allocated. -/
structure Offered (s : Scheduler) (tenantId flowId : ℕ) (work : Option Session) (now : ℕ)
    (s₁ : Scheduler) (t : Tenant) (c : FlowSessionContext) : Prop where
  tenant : s.tenants tenantId = some t
  flow : (findFlowEntry t flowId).isSome = true
  work : ∃ w, work = some w ∧ w.workSize ≠ 0 ∧
    c = newContext s s.mem.next tenantId flowId w now
  allocated : TokensOnly s s₁
  tenants : s₁.tenants = s.tenants
  created : s₁.mem.next = s.mem.next + 1

theorem Offered.context {tenantId flowId now : ℕ} {work : Option Session} {s₁ : Scheduler}
    {t : Tenant} {c : FlowSessionContext} (h : Offered s tenantId flowId work now s₁ t c) :
    c.tenantId = tenantId ∧ c.flowId = flowId ∧ 0 < c.workSize ∧ c.workSize ≤ uint64Max := by
  obtain ⟨w, -, hpos, rfl⟩ := h.work
  have hlt := w.workSize.toNat_lt
  refine ⟨rfl, rfl, Nat.pos_of_ne_zero fun hzero => hpos (UInt64.toNat_inj.mp hzero), ?_⟩
  simp only [newContext]
  unfold uint64Max
  omega

/-- All outcomes of `hwfq_enqueue`. -/
theorem SchedulerInv.enqueue (h : SchedulerInv s) (tenantId flowId : ℕ) (work : Option Session)
    (now : ℕ) :
    (SchedulerInv (hwfqEnqueue s tenantId flowId work now).2.2 ∧
      (hwfqEnqueue s tenantId flowId work now).1 ≠ .success ∧
      TokensOnly s (hwfqEnqueue s tenantId flowId work now).2.2) ∨
    ∃ s₁ t c, SchedulerInv s₁ ∧ Offered s tenantId flowId work now s₁ t c ∧
      hwfqEnqueue s tenantId flowId work now = offerSession s₁ tenantId c.flowId t c := by
  unfold hwfqEnqueue
  cases work with
  | none => exact .inl ⟨h, by simp, Changes.refl s⟩
  | some w =>
    dsimp only
    split_ifs with hsize hslot hreserved
    · exact .inl ⟨h, by simp, Changes.refl s⟩
    · exact .inl ⟨h, by simp, Changes.refl s⟩
    · exact .inl ⟨h, by simp, Changes.refl s⟩
    cases ht : s.configuredTenant tenantId with
    | none => exact .inl ⟨h, by simp, Changes.refl s⟩
    | some t =>
      dsimp only
      split_ifs with hflow
      · exact .inl ⟨h, by simp, Changes.refl s⟩
      have hnext := hwfqAlloc_next_le s.mem 1
      have hok := fun hs : s.mem.AlwaysOk => hs.alloc 1
      cases halloc : hwfqAlloc s.mem 1 with
      | mk p mem =>
        rw [halloc] at hnext hok
        have hmem := withMem_tokensOnly s hnext hok
        cases p with
        | none => exact .inl ⟨h.withMem hnext, by simp, hmem⟩
        | some addr =>
          obtain ⟨rfl, hsucc⟩ := hwfqAlloc_some halloc
          exact .inr ⟨_, t, newContext s s.mem.next tenantId flowId w now, h.withMem hnext,
            ⟨configuredTenant_some ht, by simpa [Option.isSome_iff_ne_none] using hflow,
              ⟨w, rfl, hsize, rfl⟩, hmem, rfl, hsucc⟩, rfl⟩

/-! ## Dequeue -/

/-- Dequeue takes the session `q` with context `c` from the flow scheduler of tenant `t`. -/
structure Taken (s : Scheduler) (i : ℕ) (t : Tenant) (q : SessionState FlowSessionContext)
    (c : FlowSessionContext) (flows : GroupScheduler FlowSessionContext) : Prop where
  tenant : s.tenants i = some t
  dequeued : groupSchedulerDequeue t.flowScheduler = (some q, flows)
  carries : Carries i q c
  selected : (dequeueSelect s).1 = .selected i c

/-- The state and the session that a dequeue puts back, if it puts one back. -/
def putBackPoint (s : Scheduler) : Option (Scheduler × ℕ × FlowSessionContext) :=
  match dequeueSelect s with
  | (.refused _, _) => none
  | (.selected id context, s) =>
      if overCapacity s context then some (s, id, context)
      else
        let s := chargeFlow s id context.workSize
        match hwfqAlloc s.mem 1 with
        | (none, mem) => some ({ s with mem := mem }, id, context)
        | (some _, _) => none

/-- What a dequeue that puts its session back has changed before it does so. -/
structure PutBack (s s₁ : Scheduler) (i : ℕ) (t t₁ : Tenant) (c : FlowSessionContext)
    (flows : GroupScheduler FlowSessionContext) : Prop where
  point : putBackPoint s = some (s₁, i, c)
  inv : SchedulerInv s₁
  tenant : s₁.tenants i = some t₁
  flows : t₁.flowScheduler = flows ∨
    t₁.flowScheduler = groupSchedulerUpdateVirtualTime flows c.workSize
  core : t₁.core = { t.core with flowScheduler := t₁.flowScheduler }
  changes : Changes s s₁ (Function.update s.cores i (some t₁.core))

/-- What a dequeue that delivers a session of tenant `t` has changed. -/
structure Delivers (s s' : Scheduler) (i : ℕ) (t t' : Tenant) (c : FlowSessionContext)
    (flows : GroupScheduler FlowSessionContext) (now : ℕ) : Prop where
  fits : overCapacity s c = false
  point : putBackPoint s = none
  tenant : t' = { t.core with flowScheduler := groupSchedulerUpdateVirtualTime flows c.workSize } ∨
    ∃ w, t' = Tenant.mapStats
      { t.core with flowScheduler := groupSchedulerUpdateVirtualTime flows c.workSize }
      c.flowId (Stats.addWait w)
  cores : s'.cores = Function.update s.cores i (some t')
  inFlight : ∃ addr, s.mem.next ≤ addr ∧
    s'.inFlight = (inFlightInsert s (newInFlightEntry c addr now)).inFlight ∧
    s'.inFlightHash = (inFlightInsert s (newInFlightEntry c addr now)).inFlightHash
  next : s.mem.next ≤ s'.mem.next
  granted : s.mem.AlwaysOk → s'.mem.AlwaysOk
  config : s'.config = s.config
  numConfiguredTenants : s'.numConfiguredTenants = s.numConfiguredTenants
  totalActiveFlows : s'.totalActiveFlows = s.totalActiveFlows
  allocatedRateCapacity : s'.allocatedRateCapacity = s.allocatedRateCapacity

/-- The end of a delivery keeps the invariant and touches nothing but the in-flight table,
the wait statistics and the tokens. -/
theorem SchedulerInv.deliver (h : SchedulerInv s) {i : ℕ} {t : Tenant} {c : FlowSessionContext}
    (ht : s.tenants i = some t) (hfits : c.workSize ≤ uint64Max) {mem : Allocator}
    (hmem : mem.next = s.mem.next + 1) (now : ℕ) :
    let s' := (deliverSession { s with mem := mem } i c s.mem.next now).2.2
    let s₂ := Hwfq.addInFlight { s with mem := mem } (newInFlightEntry c s.mem.next now)
    SchedulerInv s' ∧ ∃ t', (t' = t ∨ ∃ w, t' = t.mapStats c.flowId (Stats.addWait w)) ∧
      Changes s₂ s' (Function.update s.cores i (some t'.core)) := by
  have haddr : (newInFlightEntry c s.mem.next now).addr = s.mem.next := rfl
  have hadd := h.addInFlight haddr hfits hmem
  unfold deliverSession
  dsimp only
  have hcores : (Hwfq.addInFlight { s with mem := mem } (newInFlightEntry c s.mem.next now)).cores =
      s.cores := rfl
  have ht₂ : (Hwfq.addInFlight { s with mem := mem } (newInFlightEntry c s.mem.next now)).tenants i =
      some t := ht
  rw [← hcores]
  generalize Hwfq.addInFlight { s with mem := mem } (newInFlightEntry c s.mem.next now) = s₂ at hadd ht₂ ⊢
  obtain ⟨hwait, hcase⟩ := hadd.recordWait ht₂ c now
  obtain ⟨hreg, htok⟩ := hwait.registerIfBacklogged i
  refine ⟨hreg, ?_⟩
  rcases hcase with heq | ⟨w, heq⟩
  · refine ⟨t, .inl rfl, ?_⟩
    rw [heq] at htok ⊢
    rwa [Function.update_eq_self_iff.mpr (cores_some ht₂).symm]
  · refine ⟨t.mapStats c.flowId (Stats.addWait w), .inr ⟨w, rfl⟩, ?_⟩
    rw [heq] at htok ⊢
    exact Changes.tokens (setTenant_changes s₂ i _) htok

/-- Everything one `hwfq_dequeue` can do: it selects nothing, or a tenant has nothing to
give, or it puts its choice back, or it delivers it. -/
inductive DequeueEffect (s : Scheduler) (workOut : Bool) (now : ℕ) :
    Status → Option Delivery → Scheduler → Prop
  | refused {status : Status} {s' : Scheduler} (failed : status ≠ .success)
      (point : workOut = true → putBackPoint s = none) (changes : TokensOnly s s') :
      DequeueEffect s workOut now status none s'
  | missed {status : Status} {i : ℕ} {t : Tenant} {flows : GroupScheduler FlowSessionContext}
      {s' : Scheduler} (failed : status ≠ .success)
      (point : workOut = true → putBackPoint s = none) (tenant : s.tenants i = some t)
      (dequeued : groupSchedulerDequeue t.flowScheduler = (none, flows))
      (changes : Changes s s'
        (Function.update s.cores i (some { t.core with flowScheduler := flows }))) :
      DequeueEffect s workOut now status none s'
  | putBack {status : Status} {i : ℕ} {t t₁ : Tenant} {q : SessionState FlowSessionContext}
      {c : FlowSessionContext} {flows : GroupScheduler FlowSessionContext} {s₁ : Scheduler}
      (failed : status ≠ .success) (asked : workOut = true) (taken : Taken s i t q c flows)
      (back : PutBack s s₁ i t t₁ c flows) :
      DequeueEffect s workOut now status none (Hwfq.putBack s₁ i c)
  | delivered {i : ℕ} {t t' : Tenant} {q : SessionState FlowSessionContext}
      {c : FlowSessionContext} {flows : GroupScheduler FlowSessionContext} {s' : Scheduler}
      (asked : workOut = true) (taken : Taken s i t q c flows)
      (delivers : Delivers s s' i t t' c flows now) :
      DequeueEffect s workOut now .success
        (some ⟨c.tenantId, c.flowId, c.userData, c.workSize, c.enqueueTimeNs⟩) s'

/-- A dequeue has chosen the session `q` with context `c` and stands at `s₁`. -/
structure Selected (s s₁ : Scheduler) (i : ℕ) (t : Tenant) (q : SessionState FlowSessionContext)
    (c : FlowSessionContext) (flows : GroupScheduler FlowSessionContext) : Prop where
  choice : dequeueSelect s = (.selected i c, s₁)
  taken : Taken s i t q c flows
  inv : SchedulerInv s₁
  tenant : s₁.tenants i =
    some { t with hasBacklog := false, tenantSession := none, flowScheduler := flows }
  changes : Changes s s₁ (Function.update s.cores i (some { t.core with flowScheduler := flows }))
  capacity : overCapacity s₁ c = overCapacity s c

section
variable {s₁ : Scheduler} {i : ℕ} {t : Tenant} {q : SessionState FlowSessionContext}
  {c : FlowSessionContext} {flows : GroupScheduler FlowSessionContext}

theorem putBackPoint_refused {status : Status} (h : dequeueSelect s = (.refused status, s₁)) :
    putBackPoint s = none := by
  rw [putBackPoint, h]

theorem dequeue_refused {status : Status} (h : dequeueSelect s = (.refused status, s₁)) (now : ℕ) :
    hwfqDequeue s true now = (status, none, s₁) := by
  rw [hwfqDequeue, h]
  rfl

theorem Selected.of_select {system : GroupScheduler TenantPtr} (ht : s.tenants i = some t)
    (hd : groupSchedulerDequeue t.flowScheduler = (some q, flows)) (hcar : Carries i q c)
    (hselect : dequeueSelect s = (.selected i c, afterSelect s system i t flows))
    (hinv : SchedulerInv (afterSelect s system i t flows)) :
    Selected s (afterSelect s system i t flows) i t q c flows := by
  constructor
  · exact hselect
  · exact ⟨ht, hd, hcar, by rw [hselect]⟩
  · exact hinv
  · exact Function.update_self ..
  · exact afterSelect_changes s system i t flows
  · rfl

theorem Selected.putBackPoint_eq (h : Selected s s₁ i t q c flows) :
    putBackPoint s = if overCapacity s₁ c then some (s₁, i, c) else
      match hwfqAlloc (chargeFlow s₁ i c.workSize).mem 1 with
      | (none, mem) => some ({ chargeFlow s₁ i c.workSize with mem := mem }, i, c)
      | (some _, _) => none := by
  rw [putBackPoint, h.choice]

theorem Selected.dequeue_eq (h : Selected s s₁ i t q c flows) (now : ℕ) :
    hwfqDequeue s true now = if overCapacity s₁ c then (.noWork, none, putBack s₁ i c) else
      match hwfqAlloc (chargeFlow s₁ i c.workSize).mem 1 with
      | (none, mem) =>
          (.noMemory, none, putBack { chargeFlow s₁ i c.workSize with mem := mem } i c)
      | (some addr, mem) =>
          deliverSession { chargeFlow s₁ i c.workSize with mem := mem } i c addr now := by
  rw [hwfqDequeue, h.choice]
  rfl

/-- The flow scheduler pays for the choice before the in-flight entry is allocated. -/
theorem Selected.charge (h : Selected s s₁ i t q c flows) :
    SchedulerInv (chargeFlow s₁ i c.workSize) ∧
      (chargeFlow s₁ i c.workSize).tenants i = some { t with
        hasBacklog := false, tenantSession := none,
        flowScheduler := groupSchedulerUpdateVirtualTime flows c.workSize } ∧
      Changes s (chargeFlow s₁ i c.workSize) (Function.update s.cores i
        (some { t.core with
          flowScheduler := groupSchedulerUpdateVirtualTime flows c.workSize })) := by
  obtain ⟨hcharge, hinv⟩ := h.inv.chargeFlow h.tenant c.workSize
  constructor
  · exact hinv
  · rw [hcharge]
    constructor
    · exact Function.update_self ..
    · exact h.changes.setTenant _

/-- What a delivery has changed since the call began, when its end starts at `s₂`. -/
theorem SchedulerInv.delivers {s₂ : Scheduler} (h : SchedulerInv s₂)
    (ht : s₂.tenants i = some { t with
      hasBacklog := false, tenantSession := none,
      flowScheduler := groupSchedulerUpdateVirtualTime flows c.workSize })
    (hchanges : Changes s s₂ (Function.update s.cores i
      (some { t.core with flowScheduler := groupSchedulerUpdateVirtualTime flows c.workSize })))
    (hfits : overCapacity s c = false) (hpoint : putBackPoint s = none)
    (hsize : c.workSize ≤ uint64Max) {mem : Allocator} (hmem : mem.next = s₂.mem.next + 1)
    (hok : s₂.mem.AlwaysOk → mem.AlwaysOk) (now : ℕ) :
    let s' := (deliverSession { s₂ with mem := mem } i c s₂.mem.next now).2.2
    SchedulerInv s' ∧ ∃ t', Delivers s s' i t t' c flows now := by
  obtain ⟨hinv, t', ht', hdelivered⟩ := h.deliver ht hsize hmem now
  have hnext : s₂.mem.next ≤ mem.next := by rw [hmem]; exact Nat.le_succ _
  have hlist := hdelivered.inFlight
  have hhash := hdelivered.inFlightHash
  refine ⟨hinv, t'.core, ?_⟩
  constructor
  · exact hfits
  · exact hpoint
  · rcases ht' with rfl | ⟨w, rfl⟩
    · exact .inl rfl
    · exact .inr ⟨w, rfl⟩
  · rw [hdelivered.cores, hchanges.cores, Function.update_idem]
  · refine ⟨s₂.mem.next, hchanges.next, ?_, ?_⟩
    · rw [hlist]
      exact congrArg (· ++ _) hchanges.inFlight
    · rw [hhash]
      simp only [Hwfq.addInFlight, inFlightInsert, hchanges.inFlightHash]
  · exact (hchanges.next.trans hnext).trans hdelivered.next
  · exact fun hs => hdelivered.granted (hok (hchanges.granted hs))
  · exact hdelivered.config.trans hchanges.config
  · exact hdelivered.numConfiguredTenants.trans hchanges.numConfiguredTenants
  · exact hdelivered.totalActiveFlows.trans hchanges.totalActiveFlows
  · exact hdelivered.allocatedRateCapacity.trans hchanges.allocatedRateCapacity

theorem Selected.dequeue (h : Selected s s₁ i t q c flows) (now : ℕ) :
    SchedulerInv (hwfqDequeue s true now).2.2 ∧
      DequeueEffect s true now (hwfqDequeue s true now).1 (hwfqDequeue s true now).2.1
        (hwfqDequeue s true now).2.2 := by
  have hcar := h.taken.carries
  have hpoint := h.putBackPoint_eq
  rw [h.dequeue_eq]
  by_cases hcap : overCapacity s₁ c = true
  · rw [if_pos hcap] at hpoint ⊢
    exact ⟨(h.inv.putBack h.tenant hcar.tenant hcar.fits).1,
      .putBack (by simp) rfl h.taken ⟨hpoint, h.inv, h.tenant, .inl rfl, rfl, h.changes⟩⟩
  rw [if_neg hcap] at hpoint ⊢
  obtain ⟨hinv, ht, hchanges⟩ := h.charge
  generalize chargeFlow s₁ i c.workSize = s₂ at hinv ht hchanges hpoint ⊢
  have hnext := hwfqAlloc_next_le s₂.mem 1
  have hok := fun hs : s₂.mem.AlwaysOk => hs.alloc 1
  cases halloc : hwfqAlloc s₂.mem 1 with
  | mk p mem =>
    rw [halloc] at hnext hok hpoint
    cases p with
    | none =>
      have hwith := hinv.withMem hnext
      exact ⟨(hwith.putBack (i := i) ht hcar.tenant hcar.fits).1,
        .putBack (by simp) rfl h.taken ⟨hpoint, hwith, ht, .inr rfl, rfl,
          hchanges.tokens (withMem_tokensOnly s₂ hnext hok)⟩⟩
    | some addr =>
      obtain ⟨rfl, hsucc⟩ := hwfqAlloc_some halloc
      have hfits : overCapacity s c = false := h.capacity ▸ by simpa using hcap
      obtain ⟨hdel, t', hdelivers⟩ := hinv.delivers ht hchanges hfits hpoint hcar.fits.2 hsucc hok
        now
      exact ⟨hdel, .delivered rfl h.taken hdelivers⟩

end

theorem SchedulerInv.dequeue (h : SchedulerInv s) (workOut : Bool) (now : ℕ) :
    SchedulerInv (hwfqDequeue s workOut now).2.2 ∧
      DequeueEffect s workOut now (hwfqDequeue s workOut now).1 (hwfqDequeue s workOut now).2.1
        (hwfqDequeue s workOut now).2.2 := by
  cases workOut with
  | false => exact ⟨h, .refused Status.noConfusion (by simp) (Changes.refl s)⟩
  | true =>
    rcases h.select with ⟨system, -, heq, hinv⟩ | ⟨token, system, t, flows, -, ht, -, hinv, hcase⟩
    · rw [dequeue_refused heq]
      exact ⟨hinv, .refused (by simp) (fun _ => putBackPoint_refused heq)
        ⟨rfl, le_rfl, id, rfl, rfl, rfl, rfl, rfl, rfl, rfl, rfl⟩⟩
    rcases hcase with ⟨hmiss, heq⟩ | ⟨q, c, htake, hcar, heq⟩
    · rw [dequeue_refused heq]
      exact ⟨hinv, .missed (by simp) (fun _ => putBackPoint_refused heq) ht hmiss
        (afterSelect_changes s system token.entryId t flows)⟩
    · exact (Selected.of_select ht htake hcar heq hinv).dequeue now

/-! ## Complete, cancel and timeouts -/

/-- A session leaves the in-flight table for good; the tenants become `cores`. -/
structure Ends (s s' : Scheduler) (found : InFlightEntry) (cores : ℕ → Option Tenant) : Prop where
  mem_inFlight : found ∈ s.inFlight
  cores : s'.cores = cores
  inFlight : s'.inFlight = (inFlightRemove s found).inFlight
  inFlightHash : s'.inFlightHash = (inFlightRemove s found).inFlightHash
  next : s.mem.next ≤ s'.mem.next
  granted : s.mem.AlwaysOk → s'.mem.AlwaysOk
  config : s'.config = s.config
  numConfiguredTenants : s'.numConfiguredTenants = s.numConfiguredTenants
  totalActiveFlows : s'.totalActiveFlows = s.totalActiveFlows
  allocatedRateCapacity : s'.allocatedRateCapacity = s.allocatedRateCapacity

/-- The cores after the statistics of one tenant were rewritten. -/
def mapStatsAt (cores : ℕ → Option Tenant) (tenantId flowId : ℕ) (f : Stats → Stats) :
    ℕ → Option Tenant :=
  Function.update cores tenantId ((cores tenantId).map fun t => t.mapStats flowId f)

theorem SchedulerInv.updateStats_changes (h : SchedulerInv s) (tenantId flowId : ℕ)
    (f : Stats → Stats) :
    Changes s (Hwfq.updateStats s tenantId flowId f) (mapStatsAt s.cores tenantId flowId f) := by
  unfold mapStatsAt
  obtain ⟨-, ⟨hnone, heq⟩ | ⟨t, ht, heq⟩⟩ := h.updateStats tenantId flowId f
  · rw [heq, show s.cores tenantId = none by simp [Scheduler.cores, hnone], Option.map_none]
    rw [Function.update_eq_self_iff.mpr (by simp [Scheduler.cores, hnone])]
    exact Changes.refl s
  · rw [heq, cores_some ht, Option.map_some]
    exact setTenant_changes s tenantId _

theorem Ends.of_changes {s₂ : Scheduler} {found : InFlightEntry}
    {cores : ℕ → Option Tenant} (hfound : found ∈ s.inFlight)
    (h : Changes (Hwfq.takeInFlight s found) s₂ cores) : Ends s s₂ found cores where
  mem_inFlight := hfound
  cores := h.cores
  inFlight := h.inFlight
  inFlightHash := h.inFlightHash
  next := h.next
  granted := h.granted
  config := h.config
  numConfiguredTenants := h.numConfiguredTenants
  totalActiveFlows := h.totalActiveFlows
  allocatedRateCapacity := h.allocatedRateCapacity

/-- All outcomes of `hwfq_complete`. -/
theorem SchedulerInv.complete (h : SchedulerInv s) (work : Option Session) (tenantId flowId : ℕ) :
    SchedulerInv (hwfqComplete s work tenantId flowId).2.2 ∧
      ((inFlightLookup s work tenantId flowId = none ∧
          hwfqComplete s work tenantId flowId = (.notFound, [], s)) ∨
        ∃ found cores, inFlightLookup s work tenantId flowId = some found ∧
          (hwfqComplete s work tenantId flowId).1 = .success ∧
          (s.config.enableStatistics = false ∧
              cores = mapStatsAt s.cores tenantId flowId Stats.backlogDownIfPositive ∨
            s.config.enableStatistics = true ∧
              cores = mapStatsAt (mapStatsAt s.cores tenantId flowId Stats.backlogDownIfPositive)
                tenantId flowId (Stats.addCompletion found.workSize)) ∧
          Ends s (hwfqComplete s work tenantId flowId).2.2 found cores) := by
  unfold hwfqComplete
  cases hfind : inFlightLookup s work tenantId flowId with
  | none => exact ⟨h, .inl ⟨rfl, rfl⟩⟩
  | some found =>
    obtain ⟨hin, -, -⟩ := inFlightLookup_some h.flight hfind
    have htake := h.takeInFlight hin
    have hdown := htake.updateStats_changes tenantId flowId Stats.backlogDownIfPositive
    have hinv := (htake.updateStats tenantId flowId Stats.backlogDownIfPositive).1
    have hcores : (Hwfq.takeInFlight s found).cores = s.cores := rfl
    rw [hcores] at hdown
    have hends := fun s₂ cores => @Ends.of_changes s s₂ found cores hin
    have hconf : (Hwfq.updateStats (Hwfq.takeInFlight s found) tenantId flowId
        Stats.backlogDownIfPositive).config = s.config := hdown.config
    dsimp only
    generalize Hwfq.takeInFlight s found = s₁ at hdown hinv hends hconf ⊢
    by_cases hstat : (Hwfq.updateStats s₁ tenantId flowId
        Stats.backlogDownIfPositive).config.enableStatistics = true
    · rw [if_pos hstat]
      have hadd := hinv.updateStats_changes tenantId flowId (Stats.addCompletion found.workSize)
      have hinv' := (hinv.updateStats tenantId flowId (Stats.addCompletion found.workSize)).1
      obtain ⟨hserve, htok⟩ := hinv'.serveCompleted tenantId
      rw [hdown.cores] at hadd
      exact ⟨hserve, .inr ⟨found, _, rfl, rfl, .inr ⟨hconf ▸ hstat, rfl⟩,
        hends _ _ ((hdown.trans hadd).tokens htok)⟩⟩
    · rw [if_neg hstat]
      obtain ⟨hserve, htok⟩ := hinv.serveCompleted tenantId
      exact ⟨hserve, .inr ⟨found, _, rfl, rfl, .inl ⟨by rw [← hconf]; simpa using hstat, rfl⟩,
        hends _ _ (hdown.tokens htok)⟩⟩

/-- All outcomes of `hwfq_cancel`. -/
theorem SchedulerInv.cancel (h : SchedulerInv s) (work : Option Session) (tenantId flowId : ℕ) :
    SchedulerInv (hwfqCancel s work tenantId flowId).2.2 ∧
      ((inFlightLookup s work tenantId flowId = none ∧
          hwfqCancel s work tenantId flowId = (.notFound, [], s)) ∨
        ∃ found, inFlightLookup s work tenantId flowId = some found ∧
          (hwfqCancel s work tenantId flowId).1 = .success ∧
          Ends s (hwfqCancel s work tenantId flowId).2.2 found
            (mapStatsAt s.cores tenantId flowId Stats.backlogDownIfPositive)) := by
  unfold hwfqCancel
  cases hfind : inFlightLookup s work tenantId flowId with
  | none => exact ⟨h, .inl ⟨rfl, rfl⟩⟩
  | some found =>
    obtain ⟨hin, htenant, hflow⟩ := inFlightLookup_some h.flight hfind
    have htake := h.takeInFlight hin
    have hdown := htake.updateStats_changes tenantId flowId Stats.backlogDownIfPositive
    have hinv := (htake.updateStats tenantId flowId Stats.backlogDownIfPositive).1
    have hcores : (Hwfq.takeInFlight s found).cores = s.cores := rfl
    rw [hcores] at hdown
    dsimp only
    rw [htenant, hflow]
    exact ⟨hinv, .inr ⟨found, rfl, rfl, Ends.of_changes hin hdown⟩⟩

/-- `hwfq_check_timeouts` takes the timed out sessions out of the table and nothing else. -/
theorem SchedulerInv.checkTimeouts (h : SchedulerInv s) (now : ℕ) :
    SchedulerInv (hwfqCheckTimeouts s now).2.2 ∧ FlightOnly s (hwfqCheckTimeouts s now).2.2 ∧
      s.inFlight.Perm (s.inFlight.filter (isTimedOut now) ++
        (hwfqCheckTimeouts s now).2.2.inFlight) := by
  obtain ⟨hinv, honly, -, hperm⟩ := h.scanTimeouts now
  exact ⟨hinv, honly, hperm⟩

end Hwfq
