import Hwfq.TokenRegistration

/-!
# No tenant with work is without a token

A dequeue takes the token of a tenant before it knows whether a session can be had,
and every registration may fail unseen. Both go well when the tenant's rate is not
zero and its queue holds a session that is not saturated. In runs whose calls meet
this, every tenant with queued sessions has its flag and its token.
-/
namespace Hwfq
open GuardedRuns

variable {s s' : Scheduler} {i : ℕ} {t : Tenant}

/-! ## The condition on a call -/

/-- The tenant whose token a dequeue would take. -/
def nextTenant (s : Scheduler) : Option Tenant :=
  ((groupSchedulerDequeue s.systemScheduler).1.bind (·.userData)).bind s.tenantAt

/-- The tenant still has sessions when the dequeue is over. -/
def StaysBacklogged (s : Scheduler) (t : Tenant) : Prop :=
  1 < t.flowScheduler.queued.card ∨ ∃ x ∈ chosen s, overCapacity s x = true

/-- A tenant that gets its first session can be registered. The tenant that a dequeue
asks has one that can be chosen, and can be registered again if it stays backlogged. -/
def KeepsTokens (s : Scheduler) : Call → Prop
  | .enqueue i _ _ _ => ∀ t ∈ s.tenants i.toNat, t.hasBacklog = true ∨ Registrable s i.toNat
  | .dequeue true _ => ∀ t ∈ nextTenant s,
      t.flowScheduler.queued.card ≤ uint32Max ∧
      (t.flowScheduler.queued ≠ 0 → Servable t.flowScheduler) ∧
      (StaysBacklogged s t → Registrable s t.tenantId)
  | _ => True

instance (s : Scheduler) (t : Tenant) : Decidable (StaysBacklogged s t) :=
  inferInstanceAs (Decidable (1 < t.flowScheduler.queued.card ∨
    ∃ x ∈ chosen s, overCapacity s x = true))

instance {α : Type*} (gs : GroupScheduler α) : Decidable (gs.queued = 0) :=
  decidable_of_iff (gs.queued.card = 0) Multiset.card_eq_zero

instance (s : Scheduler) : ∀ c, Decidable (KeepsTokens s c)
  | .enqueue i _ _ _ => inferInstanceAs (Decidable
      (∀ t ∈ s.tenants i.toNat, t.hasBacklog = true ∨ Registrable s i.toNat))
  | .dequeue true _ => inferInstanceAs (Decidable (∀ t ∈ nextTenant s,
      t.flowScheduler.queued.card ≤ uint32Max ∧
      (t.flowScheduler.queued ≠ 0 → Servable t.flowScheduler) ∧
      (StaysBacklogged s t → Registrable s t.tenantId)))
  | .dequeue false _ | .addTenant .. | .configureTenant .. | .removeTenant .. | .addFlow ..
  | .removeFlow .. | .reconfigureFlow .. | .complete .. | .cancel .. | .checkTimeouts ..
  | .resetStats .. => isTrue trivial

/-! ## The invariant -/

/-- Every tenant with queued sessions has its flag and a token, and both calendars
look into the bins of the token and of the sessions. -/
structure NoneStranded (s : Scheduler) : Prop where
  token : ∀ i t, s.tenants i = some t → t.flowScheduler.queued ≠ 0 → t.hasBacklog = true ∧
    ∃ q ∈ s.systemScheduler.queued, q.userData = some t.ptr ∧ Visited s.systemScheduler q
  sessions : ∀ i t, s.tenants i = some t →
    ∀ q ∈ t.flowScheduler.queued, Visited t.flowScheduler q

structure TokensKept (s : Scheduler) : Prop where
  inv : SchedulerInv s
  granted : s.mem.AlwaysOk
  reached : Reached s
  grid : OnGrid s s.cores
  flagged : ∀ i, s.queue i ≠ 0 → Flagged s i

theorem Registrable.congr (h : Registrable s i) (hsystem : s'.systemScheduler = s.systemScheduler)
    (hconf : s'.config = s.config) : Registrable s' i := by
  have hgroups : s'.numGroups = s.numGroups := by
    rw [Scheduler.numGroups, hconf, Scheduler.numGroups]
  rw [Registrable, hsystem, hgroups]
  exact h

theorem Reached.of_config (h : Reached s) (hconf : s'.config = s.config) : Reached s' := by
  have hgroups : s'.numGroups = s.numGroups := by rw [Scheduler.numGroups, hconf, Scheduler.numGroups]
  have hbins : s'.binsPerGroup = s.binsPerGroup := by
    rw [Scheduler.binsPerGroup, hconf, Scheduler.binsPerGroup]
  rw [Reached, hgroups, hbins]
  exact h

theorem TokensKept.numBins (h : TokensKept s) : s.grid.numBins ≤ 32768 :=
  h.reached.numBins.trans_le h.reached

theorem TokensKept.flows_numBins (h : TokensKept s) (ht : s.tenants i = some t) :
    t.flowScheduler.numBins ≤ 32768 := by
  have hgrid : t.flowScheduler.geometry = s.grid := h.grid i t.core (cores_some ht)
  exact (congrArg Geometry.numBins hgrid).trans_le h.numBins

theorem FlowsInv.searchable {mem : Allocator} {id : ℕ} {flows : GroupScheduler FlowSessionContext}
    (h : FlowsInv mem id flows) (hn : flows.numBins ≤ 32768) :
    Searchable (⟨mem, flows⟩ : GroupState FlowSessionContext) := by
  obtain ⟨live, hpool⟩ := h.pooled
  exact ⟨hpool.group, hn, hpool.exact hn⟩

theorem SchedulerInv.tokens_searchable (h : SchedulerInv s) (hn : s.grid.numBins ≤ 32768) :
    Searchable (⟨s.mem, s.systemScheduler⟩ : GroupState TenantPtr) := by
  obtain ⟨live, hpool, -⟩ := h.system.pooled
  have hgrid : s.systemScheduler.geometry = s.grid := congrArg Bounds.geometry h.bounds
  have hbins : s.systemScheduler.numBins ≤ 32768 := (congrArg Geometry.numBins hgrid).trans_le hn
  exact ⟨hpool.group, hbins, hpool.exact hbins⟩

theorem SchedulerInv.card_queue (h : SchedulerInv s) (ht : s.tenants i = some t) :
    (s.queue i).card = t.flowScheduler.queued.card := by
  rw [queue_some ht, (h.tenants i t ht).flows.card_contexts]

/-- What the invariant says of tenants and tokens. -/
theorem TokensKept.noneStranded (h : TokensKept s) : NoneStranded s where
  token i t ht hqueued := by
    have hne : s.queue i ≠ 0 := by
      intro hzero
      have hcard := h.inv.card_queue ht
      rw [hzero, Multiset.card_zero] at hcard
      exact hqueued (Multiset.card_eq_zero.mp hcard.symm)
    have hflag := (flagged_some ht).mp (h.flagged i hne)
    have hface : s.faces i = some t.face := by rw [Scheduler.faces, ht, Option.map_some]
    obtain ⟨q, hq, rfl⟩ := h.inv.system.registered i t.face hface hflag
    obtain ⟨f, hf, -, -, hdata, -⟩ := h.inv.system.tokens q hq
    have hsearch := h.inv.tokens_searchable h.numBins
    have hcal := hsearch.inv.calendar
    have hlt := hcal.lt_numBins (hcal.mem_queued.mp hq)
    rw [hface, Option.some.injEq] at hf
    subst hf
    have hslot := (h.inv.tenants _ t ht).slot
    refine ⟨hflag, q, hq, ?_, (hcal.visited_iff hq).mpr (hlt.trans_le hsearch.bins)⟩
    rw [hdata, Tenant.ptr, hslot]
    rfl
  sessions i t ht q hq := by
    have hcal := (h.inv.tenants i t ht).flows.group.calendar
    have hlt := hcal.lt_numBins (hcal.mem_queued.mp hq)
    exact (hcal.visited_iff hq).mpr (hlt.trans_le (h.flows_numBins ht))

/-! ## Calls that take no token -/

/-- A call that accepts nothing makes no queue longer. -/
theorem SchedulerInv.queue_le (h : SchedulerInv s) {c : Call} (hacc : accepted s c = 0) (i : ℕ) :
    (Hwfq.after s c).queue i ≤ s.queue i := by
  have hbalance := (h.balanced c).queued
  rw [hacc, add_zero] at hbalance
  rw [← (h.after c).queue_filter, ← h.queue_filter]
  exact Multiset.filter_le_filter _ (hbalance ▸ Multiset.le_add_right _ _)

theorem SchedulerInv.queue_ne_zero (h : SchedulerInv s) {c : Call} (hacc : accepted s c = 0)
    {i : ℕ} (hne : (Hwfq.after s c).queue i ≠ 0) : s.queue i ≠ 0 := by
  intro hzero
  exact hne (Multiset.le_zero.mp (hzero ▸ h.queue_le hacc i))

/-- An accepted session gets its tenant a token. -/
theorem SchedulerInv.enqueue_registers (h : SchedulerInv s) (hmem : s.mem.AlwaysOk)
    (hreached : Reached s) {tenantId flowId now : ℕ} {work : Option Session}
    (hreg : ∀ t ∈ s.tenants tenantId, t.hasBacklog = true ∨ Registrable s tenantId)
    (hok : (hwfqEnqueue s tenantId flowId work now).1 = .success) :
    Flagged (hwfqEnqueue s tenantId flowId work now).2.2 tenantId := by
  have hoffer : ∀ {mem : Allocator} {t : Tenant} {x : FlowSessionContext},
      s.tenants tenantId = some t → mem.AlwaysOk →
      (offerSession { s with mem := mem } tenantId flowId t x).1 = .success →
      Flagged (offerSession { s with mem := mem } tenantId flowId t x).2.2 tenantId := by
    intro mem t x ht hgrant hok
    unfold offerSession at hok ⊢
    dsimp only at hok ⊢
    split_ifs at hok ⊢ with hsuccess
    · rcases hreg t ht with hflag | hgood
      · exact (FlagStep.register (P := fun _ => True) _ trivial).keeps _
          ⟨_, Function.update_self .., hflag⟩
      · have hslot := (h.tenants tenantId t ht).slot
        refine Hwfq.register_flagged h.bounds ?_ (h.lt_maxTenants ht)
          (enqueue_granted hgrant _ _ _ _ _) hreached (Function.update_self ..) hgood
        exact hslot
    · exact absurd hok hsuccess
  unfold hwfqEnqueue at hok ⊢
  cases work with
  | none => cases hok
  | some w =>
    dsimp only at hok ⊢
    split_ifs at hok ⊢
    cases ht : s.configuredTenant tenantId with
    | none => simp [ht] at hok
    | some t =>
      rw [ht] at hok
      dsimp only at hok ⊢
      split_ifs at hok ⊢
      rw [hwfqAlloc_alwaysOk hmem (by decide)] at hok ⊢
      exact hoffer (configuredTenant_some ht) (fun k => hmem (k + 1)) hok

theorem TokensKept.quiet (h : TokensKept s) {c : Call} (hq : c.asksSession = false)
    (hc : KeepsTokens s c) : ∀ i, (after s c).queue i ≠ 0 → Flagged (after s c) i := by
  intro i hne
  have hkeep := (h.inv.flagStep hq).keeps
  by_cases hacc : accepted s c = 0
  · exact hkeep i (h.flagged i (h.inv.queue_ne_zero hacc hne))
  by_cases hold : s.queue i = 0
  swap
  · exact hkeep i (h.flagged i hold)
  cases c with
  | enqueue k f work now =>
    cases work with
    | none => exact absurd rfl hacc
    | some w =>
      have hok : (respond s (.enqueue k f (some w) now)).status = .success := by
        by_contra hbad
        exact hacc (if_neg hbad)
      have hslot : k.toNat = i := by
        obtain ⟨x, hx⟩ := Multiset.exists_mem_of_ne_zero hne
        rw [← (h.inv.after _).queue_filter, Multiset.mem_filter] at hx
        have hin : x ∈ s.queuedSessions + accepted s (.enqueue k f (some w) now) := by
          rw [(h.inv.balanced _).queued]
          exact Multiset.mem_add.mpr (.inl hx.1)
        rcases Multiset.mem_add.mp hin with hin | hin
        · have hq : x ∈ s.queue i := by
            rw [← h.inv.queue_filter]
            exact Multiset.mem_filter.mpr ⟨hin, hx.2⟩
          rw [hold] at hq
          exact absurd hq (Multiset.notMem_zero x)
        · rw [accepted, if_pos hok] at hin
          rw [← hx.2, Multiset.mem_singleton.mp hin]
          rfl
      have hstatus : (hwfqEnqueue s k.toNat f.toNat (some w) now.toNat).1 = .success := hok
      rw [← hslot]
      exact h.inv.enqueue_registers h.granted h.reached hc hstatus
  | _ => exact absurd rfl hacc

/-! ## Dequeue -/

theorem SchedulerInv.nextTenant_eq (h : SchedulerInv s) {token : SessionState TenantPtr}
    {system : GroupScheduler TenantPtr}
    (hd : groupSchedulerDequeue s.systemScheduler = (some token, system))
    (ht : s.tenants token.entryId = some t) : nextTenant s = some t := by
  obtain ⟨f, hface, -, hdata, -⟩ := h.system.take hd
  rw [Scheduler.faces, ht, Option.map_some, Option.some.injEq] at hface
  subst hface
  rw [nextTenant, hd]
  simp [hdata, Scheduler.tenantAt, ht, Tenant.face]

/-- Taking a token and charging the clock leaves every tenant's rate as it was. -/
theorem SchedulerInv.registrable_afterSelect (h : SchedulerInv s)
    {token : Option (SessionState TenantPtr)} {system : GroupScheduler TenantPtr}
    {flows : GroupScheduler FlowSessionContext}
    (hd : groupSchedulerDequeue s.systemScheduler = (token, system)) (hreg : Registrable s i) :
    Registrable (afterSelect s system i t flows) i := by
  obtain ⟨r, hrate, hr, hgroup⟩ := hreg
  have hcal := h.system.group.calendar
  have hledger := dequeue_ledger s.systemScheduler
  have hgeo := dequeue_geometry hcal
  rw [hd] at hledger hgeo
  have hids : system.configuredEntries = s.systemScheduler.configuredEntries :=
    congrArg Ledger.configuredEntries hledger
  refine ⟨r, ?_, hr, ?_⟩
  · have hupdate := rateOf_update (hids ▸ h.system.group.nodup) tenantQuantumSize i
    exact (hupdate.trans (rateOf_of_ledger hledger i)).trans hrate
  · have hbase : (groupSchedulerUpdateVirtualTime system tenantQuantumSize).baseInterval =
        s.systemScheduler.baseInterval :=
      (congrArg Geometry.baseInterval (updateVirtualTime_geometry _)).trans
        (congrArg Geometry.baseInterval hgeo)
    have hsame : groupOf (groupSchedulerUpdateVirtualTime system tenantQuantumSize)
        tenantQuantumSize r = groupOf s.systemScheduler tenantQuantumSize r := by
      rw [groupOf, hbase, groupOf]
    exact hsame.trans_lt hgroup

/-- A tenant that is still backlogged when its session was delivered gets a new token. -/
theorem SchedulerInv.backlogged_flagged (h : SchedulerInv s) (hmem : s.mem.AlwaysOk)
    (hreached : Reached s) (hcard : (s.queue i).card ≤ uint32Max)
    (hreg : Registrable s i) (hne : s.queue i ≠ 0) : Flagged (Hwfq.registerIfBacklogged s i) i := by
  cases ht : s.tenants i with
  | none => exact absurd (queue_none ht) hne
  | some t =>
    have hcount := (h.tenants i t ht).flows.group.count
    rw [← h.card_queue ht, u32_of_le hcard] at hcount
    have hbusy : ¬ groupSchedulerIsEmpty t.flowScheduler = true := by
      rw [groupSchedulerIsEmpty, decide_eq_true_eq, hcount]
      exact fun hzero => hne (Multiset.card_eq_zero.mp hzero)
    unfold Hwfq.registerIfBacklogged
    rw [ht]
    dsimp only
    rw [if_neg hbusy]
    exact h.register_flagged hmem hreached ht hreg

/-- Charging a flow clock changes no flag, no token and no queue. -/
theorem SchedulerInv.charged (h : SchedulerInv s) (ht : s.tenants i = some t) (w : ℕ) :
    SchedulerInv (Hwfq.chargeFlow s i w) ∧ ∃ u, (Hwfq.chargeFlow s i w).tenants i = some u ∧
      (∀ {P}, FlagStep P s (Hwfq.chargeFlow s i w)) ∧ (Hwfq.chargeFlow s i w).queue i = s.queue i ∧
      (Hwfq.chargeFlow s i w).systemScheduler = s.systemScheduler ∧
      (Hwfq.chargeFlow s i w).config = s.config ∧ (Hwfq.chargeFlow s i w).mem = s.mem := by
  obtain ⟨hcharge, hinv⟩ := h.chargeFlow ht w
  rw [hcharge] at hinv ⊢
  refine ⟨hinv, _, Function.update_self .., .write ht rfl rfl, ?_, rfl, rfl, rfl⟩
  rw [queue_some (Function.update_self ..), queue_some ht, contexts_update]

/-- The delivery of a session up to the last registration. -/
structure Waited (s s₃ : Scheduler) (mem : Allocator) (i : ℕ) : Prop where
  inv : SchedulerInv s₃
  flags : ∀ {P}, FlagStep P s s₃
  queue : s₃.queue i = s.queue i
  systemScheduler : s₃.systemScheduler = s.systemScheduler
  config : s₃.config = s.config
  mem : s₃.mem = mem

theorem SchedulerInv.deliver_waited (h : SchedulerInv s) (ht : s.tenants i = some t)
    {x : FlowSessionContext} (hfits : x.workSize ≤ uint64Max) {mem : Allocator}
    (hnext : mem.next = s.mem.next + 1) (now : ℕ) :
    ∃ s₃, (deliverSession { s with mem := mem } i x s.mem.next now).2.2 =
      Hwfq.registerIfBacklogged s₃ i ∧ Waited s s₃ mem i := by
  have hadd : SchedulerInv (Hwfq.addInFlight { s with mem := mem }
      (newInFlightEntry x s.mem.next now)) := h.addInFlight rfl hfits hnext
  have ht₂ : (Hwfq.addInFlight { s with mem := mem }
      (newInFlightEntry x s.mem.next now)).tenants i = some t := ht
  have hflags : ∀ {P}, FlagStep P s (Hwfq.addInFlight { s with mem := mem }
      (newInFlightEntry x s.mem.next now)) := .of_tenants rfl
  unfold deliverSession
  dsimp only
  generalize hs₂ : Hwfq.addInFlight { s with mem := mem } (newInFlightEntry x s.mem.next now) = s₂
    at hadd ht₂ hflags ⊢
  obtain ⟨hwait, hcase⟩ := hadd.recordWait ht₂ x now
  refine ⟨_, rfl, hwait, hflags.trans (.recordWait s₂ i x now), ?_, ?_, ?_, ?_⟩
  · rw [queue_some ht]
    rcases hcase with heq | ⟨w, heq⟩
    · rw [heq, queue_some ht₂]
    · rw [heq, queue_some (Function.update_self ..), Tenant.mapStats_contexts]
  all_goals
    rcases hcase with heq | ⟨w, heq⟩
    · rw [heq, ← hs₂]
      rfl
    · rw [heq, ← hs₂]
      rfl

/-- The tenant that was asked gets a token if it has more sessions. -/
theorem SchedulerInv.deliver_flags (h : SchedulerInv s)
    (hreached : Reached s) (ht : s.tenants i = some t) {x : FlowSessionContext}
    (hfits : x.workSize ≤ uint64Max) (hcard : (s.queue i).card ≤ uint32Max)
    (hreg : s.queue i ≠ 0 → Registrable s i) {mem : Allocator} (hgrant : mem.AlwaysOk)
    (hnext : mem.next = s.mem.next + 1) (now : ℕ) :
    let s' := (deliverSession { s with mem := mem } i x s.mem.next now).2.2
    KeepsFlags s s' ∧ (s'.queue i ≠ 0 → Flagged s' i) := by
  obtain ⟨s₃, heq, hwait⟩ := h.deliver_waited ht hfits hnext now
  dsimp only
  rw [heq]
  refine ⟨(hwait.flags.trans (.registerIfBacklogged hwait.inv i)).keeps, fun hne => ?_⟩
  have htokens := (hwait.inv.registerIfBacklogged i).2
  rw [queue_of_cores htokens.cores, queueOf_cores, hwait.queue] at hne
  apply hwait.inv.backlogged_flagged (hwait.mem ▸ hgrant) (hreached.of_config hwait.config)
  · exact hwait.queue ▸ hcard
  · exact (hreg hne).congr hwait.systemScheduler hwait.config
  · exact hwait.queue ▸ hne

section
variable {s₁ : Scheduler} {q : SessionState FlowSessionContext} {x : FlowSessionContext}
  {flows : GroupScheduler FlowSessionContext}

/-- Once a session is chosen, only the tenant that was asked can get a flag: its session
is put back, or it has others. -/
theorem Selected.flagStep (h : Selected s s₁ i t q x flows) (now : UInt64) :
    FlagStep (fun j => j = i ∧ ((putBackPoint s).isSome = true ∨
      (after s (.dequeue true now)).queue j ≠ 0)) s₁ (after s (.dequeue true now)) := by
  have hstate : after s (.dequeue true now) = (hwfqDequeue s true now.toNat).2.2 := rfl
  have hback : ∀ s₂, FlagStep (· = i) s₁ s₂ → FlagStep (· = i) s₁ (putBack s₂ i x) :=
    fun s₂ h₂ => h₂.trans (.trans (.register s₂ rfl) (.putBack s₂ i x))
  rw [hstate, h.dequeue_eq, h.putBackPoint_eq]
  by_cases hover : overCapacity s₁ x = true
  · rw [if_pos hover, if_pos hover]
    exact (hback s₁ (.of_tenants rfl)).mono fun j hj => ⟨hj, .inl rfl⟩
  rw [if_neg hover, if_neg hover]
  obtain ⟨hinv₂, u, ht₂, hflags, -⟩ := h.inv.charged h.tenant x.workSize
  generalize chargeFlow s₁ i x.workSize = s₂ at hinv₂ ht₂ hflags ⊢
  cases halloc : hwfqAlloc s₂.mem 1 with
  | mk p mem =>
    cases p with
    | none =>
      have hsame : FlagStep (· = i) s₂ { s₂ with mem := mem } := .of_tenants rfl
      exact (hback _ (hflags.trans hsame)).mono fun j hj => ⟨hj, .inl rfl⟩
    | some addr =>
      obtain ⟨rfl, hnext⟩ := hwfqAlloc_some halloc
      obtain ⟨s₃, heq, hwait⟩ := hinv₂.deliver_waited ht₂ h.taken.carries.fits.2 hnext now.toNat
      have hlast := FlagStep.registerIfBacklogged hwait.inv i
      have htokens := (hwait.inv.registerIfBacklogged i).2
      dsimp only
      rw [heq, queue_of_cores htokens.cores, queueOf_cores]
      exact (hflags.trans (hwait.flags.trans hlast)).mono fun j hj => ⟨hj.1, .inr hj.2⟩

/-- The tenant that was asked has its flag again if it needs it. -/
theorem Selected.reflagged (h : Selected s s₁ i t q x flows) (hinv : SchedulerInv s)
    (hgrant : s₁.mem.AlwaysOk) (hreached : Reached s₁)
    (hcard : t.flowScheduler.queued.card ≤ uint32Max)
    (hreg : StaysBacklogged s t → Registrable s₁ i) {now : UInt64}
    (hne : (after s (.dequeue true now)).queue i ≠ 0) :
    Flagged (after s (.dequeue true now)) i := by
  have hstate : after s (.dequeue true now) = (hwfqDequeue s true now.toNat).2.2 := rfl
  have hcards := hinv.card_queue h.taken.tenant
  have hcount : (s.queue i).card = (contexts flows).card + 1 := by
    rw [h.taken.queue hinv, Multiset.card_cons]
  have hqueue : s₁.queue i = contexts flows := queue_some h.tenant
  rw [hstate, h.dequeue_eq] at hne ⊢
  by_cases hover : overCapacity s₁ x = true
  · rw [if_pos hover]
    have hstay : StaysBacklogged s t := .inr ⟨x, h.taken.chosen, h.capacity ▸ hover⟩
    exact (FlagStep.putBack (P := (· = i)) s₁ i x).keeps i
      (h.inv.register_flagged hgrant hreached h.tenant (hreg hstay))
  rw [if_neg hover] at hne ⊢
  obtain ⟨hinv₂, u, ht₂, -, hqueue₂, hsystem, hconf, hmem⟩ := h.inv.charged h.tenant x.workSize
  rw [← hmem] at hgrant
  generalize chargeFlow s₁ i x.workSize = s₂ at hne hinv₂ ht₂ hqueue₂ hsystem hconf hgrant ⊢
  rw [hqueue] at hqueue₂
  rw [hwfqAlloc_alwaysOk hgrant (by decide)] at hne ⊢
  have hmore : s₂.queue i ≠ 0 → Registrable s₂ i := by
    rw [hqueue₂]
    intro hmany
    refine (hreg (.inl ?_)).congr hsystem hconf
    have hpos := Multiset.card_pos.mpr hmany
    omega
  have hrest : (⟨fun k => s₂.mem.ok (k + 1), s₂.mem.next + 1⟩ : Allocator).AlwaysOk :=
    fun k => hgrant (k + 1)
  have hfew : (s₂.queue i).card ≤ uint32Max := by
    rw [hqueue₂]
    omega
  exact (hinv₂.deliver_flags (hreached.of_config hconf) ht₂ h.taken.carries.fits.2 hfew hmore hrest
    rfl now.toNat).2 hne

end

/-- The flags after a dequeue. -/
theorem TokensKept.asked (h : TokensKept s) {now : UInt64}
    (hc : KeepsTokens s (.dequeue true now)) :
    ∀ i, (after s (.dequeue true now)).queue i ≠ 0 → Flagged (after s (.dequeue true now)) i := by
  intro j hne
  have hbusy := h.inv.queue_ne_zero rfl hne
  have hold := h.flagged j hbusy
  have hstate : after s (.dequeue true now) = (hwfqDequeue s true now.toNat).2.2 := rfl
  rcases h.inv.select with ⟨system, hd, heq, -⟩ | ⟨token, system, t, flows, hd, ht, -, hinv, hcase⟩
  · rw [hstate, dequeue_refused heq]
    exact hold
  obtain ⟨hcard, hserve, hagain⟩ := hc t (h.inv.nextTenant_eq hd ht)
  have hslot := (h.inv.tenants _ t ht).slot
  -- only the tenant that was asked can have lost its flag
  have hothers : j ≠ token.entryId → Flagged (afterSelect s system token.entryId t flows) j := by
    intro hj
    obtain ⟨u, hu, hflag⟩ := hold
    exact ⟨u, (Function.update_of_ne hj _ _).trans hu, hflag⟩
  rcases hcase with ⟨hmiss, heq⟩ | ⟨q, x, htake, hcar, heq⟩
  · rw [hstate, dequeue_refused heq]
    apply hothers
    rintro rfl
    have hflows := (h.inv.tenants _ t ht).flows
    have hqueued : t.flowScheduler.queued ≠ 0 := by
      intro hzero
      have hcards := h.inv.card_queue ht
      rw [hzero, Multiset.card_zero, Multiset.card_eq_zero] at hcards
      exact hbusy hcards
    have hsome := ((hflows.searchable (h.flows_numBins ht)).dequeue_isSome_iff_servable hcard).mpr
      (hserve hqueued)
    dsimp only at hsome
    rw [hmiss] at hsome
    cases hsome
  · have hselected := Selected.of_select ht htake hcar heq hinv
    by_cases hj : j = token.entryId
    · subst hj
      exact hselected.reflagged h.inv h.granted h.reached hcard
        (fun hstay => h.inv.registrable_afterSelect hd (hslot ▸ hagain hstay)) hne
    · exact (hselected.flagStep now).keeps j (hothers hj)

theorem TokensKept.step (h : TokensKept s) {c : Call} (hc : KeepsTokens s c) :
    TokensKept (after s c) := by
  have hconf := h.inv.after_config c
  have heff := h.inv.effect c
  constructor
  · exact h.inv.after c
  · exact heff.memory.2 h.granted
  · exact h.reached.of_config hconf
  · exact h.inv.onGrid h.grid c
  · cases hask : c.asksSession with
    | false => exact h.quiet hask hc
    | true =>
      cases c with
      | dequeue out now =>
        obtain rfl : out = true := hask
        exact h.asked hc
      | _ => cases hask

/-! ## Runs -/

theorem default_reached (hgroups : s.numGroups = defaultNumGroups)
    (hbins : s.binsPerGroup = defaultBinsPerGroup) : Reached s := by
  rw [Reached, hgroups, hbins]
  decide

theorem NewScheduler.tokensKept (h : NewScheduler s) (hmem : s.mem.AlwaysOk)
    (hreached : Reached s) : TokensKept s where
  inv := h.inv
  granted := hmem
  reached := hreached
  grid i t ht := by simp [Scheduler.cores, h.tenants] at ht
  flagged i hne := by
    rw [queue_none (congrFun h.tenants i)] at hne
    exact absurd rfl hne

theorem Made.tokensKept (h : Made s) (hmem : s.mem.AlwaysOk) (hreached : Reached s)
    {calls : List Call} (hcalls : Along after KeepsTokens s calls) :
    TokensKept (Hwfq.afterRun s calls) := by
  obtain ⟨mem, config, hinit⟩ := h
  have hfirst := (hwfqInit_success hinit).tokensKept hmem hreached
  exact run_invariant (fun _ _ hs hc => hs.step hc) hfirst hcalls

/-- Every tenant with queued sessions has its flag and its token in every run whose calls
find rates that are not zero and sessions that can be chosen. -/
theorem no_tenant_stranded (h : Made s) (hmem : s.mem.AlwaysOk)
    (hgroups : s.numGroups = defaultNumGroups) (hbins : s.binsPerGroup = defaultBinsPerGroup)
    {calls : List Call} (hcalls : Along after KeepsTokens s calls) :
    NoneStranded (afterRun s calls) :=
  (h.tokensKept hmem (default_reached hgroups hbins) hcalls).noneStranded

/-- Four tenants of four flows each, the default geometry, a capacity of 100. -/
def defaultConfig : Config :=
  { maxTenants := 4
    maxFlowsPerTenant := 4
    totalCapacity := 100 }

theorem defaultConfig_accepted : (hwfqInit generousAllocator defaultConfig).2.isSome = true := by
  decide +kernel

def defaultScheduler : Scheduler := madeWith generousAllocator defaultConfig defaultConfig_accepted

theorem defaultScheduler_made : Made defaultScheduler := madeWith_made defaultConfig_accepted

theorem defaultScheduler_granted : defaultScheduler.mem.AlwaysOk :=
  madeWith_granted generousAllocator_alwaysOk defaultConfig_accepted

theorem no_tenant_stranded_default :
    NoneStranded (afterRun defaultScheduler [.addTenant (some (.weight 1)) true,
      .addTenant (some (.rate 3)) true, .addFlow 0 (some (.weight 1)) true,
      .enqueue 0 1 (some { userData := 7, workSize := 6 }) 0]) := by
  apply no_tenant_stranded defaultScheduler_made defaultScheduler_granted
  · decide +kernel
  · decide +kernel
  · refine ⟨trivial, trivial, trivial, ?_, trivial⟩
    have hgood : Registrable (afterRun defaultScheduler [.addTenant (some (.weight 1)) true,
        .addTenant (some (.rate 3)) true, .addFlow 0 (some (.weight 1)) true]) 0 := by
      decide +kernel
    exact fun t _ => .inr hgood

/-- The weights 1 and 2^32 - 1 add up to zero, and so do the rates they give. -/
def zeroSumWeights : List Call :=
  [.addTenant (some (.weight 1)) true, .addTenant (some (.weight 4294967295)) true,
    .addFlow 0 (some (.weight 1)) true, .enqueue 0 1 (some { userData := 7, workSize := 6 }) 0]

theorem tenant_stranded :
    Made defaultScheduler ∧ defaultScheduler.mem.AlwaysOk ∧
      defaultScheduler.numGroups = defaultNumGroups ∧
      defaultScheduler.binsPerGroup = defaultBinsPerGroup ∧
      ¬ NoneStranded (afterRun defaultScheduler zeroSumWeights) := by
  refine ⟨defaultScheduler_made, defaultScheduler_granted, by decide +kernel, by decide +kernel, ?_⟩
  intro hnone
  have hfound : ∃ t ∈ (afterRun defaultScheduler zeroSumWeights).tenants 0,
      t.hasBacklog = false ∧ t.flowScheduler.activeSessionCount = 1 := by
    decide +kernel
  obtain ⟨t, ht, hflag, hcount⟩ := hfound
  have hgroup := ((defaultScheduler_made.afterRun zeroSumWeights).tenants 0 t ht).flows.group
  have hqueued : t.flowScheduler.queued ≠ 0 := by
    intro hzero
    have hcard := hgroup.count
    rw [hcount, hzero, Multiset.card_zero] at hcard
    simp [u32] at hcard
  rw [(hnone.token 0 t ht hqueued).1] at hflag
  cases hflag

end Hwfq
