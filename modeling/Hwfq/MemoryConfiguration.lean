import Hwfq.MemoryCalls

/-!
# Memory and configuration

Adding a tenant builds its blocks or gives back what it has built, removing one frees them
all, and the stores grow by the flows and tenants that are added.
-/
namespace Hwfq
open BlockTallies

variable {s : Scheduler} {i : ℕ} {t : Tenant}

/-! ## Changes without a block -/

theorem resetTenant_owned (t : Tenant) : (resetTenant t).owned = t.owned := by
  have hview : (resetTenant t).flowScheduler.queueView = t.flowScheduler.queueView := rfl
  have hflows := flowsLive_of_queueView hview
  have hshape : (resetTenant t).flowScheduler.entries.shape = t.flowScheduler.entries.shape :=
    resetAll_shape t.flowScheduler.entries
  unfold Tenant.owned
  rw [hflows, hshape]
  rfl

theorem Paid.resetStats (s : Scheduler) (tenantId flowId : ℕ) (b : SchedulerBlocks)
    (held : Multiset ℕ) : Paid s (hwfqResetStats s tenantId flowId) b b held held 0 := by
  have halltenants : Paid s (hwfqResetStats s hwfqAll flowId) b b held held 0 := by
    unfold hwfqResetStats
    rw [if_pos rfl]
    apply Paid.alike
    · rfl
    · rfl
    · rfl
    · rfl
    · intro i
      unfold Scheduler.cores
      dsimp only
      split_ifs
      · cases s.tenants i with
        | none => rfl
        | some t =>
          simp only [Option.map_some]
          split_ifs
          · exact congrArg some (resetTenant_owned t)
          · rfl
      · rfl
  by_cases hall : tenantId = hwfqAll
  · rw [hall]
    exact halltenants
  unfold hwfqResetStats
  rw [if_neg hall]
  by_cases hslot : tenantId < s.maxTenants
  swap
  · rw [if_neg hslot]
    exact .refl s b held
  rw [if_pos hslot]
  cases ht : s.configuredTenant tenantId with
  | none => exact .refl s b held
  | some t =>
    replace ht := configuredTenant_some ht
    dsimp only
    split_ifs
    · exact .sameTenant ht (resetTenant_owned t) b held
    · have hview : (t.flowScheduler.writeEntry flowId resetFlowStats).queueView =
          t.flowScheduler.queueView := rfl
      have hflows := flowsLive_of_queueView hview
      have hshape := shape_write t.flowScheduler.entries flowId resetFlowStats
      apply Paid.sameTenant ht
      unfold Tenant.owned
      dsimp only
      rw [hflows]
      exact congrArg (fun c => (t.addr, c, flowsLive t.flowScheduler)) hshape

/-- Work on the entries of the system scheduler. -/
theorem Paid.system {system : GroupScheduler TenantPtr}
    (hview : system.queueView = s.systemScheduler.queueView)
    (hshape : system.entries.shape = s.systemScheduler.entries.shape) (b : SchedulerBlocks)
    (held : Multiset ℕ) : Paid s { s with systemScheduler := system } b b held held 0 := by
  apply Paid.tokens
  · rfl
  · rfl
  · rfl
  · exact hshape
  · have hsame : system.sessions = s.systemScheduler.sessions := by
      rw [GroupScheduler.sessions, queued_of_queueView hview, GroupScheduler.sessions]
    rw [hsame]
    exact .refl _ _

theorem SchedulerInv.reallocated_paid (h : SchedulerInv s) (ht : s.tenants i = some t)
    (a : Allocation) (b : SchedulerBlocks) : Paid s (reallocated s i t a) b b 0 0 0 := by
  have hsums := h.system.group.sums
  have hsystem := Paid.system (configureEntry_queueView hsums i a) (configureEntry_shape hsums i a) b 0
  have htenant : Paid { s with systemScheduler := (groupSchedulerConfigureEntry s.systemScheduler i a).2 }
      (Hwfq.reallocated s i t a) b b 0 0 0 := by
    apply Paid.alike
    · rfl
    · rfl
    · rfl
    · rfl
    · intro j
      unfold Hwfq.reallocated
      rw [setTenant_cores]
      by_cases hj : j = i
      · have hold : s.cores i = some t.core := cores_some ht
        rw [hj, Function.update_self]
        exact (congrArg (Option.map Tenant.owned) hold).symm
      · rw [Function.update_of_ne hj]
        rfl
  exact hsystem.trans htenant

theorem SchedulerInv.configureTenant_paid (h : SchedulerInv s) (i : ℕ)
    (allocation : Option Allocation) (b : SchedulerBlocks) :
    Paid s (hwfqConfigureTenant s i allocation).2 b b 0 0 0 := by
  obtain ⟨-, ⟨-, heq⟩ | ⟨a, t, -, ht, -, -, heq⟩⟩ := h.configureTenant i allocation
  · rw [heq]
    exact .refl s b 0
  · rw [heq]
    exact h.reallocated_paid ht a b

/-! ## The blocks of a tenant -/

theorem contexts_freed {m : Multiset (SessionState FlowSessionContext)}
    (h : ∀ q ∈ m, ∃ x, Carries i q x) :
    m.bind (fun q => ((if q.cleanupFn then contextCleanup q.userData else [] : List Addr) :
      Multiset ℕ)) = (m.filterMap (·.userData)).map (·.addr) := by
  induction m using Multiset.induction with
  | empty => rfl
  | cons q m ih =>
    obtain ⟨x, hcar⟩ := h q (Multiset.mem_cons_self q m)
    have hrest := ih fun p hp => h p (Multiset.mem_cons_of_mem hp)
    rw [Multiset.cons_bind, hrest, Multiset.filterMap_cons_some _ _ _ hcar.data, Multiset.map_cons,
      if_pos hcar.cleanup, hcar.data]
    rfl

/-- Destroying a tenant frees what it owns. -/
theorem tenantFrees_live {flows : GroupScheduler FlowSessionContext} {tb : TenantBlocks}
    (hmirrors : Mirrors tb.store flows.entries)
    (hgrid : flows.numBins = u32 (flows.numGroups * flows.binsPerGroup))
    (hcarried : ∀ q ∈ flows.queued, ∃ x, Carries i q x) (addr : Addr) :
    (tenantFrees addr flows tb : Multiset ℕ) = tenantLive tb addr flows := by
  unfold tenantFrees tenantLive flowsLive
  rw [← Multiset.coe_add, ← Multiset.coe_add, groupDestroys tb.group contextCleanup hgrid,
    hmirrors.destroys, contexts_freed hcarried, Multiset.coe_singleton, contexts]
  abel

/-- A tenant leaves its slot. -/
theorem Paid.vacate {s' : Scheduler} (ht : s.tenants i = some t) (hi : i < s.maxTenants)
    (htenants : s'.tenants = Function.update s.tenants i none) (hmem : s'.mem = s.mem)
    (hsystem : s'.systemScheduler = s.systemScheduler) (hconfig : s'.config = s.config)
    (hflight : s'.inFlight = s.inFlight) (b : SchedulerBlocks) :
    Paid s s' b b 0 0 (tenantLive (b.tenants i) t.addr t.flowScheduler) := by
  have hold : s.cores i = some t.core := cores_some ht
  have hslot : Paid s s' b (b.setTenant i (b.tenants i)) 0 0
      (tenantLive (b.tenants i) t.addr t.flowScheduler) := by
    apply Paid.slot (v := none) hi (cores_of_tenants htenants) hsystem hconfig hflight
    · intro _ u hu
      cases hu
    · have hfree := Tally.free s.mem.next 0 (slotLive (b.tenants i) (some t.core))
      rw [add_zero] at hfree
      rw [hold, hmem, zero_add, zero_add]
      exact hfree
  rwa [setTenant_self] at hslot

theorem SchedulerInv.removed_paid (h : SchedulerInv s) (hgrid : OnGrid s s.cores)
    (ht : s.tenants i = some t) {b : SchedulerBlocks} (hb : Backed s b) :
    Paid s (Hwfq.tenantRemoved s i t) b b 0 0
      (tenantFrees t.addr t.flowScheduler (b.tenants i)) := by
  have hview : (freeEntryOf (groupSchedulerRemoveEntry s.systemScheduler i).2 i).queueView =
      s.systemScheduler.queueView := removeEntry_queueView s.systemScheduler i
  have hshape := (freeEntryOf_shape (groupSchedulerRemoveEntry s.systemScheduler i).2 i).trans
    (removeEntry_shape s.systemScheduler i)
  have hmirrors : Mirrors (b.tenants i).store t.flowScheduler.entries :=
    hb.tenants i t.core (cores_some ht)
  have hfrees := tenantFrees_live hmirrors (hgrid.numBins ht) (h.tenants i t ht).flows.carried t.addr
  have hsystem := Paid.system hview hshape b 0
  rw [hfrees, ← zero_add (tenantLive _ _ _)]
  apply hsystem.trans
  apply Paid.vacate (t := t)
  · exact ht
  · exact h.lt_maxTenants ht
  · rfl
  · rfl
  · rfl
  · rfl
  · rfl

theorem SchedulerInv.removeTenant_paid (h : SchedulerInv s) (hgrid : OnGrid s s.cores)
    {b : SchedulerBlocks} (hb : Backed s b) (i : ℕ) :
    Paid s (hwfqRemoveTenant s i).2.2 b b 0 0 (removeTenantFrees s b i) := by
  unfold hwfqRemoveTenant removeTenantFrees
  split_ifs
  · exact .refl s b 0
  cases ht : s.configuredTenant i with
  | none => exact .refl s b 0
  | some t =>
    dsimp only
    split_ifs
    · exact .refl s b 0
    · exact h.removed_paid hgrid (configuredTenant_some ht) hb

/-! ## Flows -/

/-- The flow scheduler of a tenant changes its entries, and the store may have grown. -/
theorem Paid.flows {mem : Allocator} {flows : GroupScheduler FlowSessionContext} {n : ℕ}
    {b : SchedulerBlocks} {store : StoreBlocks} {freed : List Addr} (ht : s.tenants i = some t)
    (hi : i < s.maxTenants) (hview : flows.queueView = t.flowScheduler.queueView)
    (hstored : Stored s.mem mem t.flowScheduler.entries flows.entries (b.tenants i).store
      (store, freed)) :
    Paid s ({ s with mem := mem, totalActiveFlows := n }.setTenant i
        { t with flowScheduler := flows }) b
      (b.setTenant i { b.tenants i with store := store }) 0 0 freed := by
  have hold : s.cores i = some t.core := cores_some ht
  have hflows := flowsLive_of_queueView hview
  apply Paid.slot (v := some ({ t with flowScheduler := flows } : Tenant).core) hi
  · exact setTenant_cores _ i _
  · rfl
  · rfl
  · rfl
  · intro _ u hu
    obtain rfl := Option.some.inj hu
    exact hstored.mirrors
  · apply hstored.tally.exchange
    rw [hold]
    unfold slotLive tenantLive
    dsimp only [Option.elim_some, Tenant.core]
    rw [hflows]
    abel

theorem Paid.sameFlows {flows : GroupScheduler FlowSessionContext} {n : ℕ}
    (ht : s.tenants i = some t) (hi : i < s.maxTenants)
    (hview : flows.queueView = t.flowScheduler.queueView)
    (hshape : flows.entries.shape = t.flowScheduler.entries.shape) (b : SchedulerBlocks)
    {s' : Scheduler} (hs : s' = { s with totalActiveFlows := n }.setTenant i
      { t with flowScheduler := flows }) : Paid s s' b b 0 0 0 := by
  rw [hs]
  have hflows := flowsLive_of_queueView hview
  apply Paid.tenant (u := ({ t with flowScheduler := flows } : Tenant).core) ht hi
  · exact setTenant_cores _ i _
  · rfl
  · rfl
  · rfl
  · rfl
  · exact hshape
  · apply Tally.of_eq
    exact congrArg (0 + ·) hflows

theorem SchedulerInv.addFlow_paid (h : SchedulerInv s) {b : SchedulerBlocks} (hb : Backed s b)
    (i : ℕ) (allocation : Option Allocation) (out : Bool) :
    Paid s (hwfqAddFlow s i allocation out).2.2 b (addFlowBlocks s b i allocation out).1 0 0
      (addFlowBlocks s b i allocation out).2 := by
  unfold hwfqAddFlow addFlowBlocks
  cases allocation with
  | none => exact .refl s b 0
  | some a =>
    dsimp only
    split_ifs with hout hslot hvalid hfull
    · exact .refl s b 0
    · exact .refl s b 0
    · exact .refl s b 0
    · cases s.configuredTenant i <;> exact .refl s b 0
    cases ht : s.configuredTenant i with
    | none => exact .refl s b 0
    | some t =>
      replace ht := configuredTenant_some ht
      dsimp only
      have hmirrors : Mirrors (b.tenants i).store t.flowScheduler.entries :=
        hb.tenants i t.core (cores_some ht)
      have hsums := (h.tenants i t ht).flows.group.sums
      have hstored := hmirrors.entriesAlloc s.mem
      have hview : (allocEntryOf s.mem t.flowScheduler).2.2.queueView = t.flowScheduler.queueView :=
        rfl
      have hsums' : SumsFit (allocEntryOf s.mem t.flowScheduler).2.2 := ⟨hsums.rates, hsums.weights⟩
      have hsame : allocEntryOf s.mem t.flowScheduler =
          ((hwfqChunkedEntriesAlloc s.mem t.flowScheduler.entries).1,
            (hwfqChunkedEntriesAlloc s.mem t.flowScheduler.entries).2.1,
            (allocEntryOf s.mem t.flowScheduler).2.2) := rfl
      have hent : (allocEntryOf s.mem t.flowScheduler).2.2.entries =
          (hwfqChunkedEntriesAlloc s.mem t.flowScheduler.entries).2.2 := rfl
      rw [hsame]
      rw [← hent] at hstored
      generalize (allocEntryOf s.mem t.flowScheduler).2.2 = flows at hstored hview hsums' ⊢
      generalize (hwfqChunkedEntriesAlloc s.mem t.flowScheduler.entries).2.1 = mem at hstored ⊢
      generalize entriesAllocBlocks s.mem t.flowScheduler.entries (b.tenants i).store = grown
        at hstored ⊢
      obtain ⟨store, freed⟩ := grown
      have hpaid : ∀ {flows' : GroupScheduler FlowSessionContext} {n : ℕ},
          flows'.queueView = flows.queueView → flows'.entries.shape = flows.entries.shape →
          Paid s ({ s with mem := mem, totalActiveFlows := n }.setTenant i
              { t with flowScheduler := flows' }) b
            (b.setTenant i { b.tenants i with store := store }) 0 0 freed := by
        intro flows' n hview' hshape'
        apply Paid.flows ht (Nat.lt_of_not_le hslot) (hview'.trans hview)
        exact hstored.reshape hshape'
      have hconfView := fun id => configureEntry_queueView hsums' id a
      have hconfShape := fun id => configureEntry_shape hsums' id a
      cases (hwfqChunkedEntriesAlloc s.mem t.flowScheduler.entries).1 with
      | error status => exact hpaid rfl rfl
      | ok id =>
        specialize hconfView id
        specialize hconfShape id
        dsimp only
        generalize groupSchedulerConfigureEntry flows id a = conf at hconfView hconfShape ⊢
        obtain ⟨status, flows'⟩ := conf
        cases status with
        | success => exact hpaid hconfView hconfShape
        | _ => exact hpaid hconfView ((freeEntryOf_shape flows' id).trans hconfShape)

theorem SchedulerInv.reconfigureFlow_paid (h : SchedulerInv s) (i f : ℕ)
    (allocation : Option Allocation) (b : SchedulerBlocks) :
    Paid s (hwfqReconfigureFlow s i f allocation).2 b b 0 0 0 := by
  unfold hwfqReconfigureFlow
  cases allocation with
  | none => exact .refl s b 0
  | some a =>
    dsimp only
    split_ifs with hreserved hslot hvalid
    · exact .refl s b 0
    · exact .refl s b 0
    · exact .refl s b 0
    cases ht : s.configuredTenant i with
    | none => exact .refl s b 0
    | some t =>
      replace ht := configuredTenant_some ht
      have hsums := (h.tenants i t ht).flows.group.sums
      dsimp only
      split_ifs
      · exact .refl s b 0
      · exact .sameFlows (n := s.totalActiveFlows) ht (Nat.lt_of_not_le hslot)
          (configureEntry_queueView hsums f a) (configureEntry_shape hsums f a) b rfl

theorem Paid.removeFlow (s : Scheduler) (i f : ℕ) (b : SchedulerBlocks) :
    Paid s (hwfqRemoveFlow s i f).2 b b 0 0 0 := by
  unfold hwfqRemoveFlow
  generalize (if s.totalActiveFlows > 0 then s.totalActiveFlows - 1 else s.totalActiveFlows) = n
  split_ifs with hslot
  · exact .refl s b 0
  cases ht : s.configuredTenant i with
  | none => exact .refl s b 0
  | some t =>
    replace ht := configuredTenant_some ht
    dsimp only
    cases findFlowEntry t f with
    | none => exact .refl s b 0
    | some entry =>
      dsimp only
      split_ifs
      · exact .refl s b 0
      · have hview : (freeEntryOf (groupSchedulerRemoveEntry t.flowScheduler f).2 f).queueView =
            t.flowScheduler.queueView := removeEntry_queueView t.flowScheduler f
        exact .sameFlows ht (Nat.lt_of_not_le hslot) hview
          ((freeEntryOf_shape _ f).trans (removeEntry_shape t.flowScheduler f)) b rfl

/-! ## A new tenant -/

/-- The store of the system scheduler may have grown. -/
theorem Paid.stored {mem : Allocator} {system : GroupScheduler TenantPtr} {b : SchedulerBlocks}
    {store : StoreBlocks} {freed : List Addr}
    (hview : system.queueView = s.systemScheduler.queueView)
    (hstored : Stored s.mem mem s.systemScheduler.entries system.entries b.store (store, freed))
    (held : Multiset ℕ) :
    Paid s { s with mem := mem, systemScheduler := system } b { b with store := store } held held
      freed := by
  have hsame : system.sessions = s.systemScheduler.sessions := by
    rw [GroupScheduler.sessions, queued_of_queueView hview, GroupScheduler.sessions]
  constructor
  · apply hstored.tally.exchange
    unfold liveBlocks frameLive slotsLive flightLive
    dsimp only
    rw [hsame]
    change _ + (_ + (∑ i ∈ Finset.range s.maxTenants, slotLive (b.tenants i) (s.cores i)) + _) + _ = _
    abel
  · intro hb
    exact ⟨hstored.mirrors, hb.tenants⟩

/-- The tenant goes into its slot. -/
theorem Paid.occupy {s' : Scheduler} {b : SchedulerBlocks} {tb : TenantBlocks}
    (hfree : s.tenants i = none) (hi : i < s.maxTenants)
    (htenants : s'.tenants = Function.update s.tenants i (some t)) (hmem : s'.mem = s.mem)
    (hsystem : s'.systemScheduler = s.systemScheduler) (hconfig : s'.config = s.config)
    (hflight : s'.inFlight = s.inFlight)
    (hmirrors : Mirrors tb.store t.flowScheduler.entries) :
    Paid s s' b (b.setTenant i tb) (tenantLive tb t.addr t.flowScheduler) 0 0 := by
  apply Paid.slot (v := some t.core) hi (cores_of_tenants htenants) hsystem hconfig hflight
  · intro _ u hu
    obtain rfl := Option.some.inj hu
    exact hmirrors
  · have hold : s.cores i = none := by
      rw [Scheduler.cores, hfree]
      rfl
    rw [hold, hmem]
    apply Tally.of_eq
    exact add_comm 0 (tenantLive tb t.addr t.flowScheduler)

/-- The end of adding a tenant: its blocks go into a slot, or they are freed. -/
theorem SchedulerInv.install_paid (h : SchedulerInv s) {b : SchedulerBlocks} (hb : Backed s b)
    (addr : Addr) (a : Allocation) {flows : GroupScheduler FlowSessionContext}
    (hflows : ∀ i, FlowsInv s.mem i flows)
    (hgrid : flows.numBins = u32 (flows.numGroups * flows.binsPerGroup)) {tb : TenantBlocks}
    (hmirrors : Mirrors tb.store flows.entries) :
    Paid s (installTenant s addr a flows).2.2 b (installBlocks s b addr a flows tb).1
      (tenantLive tb addr flows) 0 (installBlocks s b addr a flows tb).2 := by
  have hstored := hb.system.entriesAlloc s.mem
  have hsums := h.system.group.sums
  have hcase := (h.install addr a hflows).2
  have hfrees := tenantFrees_live hmirrors hgrid (hflows 0).carried addr
  have hview : (allocEntryOf s.mem s.systemScheduler).2.2.queueView =
    s.systemScheduler.queueView := rfl
  have hsums' : SumsFit (allocEntryOf s.mem s.systemScheduler).2.2 := ⟨hsums.rates, hsums.weights⟩
  have hsame : allocEntryOf s.mem s.systemScheduler =
      ((hwfqChunkedEntriesAlloc s.mem s.systemScheduler.entries).1,
        (hwfqChunkedEntriesAlloc s.mem s.systemScheduler.entries).2.1,
        (allocEntryOf s.mem s.systemScheduler).2.2) := rfl
  have hent : (allocEntryOf s.mem s.systemScheduler).2.2.entries =
      (hwfqChunkedEntriesAlloc s.mem s.systemScheduler.entries).2.2 := rfl
  unfold installTenant at hcase ⊢
  unfold installBlocks
  rw [hsame] at hcase ⊢
  rw [← hent] at hstored
  generalize (allocEntryOf s.mem s.systemScheduler).2.2 = system at hstored hview hsums' hcase ⊢
  generalize (hwfqChunkedEntriesAlloc s.mem s.systemScheduler.entries).2.1 = mem at hstored hcase ⊢
  generalize entriesAllocBlocks s.mem s.systemScheduler.entries b.store = grown at hstored ⊢
  obtain ⟨store, freed⟩ := grown
  have hgrown := Paid.stored hview hstored (tenantLive tb addr flows)
  have hback : ∀ (s' : Scheduler) (b' : SchedulerBlocks),
      Paid s' s' b' b' (tenantLive tb addr flows) 0 (tenantFrees addr flows tb) := by
    intro s' b'
    have hfree := Paid.free s' b' 0 (tenantLive tb addr flows)
    rw [hfrees]
    rwa [add_zero] at hfree
  generalize (hwfqChunkedEntriesAlloc s.mem s.systemScheduler.entries).1 = ret at hcase ⊢
  cases ret with
  | error status =>
    exact (hgrown.trans (hback _ _)).of_eq rfl rfl (Multiset.coe_add _ _).symm
  | ok id =>
    have hconfView := configureEntry_queueView hsums' id a
    have hconfShape := configureEntry_shape hsums' id a
    dsimp only at hcase ⊢
    generalize groupSchedulerConfigureEntry system id a = conf at hconfView hconfShape hcase ⊢
    obtain ⟨status, system'⟩ := conf
    cases status with
    | success =>
      rcases hcase with ⟨hbad, -⟩ | ⟨j, -, hj, hadm⟩
      · exact absurd rfl hbad
      obtain rfl := Option.some.inj hj
      have hconf := hgrown.trans (Paid.system hconfView hconfShape _ _)
      have hslot : Paid { s with mem := mem, systemScheduler := system' }
          (Hwfq.installed s mem system' id (newTenant addr id a flows)) { b with store := store }
          (SchedulerBlocks.setTenant { b with store := store } id tb) (tenantLive tb addr flows) 0
          0 := by
        apply Paid.occupy (t := newTenant addr id a flows)
        · exact hadm.free
        · exact hadm.within
        · rfl
        · rfl
        · rfl
        · rfl
        · rfl
        · exact hmirrors
      exact (hconf.trans hslot).of_eq rfl rfl (by rw [add_zero, add_zero])
    | _ =>
      have hfreedView : (freeEntryOf system' id).queueView = system.queueView := hconfView
      have hfreedShape := (freeEntryOf_shape system' id).trans hconfShape
      have hconf := hgrown.trans (Paid.system hfreedView hfreedShape _ _)
      exact (hconf.trans (hback _ _)).of_eq rfl rfl (by rw [add_zero, Multiset.coe_add])

/-- Blocks that only the call knows of. -/
theorem Paid.held {mem : Allocator} {held held' freed : Multiset ℕ}
    (h : Tally s.mem.next mem.next held held' freed) (b : SchedulerBlocks) :
    Paid s { s with mem := mem } b b held held' freed := by
  refine ⟨?_, fun hb => ⟨hb.system, hb.tenants⟩⟩
  have hframed := h.frame (liveBlocks s b)
  rw [add_comm _ held, add_comm _ held'] at hframed
  exact hframed

theorem newFlowEntries_stored (s : Scheduler) (mem : Allocator) :
    Stored mem (newFlowEntries s mem).1
      (hwfqChunkedEntriesInit (u32 (s.config.maxFlowsPerTenant.toNat + 1)))
      (newFlowEntries s mem).2 noStore (entriesAllocBlocks mem
        (hwfqChunkedEntriesInit (u32 (s.config.maxFlowsPerTenant.toNat + 1))) noStore) := by
  have hstored := (Mirrors.init (u32 (s.config.maxFlowsPerTenant.toNat + 1))).entriesAlloc mem
  unfold newFlowEntries
  dsimp only
  cases (hwfqChunkedEntriesAlloc mem
    (hwfqChunkedEntriesInit (u32 (s.config.maxFlowsPerTenant.toNat + 1)))).1 with
  | error status => exact hstored
  | ok id =>
    apply hstored.reshape
    exact shape_write _ id fun e => { e with configured := false }

theorem noStore_live (maxEntries : ℕ) :
    noStore.live (hwfqChunkedEntriesInit maxEntries).numChunks = 0 := rfl

theorem noSessions {α : Type*} {mem mem' : Allocator} {groups bins capacity n : ℕ}
    {entries : ChunkedEntries} {gs : GroupScheduler α}
    (h : groupSchedulerInitWithEntries α mem groups bins capacity n entries = (some gs, mem')) :
    gs.queued = 0 ∧ gs.numBins = u32 (gs.numGroups * gs.binsPerGroup) ∧ gs.entries = entries := by
  obtain ⟨hbins, -, -, hent, -, -, -, -, -, -, hgeo, -⟩ := init_some h
  have hnum : gs.numBins = _ := congrArg Geometry.numBins hgeo
  have hgroups : gs.numGroups = _ := congrArg Geometry.numGroups hgeo
  have hper : gs.binsPerGroup = _ := congrArg Geometry.binsPerGroup hgeo
  refine ⟨?_, ?_, hent⟩
  · exact Bins.contents_eq_zero fun b _ => hbins b
  · rw [hnum, hgroups, hper]

/-- A tenant object, its store and its group scheduler, as far as they could be made. -/
theorem builtBlocks {mem₁ mem₂ mem₃ : Allocator} {ce entries : ChunkedEntries}
    {store : StoreBlocks} {grown failed : List Addr} {group : Option GroupBlocks}
    (hstored : Stored mem₁ mem₂ ce entries noStore (store, grown))
    (hgroup : Tally mem₂.next mem₃.next 0 (group.elim 0 GroupBlocks.live) failed) (addr : Addr) :
    Tally mem₁.next mem₃.next ({addr} + noStore.live ce.numChunks)
      ({addr} + store.live entries.numChunks + group.elim 0 GroupBlocks.live)
      ((grown : Multiset ℕ) + failed) := by
  have hstore := hstored.tally.frame {addr}
  have hrest := hgroup.frame ({addr} + store.live entries.numChunks)
  rw [add_zero] at hrest
  exact hstore.trans hrest

/-- The blocks of a new tenant are built one after the other, and a failure frees them. -/
theorem SchedulerInv.addTenant_paid (h : SchedulerInv s) {b : SchedulerBlocks} (hb : Backed s b)
    (allocation : Option Allocation) (out : Bool) :
    Paid s (hwfqAddTenant s allocation out).2.2 b (addTenantBlocks s b allocation out).1 0 0
      (addTenantBlocks s b allocation out).2 := by
  unfold hwfqAddTenant addTenantBlocks
  cases allocation with
  | none => exact .refl s b 0
  | some a =>
    dsimp only
    split_ifs
    · exact .refl s b 0
    · exact .refl s b 0
    · exact .refl s b 0
    · exact .refl s b 0
    cases halloc : hwfqAlloc s.mem 1 with
    | mk p mem₁ =>
      have hn₁ := hwfqAlloc_next_le s.mem 1
      rw [halloc] at hn₁
      cases p with
      | none => exact .refused halloc b 0
      | some addr =>
        have hgranted := Paid.granted halloc b 0
        have hstored := newFlowEntries_stored s mem₁
        obtain ⟨hblank, ⟨live, hpool⟩, hn₂, -⟩ := newFlowEntries_spec s mem₁
        dsimp only
        generalize hn : u32 (s.config.maxFlowsPerTenant.toNat + 1) = n at hstored ⊢
        generalize newFlowEntries s mem₁ = made at hstored hblank hpool hn₂ ⊢
        obtain ⟨mem₂, entries⟩ := made
        generalize entriesAllocBlocks mem₁ (hwfqChunkedEntriesInit n) noStore = grown at hstored ⊢
        obtain ⟨store, freed⟩ := grown
        dsimp only at hstored hblank hpool hn₂ ⊢
        obtain ⟨hsome, hgroup⟩ := groupInit_tally FlowSessionContext mem₂ s.numGroups s.binsPerGroup
          (tenantShare s.totalCapacity a) n entries
        have hn₃ := (initWithEntries_mem FlowSessionContext mem₂ s.numGroups s.binsPerGroup
          (tenantShare s.totalCapacity a) n entries).1
        have hclean := fun g => @groupInitBlocks_some mem₂ s.numGroups s.binsPerGroup n g
        generalize groupInitBlocks mem₂ s.numGroups s.binsPerGroup n = built
          at hsome hgroup hclean ⊢
        obtain ⟨group, failed⟩ := built
        cases hinit : groupSchedulerInitWithEntries FlowSessionContext mem₂ s.numGroups s.binsPerGroup
            (tenantShare s.totalCapacity a) n entries with
        | mk flows mem₃ =>
          rw [hinit] at hsome hgroup hn₃
          dsimp only at hsome hgroup hn₃ ⊢
          have hheld := hgranted.trans (.held (builtBlocks hstored hgroup addr) b)
          cases flows with
          | none =>
            cases group with
            | some group => cases hsome
            | none =>
              have hall := hheld.trans (.free _ b 0 ({addr} + store.live entries.numChunks))
              refine hall.of_eq rfl rfl ?_
              rw [← Multiset.coe_add, ← Multiset.coe_add, ← Multiset.coe_add,
                hstored.mirrors.destroys, Multiset.coe_singleton]
              abel
          | some flows =>
            cases group with
            | none => cases hsome
            | some group =>
              obtain ⟨hqueued, hgrid, hent⟩ := noSessions hinit
              have hfresh : Fresh s.numGroups s.binsPerGroup (tenantShare s.totalCapacity a) n
                  (⟨mem₃, flows⟩ : GroupState FlowSessionContext) :=
                ⟨mem₂, entries, hblank.unconfigured, hinit⟩
              have hflows : ∀ i, FlowsInv mem₃ i flows := fun i =>
                FlowsInv.fresh hfresh (hent ▸ hpool) i
              have hinv := h.withMem ((hn₁.trans hn₂).trans hn₃)
              have hb₃ : Backed { s with mem := mem₃ } b := ⟨hb.system, hb.tenants⟩
              have hmirrors : Mirrors (⟨store, group⟩ : TenantBlocks).store flows.entries :=
                hent ▸ hstored.mirrors
              have hinstall := hinv.install_paid hb₃ addr a hflows hgrid hmirrors
              have hempty : flowsLive flows = 0 := by
                rw [flowsLive, GroupScheduler.sessions, contexts, hqueued]
                rfl
              have hown : {addr} + store.live entries.numChunks + group.live =
                  tenantLive ⟨store, group⟩ addr flows := by
                rw [tenantLive, hempty, hent, add_zero]
              have hall := (hheld.of_eq rfl hown.symm rfl).trans hinstall
              refine hall.of_eq rfl rfl ?_
              rw [show failed = [] from hclean group rfl, Multiset.coe_nil, add_zero, zero_add]
              exact (Multiset.coe_add _ _).symm

end Hwfq
