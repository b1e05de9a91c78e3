import Hwfq.SchedulerLedgers

/-!
# The flows of all tenants

The store of a tenant hands out id 0 when the tenant is added, so that no flow gets it.
With id 0 taken, the live slots are id 0 and the configured flows, and the number of
active flows is the number of configured flows over all tenants.
-/
namespace Hwfq
open GuardedRuns Bins

/-! ## The ids of one tenant -/

/-- The configured flows of a tenant. -/
def flowIds (t : Tenant) : Finset ℕ :=
  (Finset.range t.flowScheduler.maxEntries).filter fun id => (findFlowEntry t id).isSome = true

/-- Id 0 and the configured flows are live, and the store has room for `maxFlows` of them. -/
structure Enrolled {α : Type*} (maxFlows : ℕ) (gs : GroupScheduler α) (live : Finset ℕ) : Prop where
  pool : PoolInv gs.entries live
  reserved : flowIdReserved ∈ live
  flows : ∀ id, (activeEntry gs id).isSome = true ↔ id ∈ live ∧ id ≠ flowIdReserved
  store : gs.entries.limit = maxFlows + 1
  bound : gs.maxEntries = maxFlows + 1

section Enrolled
variable {α : Type*} {maxFlows : ℕ} {gs gs' : GroupScheduler α} {live live' : Finset ℕ}
  {mem : Allocator}

/-- The same ids are configured, under the same bounds. -/
structure SameFlows (gs gs' : GroupScheduler α) : Prop where
  active : ∀ id, (activeEntry gs' id).isSome = (activeEntry gs id).isSome
  limit : gs'.entries.limit = gs.entries.limit
  maxEntries : gs'.maxEntries = gs.maxEntries

theorem SameFlows.trans {gs₁ gs₂ : GroupScheduler α} (h : SameFlows gs gs₁)
    (h' : SameFlows gs₁ gs₂) : SameFlows gs gs₂ where
  active id := (h'.active id).trans (h.active id)
  limit := h'.limit.trans h.limit
  maxEntries := h'.maxEntries.trans h.maxEntries

theorem SameBooks.sameFlows (h : SameBooks gs gs') : SameFlows gs gs' where
  active id := by
    have hsame := congrArg Option.isSome (congrFun h.allocations id)
    rw [entryAllocations, entryAllocations, Option.isSome_map, Option.isSome_map] at hsame
    exact hsame
  limit := h.limit
  maxEntries := congrArg Bounds.maxEntries h.bounds

theorem Enrolled.pooled (h : Enrolled maxFlows gs live) (hpool : PooledInv mem gs live') :
    PooledInv mem gs live :=
  ⟨hpool.group, h.pool, hpool.bounded, hpool.exact⟩

theorem Enrolled.same (h : Enrolled maxFlows gs live) (hsame : SameFlows gs gs')
    (hpool : PoolInv gs'.entries live) : Enrolled maxFlows gs' live where
  pool := hpool
  reserved := h.reserved
  flows id := by rw [hsame.active, h.flows]
  store := hsame.limit.trans h.store
  bound := hsame.maxEntries.trans h.bound

/-- A reconfigured flow is one already. -/
theorem Enrolled.configure (h : Enrolled maxFlows gs live) (hpool : PooledInv mem gs live')
    {id : ℕ} (hact : (activeEntry gs id).isSome = true) (a : Allocation) :
    Enrolled maxFlows (groupSchedulerConfigureEntry gs id a).2 live where
  pool := ((h.pooled hpool).configure ((h.flows id).mp hact).1 a).pool
  reserved := h.reserved
  flows j := by
    rw [← h.flows]
    rcases (h.pooled hpool).configure_cases id a with ⟨-, heq⟩ | ⟨-, -, entry, -, -, -, hafter⟩
    · rw [heq]
    · rw [hafter]
      by_cases hj : j = id
      · subst hj
        rw [if_pos rfl]
        exact iff_of_true rfl hact
      · rw [if_neg hj]
  store := (configureEntry_limit (h.pooled hpool) id a).trans h.store
  bound := (congrArg Bounds.maxEntries
    (configureEntry_bounds hpool.group.sums id a)).trans h.bound

/-- A slot that is handed out is not id 0 and no flow has it. Configuring it makes a new
flow, or it is given back. -/
theorem Enrolled.admit (h : Enrolled maxFlows gs live) (hpool : PooledInv mem gs live') {id : ℕ}
    {mem' : Allocator} {gs₁ : GroupScheduler α}
    (halloc : allocEntryOf mem gs = (.ok id, mem', gs₁)) (a : Allocation) :
    id ∉ live ∧ id ≤ maxFlows ∧
      ((groupSchedulerConfigureEntry gs₁ id a).1 = .success →
        Enrolled maxFlows (groupSchedulerConfigureEntry gs₁ id a).2 (insert id live)) ∧
      ((groupSchedulerConfigureEntry gs₁ id a).1 ≠ .success →
        Enrolled maxFlows (freeEntryOf (groupSchedulerConfigureEntry gs₁ id a).2 id) live) := by
  have hbooks := SameBooks.alloc (h.pooled hpool) (le_refl mem.next)
  obtain ⟨-, hact, -, hcase⟩ := (h.pooled hpool).alloc (le_refl mem.next)
  rw [halloc] at hbooks hact hcase
  dsimp only at hbooks hact hcase
  rcases hcase with ⟨ret, hret, -⟩ | ⟨id', hret, hnew, -, hpool₁, -⟩
  · cases hret
  cases hret
  have hlimit : gs₁.entries.limit = maxFlows + 1 := hbooks.limit.trans h.store
  have hlt := (hpool₁.pool.live_lt id (Finset.mem_insert_self id live)).trans_le hpool₁.pool.within
  have hnone : activeEntry gs₁ id = none := by
    rw [hact]
    exact activeEntry_eq_none ((h.pooled hpool).pool.idle id hnew)
  have hreserved : id ≠ flowIdReserved := fun heq => hnew (heq ▸ h.reserved)
  have hbound : gs₁.maxEntries = maxFlows + 1 :=
    (congrArg Bounds.maxEntries hbooks.bounds).trans h.bound
  refine ⟨hnew, by omega, ?_, ?_⟩
  · intro hok
    rcases hpool₁.configure_cases id a with ⟨hbad, -⟩ | ⟨-, -, entry, -, -, -, hafter⟩
    · exact absurd hok hbad
    refine ⟨(hpool₁.configure (Finset.mem_insert_self id live) a).pool,
      Finset.mem_insert_of_mem h.reserved, ?_, (configureEntry_limit hpool₁ id a).trans hlimit,
      (congrArg Bounds.maxEntries (configureEntry_bounds hpool₁.group.sums id a)).trans hbound⟩
    intro j
    rw [hafter]
    by_cases hj : j = id
    · subst hj
      rw [if_pos rfl]
      exact iff_of_true rfl ⟨Finset.mem_insert_self j live, hreserved⟩
    · rw [if_neg hj, hact, h.flows, Finset.mem_insert, or_iff_right hj]
  · intro hbad
    rcases hpool₁.configure_cases id a with ⟨-, heq⟩ | ⟨hok, -⟩
    · rw [heq]
      obtain ⟨hfree, -⟩ := hpool₁.free (Finset.mem_insert_self id live) hnone
      rw [Finset.erase_insert hnew] at hfree
      have hbooks' := hbooks.trans (.free hpool₁ (Finset.mem_insert_self id live) hnone)
      exact h.same hbooks'.sameFlows hfree.pool
    · exact absurd hok hbad

theorem Enrolled.exhausted (h : Enrolled maxFlows gs live) (hpool : PooledInv mem gs live')
    {ret : Status} {mem' : Allocator} {gs₁ : GroupScheduler α}
    (halloc : allocEntryOf mem gs = (.error ret, mem', gs₁)) : Enrolled maxFlows gs₁ live := by
  have hbooks := SameBooks.alloc (h.pooled hpool) (le_refl mem.next)
  obtain ⟨-, -, -, hcase⟩ := (h.pooled hpool).alloc (le_refl mem.next)
  rw [halloc] at hbooks hcase
  rcases hcase with ⟨_, -, hpool₁⟩ | ⟨id, hret, -⟩
  · exact h.same hbooks.sameFlows hpool₁.pool
  · cases hret

theorem Enrolled.retire (h : Enrolled maxFlows gs live) (hpool : PooledInv mem gs live') {id : ℕ}
    (hact : (activeEntry gs id).isSome = true) :
    Enrolled maxFlows (freeEntryOf (groupSchedulerRemoveEntry gs id).2 id) (live.erase id) := by
  obtain ⟨hfree, hafter, -⟩ := (h.pooled hpool).retire hact
  have hid := (h.flows id).mp hact
  refine ⟨hfree.pool, Finset.mem_erase.mpr ⟨hid.2.symm, h.reserved⟩, ?_,
    ((entriesFree_limit _ id).trans (removeEntry_limit gs id)).trans h.store,
    (congrArg Bounds.maxEntries (removeEntry_bounds gs id)).trans h.bound⟩
  intro j
  rw [hafter, Finset.mem_erase]
  by_cases hj : j = id
  · rw [if_pos hj]
    exact iff_of_false (by simp) fun hin => hin.1.1 hj
  · rw [if_neg hj, h.flows]
    exact ⟨fun hin => ⟨⟨hj, hin.1⟩, hin.2⟩, fun hin => ⟨hin.1.2, hin.2⟩⟩

end Enrolled

section Ids
variable {maxFlows : ℕ} {t : Tenant} {live : Finset ℕ}

theorem Enrolled.flowIds_eq (h : Enrolled maxFlows t.flowScheduler live) :
    flowIds t = live.erase flowIdReserved := by
  ext id
  have hactive : (findFlowEntry t id).isSome = true ↔ id ∈ live ∧ id ≠ flowIdReserved := by
    rw [← h.flows, activeEntry_eq, Option.isSome_map, findFlowEntry]
  rw [flowIds, Finset.mem_filter, Finset.mem_range, hactive, Finset.mem_erase]
  constructor
  · intro hid
    exact ⟨hid.2.2, hid.2.1⟩
  · intro hid
    have hlt := (h.pool.live_lt id hid.2).trans_le h.pool.within
    rw [h.store] at hlt
    exact ⟨h.bound ▸ hlt, hid.2, hid.1⟩

theorem Enrolled.card (h : Enrolled maxFlows t.flowScheduler live) :
    (flowIds t).card + 1 = t.flowScheduler.entries.numConfigured := by
  rw [h.flowIds_eq, Finset.card_erase_add_one h.reserved, h.pool.count]

theorem Enrolled.card_le (h : Enrolled maxFlows t.flowScheduler live) :
    (flowIds t).card ≤ maxFlows := by
  have hsub : live ⊆ Finset.range t.flowScheduler.entries.numAllocated := fun id hid =>
    Finset.mem_range.mpr (h.pool.live_lt id hid)
  have hcard := Finset.card_le_card hsub
  have hwithin := h.pool.within
  have hcount := h.card
  rw [Finset.card_range] at hcard
  rw [h.pool.count] at hcount
  rw [h.store] at hwithin
  omega

end Ids

/-! ## Traces -/

section Traces
variable {α : Type*} {gs gs' : GroupScheduler α}

theorem QueueTrace.sameFlows (h : QueueTrace gs gs') : SameFlows gs gs' := by
  refine ⟨h.ratesKept.active, ?_, ?_⟩
  · induction h with
    | refl => rfl
    | @enqueue gs' mem id w ud cf _ ih => exact (QueueStep.enqueue mem gs' id w ud cf).limit.trans ih
    | @dequeue gs' _ ih => exact (congrArg (fun l => l.entries.limit) (dequeue_ledger gs')).trans ih
    | @update gs' w _ ih => exact (QueueStep.update gs' w).limit.trans ih
  · induction h with
    | refl => rfl
    | @enqueue gs' mem id w ud cf _ ih =>
      exact (congrArg Bounds.maxEntries (QueueStep.enqueue mem gs' id w ud cf).bounds).trans ih
    | @dequeue gs' _ ih => exact (congrArg Ledger.maxEntries (dequeue_ledger gs')).trans ih
    | @update gs' w _ ih => exact (updateVirtualTime_totals gs' w).2.1.trans ih

theorem QueueTrace.pool {live : Finset ℕ} (h : QueueTrace gs gs')
    (hlist : ∀ id ∈ gs.configuredEntries, id ∈ live) (hpool : PoolInv gs.entries live) :
    PoolInv gs'.entries live := by
  induction h with
  | refl => exact hpool
  | @enqueue gs' mem id w ud cf _ ih =>
    rcases enqueue_cases mem gs' id w ud cf with ⟨-, heq, -⟩ | ⟨-, -, -, -, entry, hadm, -⟩
    · rw [heq]
      exact ih
    · have hact : (activeEntry gs' id).isSome = true := by
        rw [activeEntry_eq, hadm.found, Option.map_some, Option.isSome_some]
      rcases enqueue_entries mem gs' id w ud cf with heq | ⟨n, heq⟩
      · rw [heq]
        exact ih
      · rw [heq]
        exact ih.write (ih.mem_of_active hact) _
  | @dequeue gs' _ ih =>
    have hentries : (groupSchedulerDequeue gs').2.entries = gs'.entries :=
      congrArg Ledger.entries (dequeue_ledger gs')
    rw [hentries]
    exact ih
  | @update gs' w h ih =>
    rcases updateVirtualTime_cases gs' w with ⟨-, heq⟩ | ⟨-, heq⟩
    · rw [heq]
      exact ih
    · rw [heq]
      exact ih.writeAll (fun id hid => hlist id (h.ratesKept.configuredEntries ▸ hid)) _

end Traces

theorem TenantTrace.sameFlows {c : Call} {t u : Tenant} (h : TenantTrace c t u) :
    SameFlows t.flowScheduler u.flowScheduler := by
  induction h with
  | refl => exact ⟨fun _ => rfl, rfl, rfl⟩
  | queue _ trace ih => exact ih.trans trace.sameFlows
  | @stats u f _ flowId _ ih => exact ih.trans (u.mapStats_sameBooks flowId f).sameFlows
  | reset _ _ reset ih =>
    obtain ⟨which, hentries⟩ := reset.entries
    have hsame := reset.same
    rw [hsame]
    exact ih.trans (SameBooks.reset hentries).sameFlows
  | allocation _ _ ih => exact ih

theorem TenantTrace.pool {c : Call} {t u : Tenant} {live : Finset ℕ} (h : TenantTrace c t u)
    (hlist : ∀ id ∈ t.flowScheduler.configuredEntries, id ∈ live)
    (hpool : PoolInv t.flowScheduler.entries live) : PoolInv u.flowScheduler.entries live := by
  induction h with
  | refl => exact hpool
  | queue h trace ih =>
    exact trace.pool (fun id hid => hlist id (h.ratesKept.configuredEntries ▸ hid)) ih
  | @stats u f _ flowId _ ih =>
    unfold Tenant.mapStats
    dsimp only
    split_ifs with hfind
    · exact ih.write (ih.mem_of_active (activeEntry_of_findFlowEntry hfind))
        fun e => { e with stats := f e.stats }
    · exact ih
  | reset _ _ reset ih =>
    obtain ⟨which, hentries⟩ := reset.entries
    apply ih.mapped hentries.same hentries.get
    · intro j e
      split_ifs
      · exact resetFlowStats_entryId e
      · rfl
    · intro j e
      split_ifs
      · exact resetFlowStats_configured e
      · rfl
  | allocation _ _ ih => exact ih

theorem Enrolled.trace {maxFlows : ℕ} {c : Call} {t u : Tenant} {live live' : Finset ℕ} {mem : Allocator}
    (h : Enrolled maxFlows t.flowScheduler live) (hpool : PooledInv mem t.flowScheduler live')
    (htrace : TenantTrace c t u) : Enrolled maxFlows u.flowScheduler live := by
  apply h.same htrace.sameFlows
  exact htrace.pool (fun _ hid => (h.pooled hpool).listed_live hid) h.pool

/-! ## The reserved id -/

/-- The first slot of an empty store is id 0, when its chunk is granted. -/
theorem alloc_first {mem : Allocator} {n : ℕ} (hn : 0 < n) (hok : mem.ok 0 = true)
    (hok' : mem.ok 1 = true) :
    (hwfqChunkedEntriesAlloc mem (hwfqChunkedEntriesInit n)).1 = .ok flowIdReserved := by
  have hlimit : ¬ (hwfqChunkedEntriesInit n).numConfigured ≥ (hwfqChunkedEntriesInit n).limit := by
    have hmax : (hwfqChunkedEntriesInit n).limit = n := if_pos hn
    rw [hmax]
    exact Nat.not_le.mpr hn
  unfold hwfqChunkedEntriesAlloc
  rw [if_neg hlimit, if_neg (fun hne => hne rfl)]
  simp [allocFresh, allocateChunk, growChunks, hwfqChunkedEntriesInit, chunkShift, chunkMask,
    maxChunks, chunkSize, doubleUntil, hwfqAlloc, hok, hok', flowIdReserved]

theorem newFlowEntries_reserved (s : Scheduler) {mem : Allocator}
    (hn : 0 < u32 (s.config.maxFlowsPerTenant.toNat + 1)) (hok : mem.ok 0 = true)
    (hok' : mem.ok 1 = true) : PoolInv (newFlowEntries s mem).2 {flowIdReserved} := by
  have hfirst := alloc_first hn hok hok'
  unfold newFlowEntries
  generalize u32 (s.config.maxFlowsPerTenant.toNat + 1) = n at hn hfirst ⊢
  obtain ⟨-, ⟨ret, hret, -⟩ | ⟨id, hret, -, -, hpool, -⟩⟩ := (PoolInv.init n).alloc mem
  · rw [hret] at hfirst
    cases hfirst
  · dsimp only
    rw [hret] at hfirst ⊢
    cases hfirst
    rw [insert_empty_eq] at hpool
    exact hpool.write (Finset.mem_singleton_self _) fun e => { e with configured := false }

/-- The flow scheduler of a new tenant, when the chunk of id 0 is granted. -/
theorem enrolled_new {s : Scheduler} {mem₁ mem : Allocator} {capacity : ℕ}
    {flows : GroupScheduler FlowSessionContext} (hok : mem₁.ok 0 = true ∧ mem₁.ok 1 = true)
    (hinit : groupSchedulerInitWithEntries FlowSessionContext (newFlowEntries s mem₁).1 s.numGroups
      s.binsPerGroup capacity (u32 (s.config.maxFlowsPerTenant.toNat + 1))
      (newFlowEntries s mem₁).2 = (some flows, mem)) :
    Enrolled s.config.maxFlowsPerTenant.toNat flows {flowIdReserved} := by
  have hsize : u32 (s.config.maxFlowsPerTenant.toNat + 1) ≠ 0 := by
    intro hzero
    rw [hzero, groupSchedulerInitWithEntries, if_pos (.inr (.inr rfl))] at hinit
    cases hinit
  have hexact : u32 (s.config.maxFlowsPerTenant.toNat + 1) = s.config.maxFlowsPerTenant.toNat + 1 := by
    have hlt := s.config.maxFlowsPerTenant.toNat_lt
    unfold u32 at hsize ⊢
    omega
  have hpool := newFlowEntries_reserved s (Nat.pos_of_ne_zero hsize) hok.1 hok.2
  have hmax := newFlowEntries_maxEntries s mem₁
  have hblank := (newFlowEntries_spec s mem₁).1.unconfigured
  obtain ⟨-, -, -, hentries, -, -, -, -, -, -, -, -, -, hbound⟩ := init_some hinit
  rw [hexact] at hmax hbound
  rw [← hentries] at hpool hmax hblank
  refine ⟨hpool, Finset.mem_singleton_self _, ?_, ?_, hbound⟩
  · intro id
    rw [activeEntry_of_unconfigured hblank, Finset.mem_singleton]
    exact iff_of_false (by simp) fun hid => hid.2 hid.1
  · unfold ChunkedEntries.limit
    rw [hmax, if_pos (Nat.succ_pos _)]

theorem installTenant_tenants (s : Scheduler) (addr : Addr) (a : Allocation)
    (flows : GroupScheduler FlowSessionContext) :
    (installTenant s addr a flows).2.2.tenants = s.tenants ∨
      ∃ i, (installTenant s addr a flows).2.2.tenants =
        Function.update s.tenants i (some (newTenant addr i a flows)) := by
  unfold installTenant
  split
  · exact .inl rfl
  · split
    · exact .inr ⟨_, rfl⟩
    · exact .inl rfl

/-- The requests for the first chunk of the tenant's store are granted when the one for
the tenant is. -/
def ReservesFirst (s : Scheduler) : Prop :=
  s.mem.ok 0 = true → s.mem.ok 1 = true ∧ s.mem.ok 2 = true

instance (s : Scheduler) : Decidable (ReservesFirst s) :=
  inferInstanceAs (Decidable (s.mem.ok 0 = true → _))

theorem addTenant_enrolled {s : Scheduler} (hres : ReservesFirst s) (a : Option Allocation)
    (out : Bool) : (hwfqAddTenant s a out).2.2.tenants = s.tenants ∨
      ∃ i t, (hwfqAddTenant s a out).2.2.tenants = Function.update s.tenants i (some t) ∧
        Enrolled s.config.maxFlowsPerTenant.toNat t.flowScheduler {flowIdReserved} := by
  rcases addTenant_cases s a out with ⟨status, mem, -, heq⟩ |
    ⟨a, addr, mem₁, flows, mem, -, halloc, hinit, -, heq⟩
  · rw [heq]
    exact .inl rfl
  have hok : mem₁.ok 0 = true ∧ mem₁.ok 1 = true := by
    unfold hwfqAlloc at halloc
    rw [if_neg (by decide)] at halloc
    split_ifs at halloc with hgranted
    · cases halloc
      exact hres hgranted
    · cases halloc
  rw [heq]
  rcases installTenant_tenants { s with mem := mem } addr a flows with hsame | ⟨i, hupdate⟩
  · exact .inl hsame
  · exact .inr ⟨i, _, hupdate, enrolled_new hok hinit⟩

/-! ## The flows of all tenants -/

/-- The number of configured flows of what is in a slot. -/
def flowsAt (t : Option Tenant) : ℕ := t.elim 0 fun t => (flowIds t).card

def totalFlows (s : Scheduler) : ℕ := ∑ i ∈ Finset.range s.maxTenants, flowsAt (s.tenants i)

/-- Every tenant has at most `max_flows_per_tenant` flows, and the active flows are
counted and within their limit. -/
structure FlowRegistry (s : Scheduler) : Prop where
  perTenant : ∀ i t, s.tenants i = some t → (flowIds t).card ≤ s.config.maxFlowsPerTenant.toNat
  total : s.totalActiveFlows = totalFlows s
  limit : s.config.maxTotalFlows ≠ 0 → s.totalActiveFlows ≤ s.config.maxTotalFlows.toNat

/-- Id 0 is reserved when a tenant is added, and the count of flows does not wrap. -/
def KeepsRegistry (s : Scheduler) : Call → Prop
  | .addTenant _ _ => ReservesFirst s
  | .addFlow _ _ _ => s.totalActiveFlows < uint32Max
  | _ => True

/-- The invariant of a run that keeps the registry. -/
structure Registered (s : Scheduler) : Prop where
  inv : SchedulerInv s
  enrolled : ∀ i t, s.tenants i = some t →
    ∃ live, Enrolled s.config.maxFlowsPerTenant.toNat t.flowScheduler live
  total : s.totalActiveFlows = totalFlows s
  limit : s.config.maxTotalFlows ≠ 0 → s.totalActiveFlows ≤ s.config.maxTotalFlows.toNat

variable {s s' : Scheduler} {i : ℕ} {t : Tenant} {c : Call} {r : Response}

theorem Registered.registry (h : Registered s) : FlowRegistry s where
  perTenant i t ht := (h.enrolled i t ht).elim fun _ henrolled => henrolled.card_le
  total := h.total
  limit := h.limit

theorem flowsAt_le_totalFlows (h : SchedulerInv s) (ht : s.tenants i = some t) :
    (flowIds t).card ≤ totalFlows s := by
  have hle := Finset.single_le_sum (f := fun j => flowsAt (s.tenants j))
    (fun _ _ => Nat.zero_le _) (Finset.mem_range.mpr (h.lt_maxTenants ht))
  rw [ht] at hle
  exact hle

/-- One slot is written. -/
theorem totalFlows_update {v : Option Tenant} (hi : i < s.maxTenants)
    (hconfig : s'.config = s.config) (htenants : s'.tenants = Function.update s.tenants i v) :
    totalFlows s' + flowsAt (s.tenants i) = totalFlows s + flowsAt v := by
  have hmax : s'.maxTenants = s.maxTenants := congrArg (·.maxTenants.toNat) hconfig
  rw [totalFlows, htenants, hmax]
  exact sum_update flowsAt s.tenants v hi

/-! ## One step -/

/-- A slot is written, and the count follows. -/
theorem Registered.write (h : Registered s) (hinv : SchedulerInv s') {v : Option Tenant}
    (hi : i < s.maxTenants) (hconfig : s'.config = s.config)
    (htenants : s'.tenants = Function.update s.tenants i v)
    (hv : ∀ t, v = some t → ∃ live, Enrolled s.config.maxFlowsPerTenant.toNat t.flowScheduler live)
    (hcount : s'.totalActiveFlows + flowsAt (s.tenants i) = s.totalActiveFlows + flowsAt v)
    (hlimit : s.config.maxTotalFlows ≠ 0 → s'.totalActiveFlows ≤ s.config.maxTotalFlows.toNat) :
    Registered s' := by
  have hsum := totalFlows_update hi hconfig htenants
  have htotal := h.total
  refine ⟨hinv, ?_, by omega, ?_⟩
  · intro j t ht
    rw [hconfig]
    rw [htenants] at ht
    by_cases hj : j = i
    · subst hj
      rw [Function.update_self] at ht
      exact hv t ht
    · rw [Function.update_of_ne hj] at ht
      exact h.enrolled j t ht
  · rw [hconfig]
    exact hlimit

theorem Effect.totalActiveFlows (h : Effect s c r s') (hc : c.editsFlows = false) :
    s'.totalActiveFlows = s.totalActiveFlows := by
  cases h with
  | idle _ _ tokens => exact tokens.totalActiveFlows
  | added => cases hc
  | reallocated => rfl
  | removed => cases hc
  | flows update => cases update <;> cases hc
  | accepted _ _ _ _ _ _ changes => exact changes.totalActiveFlows
  | rejected _ _ _ _ changes => exact changes.totalActiveFlows
  | missed _ _ _ _ changes => exact changes.totalActiveFlows
  | putBack taken before => exact (before.changes_all taken).totalActiveFlows
  | delivered _ delivers => exact delivers.totalActiveFlows
  | completed _ _ ends => exact ends.totalActiveFlows
  | cancelled _ ends => exact ends.totalActiveFlows
  | timedOut only => exact only.totalActiveFlows
  | reset reset => rw [reset.same]

theorem SameFlows.flowIds {t' : Tenant} (h : SameFlows t.flowScheduler t'.flowScheduler) :
    Hwfq.flowIds t' = Hwfq.flowIds t := by
  have hfind : ∀ id, (findFlowEntry t' id).isSome = (findFlowEntry t id).isSome := by
    intro id
    have hactive := h.active id
    rw [activeEntry_eq, activeEntry_eq, Option.isSome_map, Option.isSome_map] at hactive
    exact hactive
  unfold Hwfq.flowIds
  rw [h.maxEntries]
  simp only [hfind]

/-- A call that edits no flow keeps the registry. -/
theorem Registered.follow (h : Registered s) (hc : c.editsFlows = false) :
    Registered (Hwfq.after s c) := by
  have heffect := h.inv.effect c
  have hfollow := heffect.tenantsFollow hc
  have hconfig := h.inv.after_config c
  have hmax : (Hwfq.after s c).maxTenants = s.maxTenants :=
    congrArg (·.maxTenants.toNat) hconfig
  have hcores : ∀ {s₁ : Scheduler} {j : ℕ} {u : Tenant}, s₁.tenants j = some u →
      s₁.cores j = some u.core := fun hu => cores_some hu
  have hslot : ∀ j, flowsAt ((Hwfq.after s c).tenants j) = flowsAt (s.tenants j) := by
    intro j
    have hj := hfollow j
    rw [Scheduler.cores, Scheduler.cores] at hj
    cases ht : s.tenants j with
    | none =>
      cases ht' : (Hwfq.after s c).tenants j with
      | none => rfl
      | some u =>
        rw [ht, ht'] at hj
        cases hj
    | some t =>
      cases ht' : (Hwfq.after s c).tenants j with
      | none =>
        rw [ht, ht'] at hj
        cases hj
      | some u =>
        rw [ht, ht', Option.map_some, Option.map_some] at hj
        cases hj with
        | some htrace =>
          have hsame : SameFlows t.flowScheduler u.flowScheduler := htrace.sameFlows
          exact congrArg Finset.card hsame.flowIds
  refine ⟨h.inv.after c, ?_, ?_, ?_⟩
  · intro j u hu
    have hj := hfollow j
    rw [hcores hu] at hj
    rw [hconfig]
    cases ht : s.tenants j with
    | none =>
      rw [Scheduler.cores, ht] at hj
      cases hj
    | some t =>
      rw [hcores ht] at hj
      obtain ⟨live, henrolled⟩ := h.enrolled j t ht
      obtain ⟨live', hpool⟩ := (h.inv.tenants j t ht).flows.pooled
      cases hj with
      | some htrace =>
        have hcore : Enrolled s.config.maxFlowsPerTenant.toNat t.core.flowScheduler live := henrolled
        have hlast := hcore.trace hpool htrace
        exact ⟨live, hlast⟩
  · rw [heffect.totalActiveFlows hc, h.total, totalFlows, totalFlows, hmax]
    simp only [hslot]
  · rw [heffect.totalActiveFlows hc, hconfig]
    exact h.limit

theorem Registered.tokensOnly (h : Registered s) (hinv : SchedulerInv s') (hsame : TokensOnly s s') :
    Registered s' := by
  have hmax : s'.maxTenants = s.maxTenants := congrArg (·.maxTenants.toNat) hsame.config
  have hslot : ∀ j, flowsAt (s'.tenants j) = flowsAt (s.tenants j) := by
    intro j
    have hcore : ∀ u : Option Tenant, flowsAt (u.map Tenant.core) = flowsAt u := by
      intro u
      cases u <;> rfl
    have hj := congrArg flowsAt (congrFun hsame.cores j)
    rw [Scheduler.cores, Scheduler.cores, hcore, hcore] at hj
    exact hj
  refine ⟨hinv, ?_, ?_, ?_⟩
  · intro j u hu
    have hcores := cores_some hu
    rw [hsame.cores] at hcores
    obtain ⟨t, ht, hcore⟩ := tenants_of_cores hcores
    have hsame' : t.core.flowScheduler = u.core.flowScheduler :=
      congrArg Tenant.flowScheduler hcore
    have hflows : u.flowScheduler = t.flowScheduler := hsame'.symm
    rw [hsame.config, hflows]
    exact h.enrolled j t ht
  · rw [hsame.totalActiveFlows, h.total, totalFlows, totalFlows, hmax]
    simp only [hslot]
  · rw [hsame.totalActiveFlows, hsame.config]
    exact h.limit

theorem Registered.addTenant (h : Registered s) (hres : ReservesFirst s) (a : Option Allocation)
    (out : Bool) : Registered (hwfqAddTenant s a out).2.2 := by
  obtain ⟨hinv, ⟨-, -, hsame⟩ | ⟨b, addr, flows, mem, i, -, -, -, -, -, hadm, -⟩⟩ :=
    h.inv.addTenant a out
  · exact h.tokensOnly hinv hsame
  have hnew : Enrolled s.config.maxFlowsPerTenant.toNat flows {flowIdReserved} := by
    have htable := hadm.tenants
    rcases addTenant_enrolled hres a out with hsame | ⟨j, u, hupdate, henrolled⟩
    · rw [hsame] at htable
      have hi := congrFun htable i
      rw [Function.update_self, hadm.free] at hi
      cases hi
    · rw [hupdate] at htable
      have hi := congrFun htable i
      rw [Function.update_self] at hi
      by_cases hji : i = j
      · subst hji
        rw [Function.update_self, Option.some.injEq] at hi
        have hflows : u.flowScheduler = flows := congrArg Tenant.flowScheduler hi
        exact hflows ▸ henrolled
      · rw [Function.update_of_ne hji, hadm.free] at hi
        cases hi
  have hempty : (flowIds (newTenant addr i b flows)).card = 0 := by
    have hcard := Enrolled.flowIds_eq (t := newTenant addr i b flows) hnew
    rw [hcard, Finset.erase_singleton, Finset.card_empty]
  refine h.write hinv hadm.within hadm.config hadm.tenants ?_ ?_ ?_
  · intro t ht
    rw [← Option.some.inj ht]
    exact ⟨_, hnew⟩
  · rw [hadm.totalActiveFlows, hadm.free]
    exact congrArg (s.totalActiveFlows + ·) hempty.symm
  · rw [hadm.totalActiveFlows]
    exact h.limit

/-- A tenant takes its flows along; its store counts them and id 0. -/
theorem Registered.removed (h : Registered s) (ht : s.tenants i = some t)
    (hinv : SchedulerInv (tenantRemoved s i t)) : Registered (tenantRemoved s i t) := by
  obtain ⟨live, henrolled⟩ := h.enrolled i t ht
  have hcard := henrolled.card
  have hle := flowsAt_le_totalFlows h.inv ht
  have htotal := h.total
  have hcount : (tenantRemoved s i t).totalActiveFlows = s.totalActiveFlows - (flowIds t).card := by
    have hafter : (tenantRemoved s i t).totalActiveFlows =
        activeFlowsAfter s.totalActiveFlows t.flowScheduler.entries.numConfigured := rfl
    rw [hafter, ← hcard, activeFlowsAfter, if_pos (Nat.succ_pos _), Nat.add_sub_cancel, if_pos]
    omega
  refine h.write (v := none) hinv (h.inv.lt_maxTenants ht) rfl rfl ?_ ?_ ?_
  · intro u hu
    cases hu
  · rw [hcount, ht]
    show s.totalActiveFlows - (flowIds t).card + (flowIds t).card = s.totalActiveFlows + 0
    omega
  · intro hpos
    rw [hcount]
    exact (Nat.sub_le _ _).trans (h.limit hpos)

/-- A flow scheduler is written with as many flows as before, one more or one less. -/
theorem Registered.flowsChange (h : Registered s) {n : ℕ}
    {flows : GroupScheduler FlowSessionContext} {live : Finset ℕ} (hinv : SchedulerInv s')
    (hchange : FlowsChange s s' i t flows n)
    (henrolled : Enrolled s.config.maxFlowsPerTenant.toNat flows live)
    (hcount : n + (flowIds t).card = s.totalActiveFlows + (live.erase flowIdReserved).card)
    (hlimit : s.config.maxTotalFlows ≠ 0 → n ≤ s.config.maxTotalFlows.toNat) :
    Registered s' := by
  have hids := Enrolled.flowIds_eq (t := { t with flowScheduler := flows }) henrolled
  refine h.write hinv (h.inv.lt_maxTenants hchange.tenant) hchange.config hchange.tenants ?_ ?_ ?_
  · intro u hu
    rw [← Option.some.inj hu]
    exact ⟨live, henrolled⟩
  · rw [hchange.totalActiveFlows, hchange.tenant]
    show n + (flowIds t).card = s.totalActiveFlows + (flowIds _).card
    rw [hids]
    exact hcount
  · rw [hchange.totalActiveFlows]
    exact hlimit

/-- The id of a new flow is not id 0, within the bound, and no flow of the tenant has it. -/
structure FreshFlowId (s : Scheduler) (i id : ℕ) : Prop where
  notReserved : id ≠ flowIdReserved
  within : id ≤ s.config.maxFlowsPerTenant.toNat
  unused : ∀ t ∈ s.tenants i, findFlowEntry t id = none

theorem Enrolled.card_flowIds {maxFlows : ℕ} {live : Finset ℕ}
    (h : Enrolled maxFlows t.flowScheduler live) :
    (flowIds t).card = (live.erase flowIdReserved).card := by
  rw [h.flowIds_eq]

theorem Registered.addFlow (h : Registered s) (hroom : s.totalActiveFlows < uint32Max) (i : ℕ)
    (a : Option Allocation) (out : Bool) : Registered (hwfqAddFlow s i a out).2.2 := by
  obtain ⟨hinv, ⟨-, heq⟩ | ⟨a, t, ret, mem, flows, -, ht, -, hfew, halloc, hcase⟩⟩ :=
    h.inv.addFlow i a out
  · have hstate : (hwfqAddFlow s i a out).2.2 = s := congrArg Prod.snd heq
    rw [hstate]
    exact h
  obtain ⟨live, henrolled⟩ := h.enrolled i t ht
  obtain ⟨live', hpool⟩ := (h.inv.tenants i t ht).flows.pooled
  have hcard := henrolled.card_flowIds
  rcases hcase with ⟨e, rfl, -, -, hchange⟩ | ⟨id, flows', rfl, hconf, hcase⟩
  · exact h.flowsChange hinv hchange (henrolled.exhausted hpool halloc) (by rw [hcard]) h.limit
  obtain ⟨hnew, -, hgood, hbad⟩ := henrolled.admit hpool halloc a
  rw [hconf] at hgood hbad
  rcases hcase with ⟨hok, -, hchange⟩ | ⟨hfail, -, hchange⟩
  · have hcount : u32 (s.totalActiveFlows + 1) = s.totalActiveFlows + 1 := u32_of_le hroom
    have hreserved : id ≠ flowIdReserved := fun heq => hnew (heq ▸ henrolled.reserved)
    have hinsert : ((insert id live).erase flowIdReserved).card =
        (live.erase flowIdReserved).card + 1 := by
      rw [Finset.erase_insert_of_ne hreserved, Finset.card_insert_of_notMem]
      exact fun hin => hnew (Finset.mem_of_mem_erase hin)
    refine h.flowsChange hinv hchange (hgood hok) ?_ ?_
    · rw [hcount, hinsert, hcard]
      omega
    · intro hpos
      rw [hcount]
      exact hfew (Nat.pos_of_ne_zero fun hzero => hpos (UInt32.toNat_inj.mp hzero))
  · exact h.flowsChange hinv hchange (hbad hfail) (by rw [hcard]) h.limit

theorem Registered.freshFlowId (h : Registered s) {a : Option Allocation} {out : Bool} {id : ℕ}
    (hid : (hwfqAddFlow s i a out).2.1 = some id) : FreshFlowId s i id := by
  obtain ⟨-, ⟨-, heq⟩ | ⟨a, t, ret, mem, flows, -, ht, -, -, halloc, hcase⟩⟩ := h.inv.addFlow i a out
  · rw [heq] at hid
    cases hid
  obtain ⟨live, henrolled⟩ := h.enrolled i t ht
  obtain ⟨live', hpool⟩ := (h.inv.tenants i t ht).flows.pooled
  rcases hcase with ⟨e, rfl, -, hnone, -⟩ | ⟨id', flows', rfl, -, hcase⟩
  · rw [hnone] at hid
    cases hid
  rcases hcase with ⟨-, hsome, -⟩ | ⟨-, hnone, -⟩
  · rw [hsome, Option.some.injEq] at hid
    subst hid
    obtain ⟨hnew, hle, -⟩ := henrolled.admit hpool halloc a
    refine ⟨fun heq => hnew (heq ▸ henrolled.reserved), hle, ?_⟩
    intro u hu
    rw [ht, Option.mem_some_iff] at hu
    subst hu
    by_contra hsome
    have hactive : (activeEntry t.flowScheduler id').isSome = true := by
      rw [activeEntry_eq, Option.isSome_map, Option.isSome_iff_ne_none]
      exact hsome
    exact hnew ((henrolled.flows id').mp hactive).1
  · rw [hnone] at hid
    cases hid

theorem Registered.removeFlow (h : Registered s) (i f : ℕ) :
    Registered (hwfqRemoveFlow s i f).2 := by
  obtain ⟨hinv, ⟨-, heq⟩ | ⟨t, entry, ht, hfind, -, -, hchange⟩⟩ := h.inv.removeFlow i f
  · rw [heq]
    exact h
  obtain ⟨live, henrolled⟩ := h.enrolled i t ht
  obtain ⟨live', hpool⟩ := (h.inv.tenants i t ht).flows.pooled
  have hfound : (findFlowEntry t f).isSome = true := Option.isSome_iff_exists.mpr ⟨entry, hfind⟩
  have hactive := activeEntry_of_findFlowEntry hfound
  have hin := (henrolled.flows f).mp hactive
  have hcard := henrolled.card_flowIds
  have hle := flowsAt_le_totalFlows h.inv ht
  have htotal := h.total
  have herase : ((live.erase f).erase flowIdReserved).card + 1 =
      (live.erase flowIdReserved).card := by
    rw [Finset.erase_right_comm]
    exact Finset.card_erase_add_one (Finset.mem_erase.mpr ⟨hin.2, hin.1⟩)
  refine h.flowsChange hinv hchange (henrolled.retire hpool hactive) (by omega) ?_
  intro hpos
  exact (Nat.sub_le _ _).trans (h.limit hpos)

theorem Registered.reconfigureFlow (h : Registered s) (i f : ℕ) (a : Option Allocation) :
    Registered (hwfqReconfigureFlow s i f a).2 := by
  obtain ⟨hinv, ⟨-, heq⟩ | ⟨a, t, -, ht, -, hfind, -, hchange⟩⟩ := h.inv.reconfigureFlow i f a
  · rw [heq]
    exact h
  obtain ⟨live, henrolled⟩ := h.enrolled i t ht
  obtain ⟨live', hpool⟩ := (h.inv.tenants i t ht).flows.pooled
  have hcard := henrolled.card_flowIds
  exact h.flowsChange hinv hchange
    (henrolled.configure hpool (activeEntry_of_findFlowEntry hfind) a) (by rw [hcard]) h.limit

theorem Registered.step (h : Registered s) (hc : KeepsRegistry s c) :
    Registered (Hwfq.after s c) := by
  by_cases hedits : c.editsFlows = false
  · exact h.follow hedits
  cases c with
  | addTenant a out => exact h.addTenant hc a out
  | removeTenant i =>
    obtain ⟨hinv, ⟨-, heq⟩ | ⟨t, ht, -, heq⟩⟩ := h.inv.removeTenant i.toNat
    · have hstate : Hwfq.after s (.removeTenant i) = s := congrArg Prod.snd heq
      rw [hstate]
      exact h
    · have hstate : Hwfq.after s (.removeTenant i) = tenantRemoved s i.toNat t :=
        congrArg (fun r => r.2.2) heq
      rw [hstate]
      rw [heq] at hinv
      exact h.removed ht hinv
  | addFlow i a out => exact h.addFlow hc i.toNat a out
  | reconfigureFlow i f a => exact h.reconfigureFlow i.toNat f.toNat a
  | removeFlow i f => exact h.removeFlow i.toNat f.toNat
  | _ => exact absurd rfl hedits

/-! ## Every run -/

theorem Made.registered (h : Made s) : Registered s := by
  obtain ⟨mem, config, hinit⟩ := h
  have hnew := hwfqInit_success hinit
  have htotal := hnew.totalActiveFlows
  refine ⟨hnew.inv, ?_, ?_, ?_⟩
  · intro i t ht
    rw [hnew.tenants] at ht
    cases ht
  · rw [htotal, totalFlows, hnew.tenants]
    simp [flowsAt]
  · intro _
    rw [htotal]
    exact Nat.zero_le _

/-- In every run that reserves id 0 and counts fewer than 2^32 - 1 flows, no tenant has
too many flows, the active flows are counted exactly, and every new flow gets a fresh id. -/
theorem flow_registry (s : Scheduler) (h : Made s) (calls : List Call)
    (hcalls : Along after KeepsRegistry s calls) :
    FlowRegistry (afterRun s calls) ∧ ∀ i a out id,
      (respond (afterRun s calls) (.addFlow i a out)).id = some id →
        FreshFlowId (afterRun s calls) i.toNat id := by
  have hrun : Registered (afterRun s calls) :=
    run_invariant (fun _ _ hs hc => hs.step hc) h.registered hcalls
  refine ⟨hrun.registry, ?_⟩
  intro i a out id hid
  exact hrun.freshFlowId hid

/-- Two flows come, one goes and its id is used again. -/
def registryCalls : List Call :=
  [.addTenant (some (.weight 1)) true, .addFlow 0 (some (.weight 1)) true,
    .addFlow 0 (some (.weight 2)) true, .removeFlow 0 1, .addFlow 0 (some (.weight 3)) true]

theorem flow_registry_small :
    FlowRegistry (afterRun smallScheduler registryCalls) ∧ ∀ i a out id,
      (respond (afterRun smallScheduler registryCalls) (.addFlow i a out)).id = some id →
        FreshFlowId (afterRun smallScheduler registryCalls) i.toNat id := by
  have hreserves : ReservesFirst smallScheduler := fun _ =>
    ⟨smallScheduler_granted 1, smallScheduler_granted 2⟩
  apply flow_registry smallScheduler smallScheduler_made
  refine ⟨hreserves, ?_, ?_, trivial, ?_, trivial⟩
  · show Scheduler.totalActiveFlows _ < uint32Max
    decide +kernel
  · show Scheduler.totalActiveFlows _ < uint32Max
    decide +kernel
  · show Scheduler.totalActiveFlows _ < uint32Max
    decide +kernel

/-- The request for the pointer array of the tenant's store is refused. -/
def refusingStore : Allocator := ⟨fun k => decide (k ≠ 7), 1⟩

theorem refusingStore_accepted : (hwfqInit refusingStore smallConfig).2.isSome = true := by
  decide +kernel

/-- The first flow gets id 0, and with five flows of at most four the counter is no longer
the number of flows once the tenant is removed. -/
theorem flow_id_zero :
    let s := madeWith refusingStore smallConfig refusingStore_accepted
    let addTenant := Call.addTenant (some (.weight 1)) true
    let addFlow := Call.addFlow 0 (some (.weight 1)) true
    let s' := afterRun s [addTenant, addFlow, addFlow, addFlow, addFlow, addFlow]
    Made s ∧ (respond (after s addTenant) addFlow).id = some flowIdReserved ∧
      (s'.tenants 0).map (fun t => (flowIds t).card) = some 5 ∧
      (after s' (.removeTenant 0)).totalActiveFlows = 1 := by
  refine ⟨madeWith_made refusingStore_accepted, ?_, ?_, ?_⟩
  · decide +kernel
  · decide +kernel
  · decide +kernel

end Hwfq
