import Hwfq.MemoryFrees
import Hwfq.SessionHistory
import Hwfq.TokenTags

/-!
# The memory ledger

Every block that is allocated belongs to the scheduler, to a tenant, to a queued session or to
a session in flight, or a call holds it. Each function moves blocks between these owners, and
what it frees is what they lose.
-/
namespace Hwfq
open BlockTallies

variable {s s' s₁ : Scheduler} {b b' b₁ : SchedulerBlocks} {i : ℕ} {t u : Tenant}
  {held held' held₁ freed freed' : Multiset ℕ}

/-! ## What leaves the shape of a store alone -/

section Shapes
variable {α : Type*} {gs gs' : GroupScheduler α}

theorem QueueTrace.shape (h : QueueTrace gs gs') : gs'.entries.shape = gs.entries.shape := by
  induction h with
  | refl => rfl
  | @enqueue gs' mem id w ud cf _ ih =>
    rcases enqueue_entries mem gs' id w ud cf with heq | ⟨n, heq⟩
    · rw [heq, ih]
    · rw [heq, shape_write, ih]
  | @dequeue gs' _ ih =>
    have hsame : (groupSchedulerDequeue gs').2.entries = gs'.entries :=
      congrArg Ledger.entries (dequeue_ledger gs')
    rw [hsame, ih]
  | @update gs' w _ ih =>
    rcases updateVirtualTime_cases gs' w with ⟨-, heq⟩ | ⟨-, heq⟩
    · rw [heq]
      exact ih
    · rw [heq, ← ih]
      exact shape_writeAll gs'.entries gs'.configuredEntries fun e =>
        { e with lastFinishTime := rebaseTime (advancedVirtualTime gs' w / 2) e.lastFinishTime }

theorem recalculate_shape (gs : GroupScheduler α) :
    (recalculateWeightBasedRates gs).entries.shape = gs.entries.shape :=
  shape_writeAll gs.entries gs.configuredEntries _

theorem configureEntry_shape (h : SumsFit gs) (id : ℕ) (a : Allocation) :
    (groupSchedulerConfigureEntry gs id a).2.entries.shape = gs.entries.shape := by
  rcases configureEntry_cases h id a with ⟨heq, -⟩ | ⟨heq, -⟩ | ⟨-, -, entry, -, ⟨heq, -⟩ | ⟨heq, -⟩⟩
  · rw [heq]
  · rw [heq]
  · rw [heq]
  · have hstart : ((releasedFor gs entry).reserve a).entries = gs.entries := by
      rw [reserve_entries, releasedFor_entries]
    rw [heq]
    unfold commitEntry
    rw [recalculate_shape, ← hstart]
    exact shape_write ((releasedFor gs entry).reserve a).entries id fun e =>
      { e with
        entryId := id
        allocation := a
        calculatedRate := a.reserved
        lastFinishTime := 0
        configured := true }

theorem removeEntry_shape (gs : GroupScheduler α) (id : ℕ) :
    (groupSchedulerRemoveEntry gs id).2.entries.shape = gs.entries.shape := by
  unfold groupSchedulerRemoveEntry
  split_ifs
  · rfl
  cases groupSchedulerFindEntry gs id with
  | none => rfl
  | some entry =>
    dsimp only
    rw [recalculate_shape]
    have hstart : (gs.release entry.allocation).entries = gs.entries := release_entries _
    rw [← hstart]
    exact shape_write (gs.release entry.allocation).entries id fun e =>
      { e with configured := false }

theorem freeEntryOf_shape (gs : GroupScheduler α) (id : ℕ) :
    (freeEntryOf gs id).entries.shape = gs.entries.shape := shape_free gs.entries id

theorem resetAll_shape (ce : ChunkedEntries) : (resetAllFlowStats ce).shape = ce.shape := by
  unfold ChunkedEntries.shape resetAllFlowStats
  refine Prod.ext rfl ?_
  funext c
  dsimp only
  split_ifs
  · exact Option.isSome_map
  · rfl

end Shapes

/-! ## The owners of blocks -/

/-- The blocks of the sessions queued in a flow scheduler, with their contexts. -/
def flowsLive (flows : GroupScheduler FlowSessionContext) : Multiset ℕ :=
  flows.sessions + (contexts flows).map (·.addr)

/-- The blocks of a tenant. -/
def tenantLive (b : TenantBlocks) (addr : Addr) (flows : GroupScheduler FlowSessionContext) :
    Multiset ℕ :=
  {addr} + b.store.live flows.entries.numChunks + b.group.live + flowsLive flows

/-- The blocks of the tenant in a slot, if there is one. -/
def slotLive (b : TenantBlocks) (t : Option Tenant) : Multiset ℕ :=
  t.elim 0 fun t => tenantLive b t.addr t.flowScheduler

/-- The blocks of the scheduler itself. -/
def frameLive (s : Scheduler) (b : SchedulerBlocks) : Multiset ℕ :=
  {b.scheduler, b.tenantTable, b.hashTable} +
    b.store.live s.systemScheduler.entries.numChunks + b.group.live

def slotsLive (b : SchedulerBlocks) (n : ℕ) (tenants : ℕ → Option Tenant) : Multiset ℕ :=
  ∑ i ∈ Finset.range n, slotLive (b.tenants i) (tenants i)

def flightLive (s : Scheduler) : Multiset ℕ := (s.inFlight.map (·.addr) : List Addr)

/-- Everything that has an owner. -/
def liveBlocks (s : Scheduler) (b : SchedulerBlocks) : Multiset ℕ :=
  frameLive s b + s.systemScheduler.sessions + slotsLive b s.maxTenants s.cores + flightLive s

/-- The stores are in memory as the model has them. -/
structure Backed (s : Scheduler) (b : SchedulerBlocks) : Prop where
  system : Mirrors b.store s.systemScheduler.entries
  tenants : ∀ i t, s.cores i = some t → Mirrors (b.tenants i).store t.flowScheduler.entries

/-- From `s` to `s'` the blocks that a call holds beside the live ones go from `held` to
`held'`, and it frees `freed`. -/
structure Paid (s s' : Scheduler) (b b' : SchedulerBlocks) (held held' freed : Multiset ℕ) :
    Prop where
  tally : Tally s.mem.next s'.mem.next (held + liveBlocks s b) (held' + liveBlocks s' b') freed
  backed : Backed s b → Backed s' b'

theorem Paid.refl (s : Scheduler) (b : SchedulerBlocks) (held : Multiset ℕ) :
    Paid s s b b held held 0 := ⟨.refl _ _, id⟩

theorem Paid.trans (h : Paid s s₁ b b₁ held held₁ freed) (h' : Paid s₁ s' b₁ b' held₁ held' freed') :
    Paid s s' b b' held held' (freed + freed') :=
  ⟨h.tally.trans h'.tally, fun hb => h'.backed (h.backed hb)⟩

theorem Paid.free (s : Scheduler) (b : SchedulerBlocks) (held freed : Multiset ℕ) :
    Paid s s b b (freed + held) held freed := by
  refine ⟨?_, id⟩
  rw [add_assoc]
  exact .free _ _ _

theorem Paid.of_eq (h : Paid s s' b b' held held' freed) {k k' f : Multiset ℕ} (hk : k = held)
    (hk' : k' = held') (hf : f = freed) : Paid s s' b b' k k' f := by
  rw [hk, hk', hf]
  exact h

/-! ## Requests -/

theorem Paid.refused {mem : Allocator} {size : ℕ} (h : hwfqAlloc s.mem size = (none, mem))
    (b : SchedulerBlocks) (held : Multiset ℕ) :
    Paid s { s with mem := mem } b b held held 0 :=
  ⟨tally_refused h _, fun hb => ⟨hb.system, hb.tenants⟩⟩

theorem Paid.granted {mem : Allocator} {size : ℕ} {addr : Addr}
    (h : hwfqAlloc s.mem size = (some addr, mem)) (b : SchedulerBlocks) (held : Multiset ℕ) :
    Paid s { s with mem := mem } b b held (addr ::ₘ held) 0 := by
  refine ⟨?_, fun hb => ⟨hb.system, hb.tenants⟩⟩
  rw [Multiset.cons_add]
  exact tally_granted h _

/-! ## One owner at a time -/

/-- Only the tokens change. -/
theorem Paid.tokens (hcores : s'.cores = s.cores) (hconfig : s'.config = s.config)
    (hflight : s'.inFlight = s.inFlight)
    (hshape : s'.systemScheduler.entries.shape = s.systemScheduler.entries.shape)
    (h : Tally s.mem.next s'.mem.next (held + s.systemScheduler.sessions)
      (held' + s'.systemScheduler.sessions) freed) : Paid s s' b b held held' freed := by
  have hmax : s'.maxTenants = s.maxTenants := congrArg (·.maxTenants.toNat) hconfig
  have hstore := live_of_shape (b := b.store) hshape
  constructor
  · apply h.exchange
    unfold liveBlocks frameLive flightLive
    rw [hcores, hmax, hflight, hstore]
    abel
  · intro hb
    constructor
    · exact hb.system.of_shape hshape
    · intro i t ht
      rw [hcores] at ht
      exact hb.tenants i t ht

/-- The blocks after those of one tenant were exchanged. -/
def SchedulerBlocks.setTenant (b : SchedulerBlocks) (i : ℕ) (tb : TenantBlocks) : SchedulerBlocks :=
  { b with tenants := Function.update b.tenants i tb }

theorem slotsLive_update {n : ℕ} (hi : i < n) (tenants : ℕ → Option Tenant) (v : Option Tenant)
    (b : SchedulerBlocks) (tb : TenantBlocks) :
    slotsLive (b.setTenant i tb) n (Function.update tenants i v) +
        slotLive (b.tenants i) (tenants i) = slotsLive b n tenants + slotLive tb v := by
  have hpairs := Bins.sum_update (fun p : TenantBlocks × Option Tenant => slotLive p.1 p.2)
    (fun j => (b.tenants j, tenants j)) (tb, v) hi
  unfold slotsLive SchedulerBlocks.setTenant
  rw [← hpairs]
  congr 1
  apply Finset.sum_congr rfl
  intro j _
  dsimp only
  by_cases hj : j = i
  · rw [hj, Function.update_self, Function.update_self, Function.update_self]
  · rw [Function.update_of_ne hj, Function.update_of_ne hj, Function.update_of_ne hj]

/-- Only one slot and its blocks change. -/
theorem Paid.slot {v : Option Tenant} {tb : TenantBlocks} (hi : i < s.maxTenants)
    (hcores : s'.cores = Function.update s.cores i v)
    (hsystem : s'.systemScheduler = s.systemScheduler) (hconfig : s'.config = s.config)
    (hflight : s'.inFlight = s.inFlight)
    (hmirrors : Backed s b → ∀ u, v = some u → Mirrors tb.store u.flowScheduler.entries)
    (h : Tally s.mem.next s'.mem.next (held + slotLive (b.tenants i) (s.cores i))
      (held' + slotLive tb v) freed) : Paid s s' b (b.setTenant i tb) held held' freed := by
  have hmax : s'.maxTenants = s.maxTenants := congrArg (·.maxTenants.toNat) hconfig
  have hslots := slotsLive_update hi s.cores v b tb
  constructor
  · apply h.exchange
    have hframe : frameLive s' (b.setTenant i tb) = frameLive s b := by
      unfold frameLive
      rw [hsystem]
      rfl
    unfold liveBlocks flightLive
    rw [hframe, hcores, hmax, hflight, hsystem]
    generalize slotsLive (b.setTenant i tb) s.maxTenants (Function.update s.cores i v) = new
      at hslots ⊢
    generalize slotsLive b s.maxTenants s.cores = old at hslots ⊢
    generalize slotLive tb v = slot' at hslots ⊢
    generalize slotLive (b.tenants i) (s.cores i) = slot at hslots ⊢
    have hsum := congrArg (held' + (frameLive s b + s.systemScheduler.sessions) +
      ((s.inFlight.map (·.addr) : List Addr) : Multiset ℕ) + held + ·) hslots
    calc _ = held' + (frameLive s b + s.systemScheduler.sessions) +
          ((s.inFlight.map (·.addr) : List Addr) : Multiset ℕ) + held + (new + slot) := by abel
      _ = held' + (frameLive s b + s.systemScheduler.sessions) +
          ((s.inFlight.map (·.addr) : List Addr) : Multiset ℕ) + held + (old + slot') := hsum
      _ = _ := by abel
  · intro hb
    constructor
    · rw [hsystem]
      exact hb.system
    · intro j u hu
      rw [hcores] at hu
      unfold SchedulerBlocks.setTenant
      dsimp only
      by_cases hj : j = i
      · rw [hj, Function.update_self] at hu
        rw [hj, Function.update_self]
        exact hmirrors hb u hu
      · rw [Function.update_of_ne hj] at hu ⊢
        exact hb.tenants j u hu

theorem setTenant_self (b : SchedulerBlocks) (i : ℕ) : b.setTenant i (b.tenants i) = b := by
  unfold SchedulerBlocks.setTenant
  rw [Function.update_eq_self]

/-- Only the queue of one tenant changes. -/
theorem Paid.tenant (ht : s.tenants i = some t) (hi : i < s.maxTenants)
    (hcores : s'.cores = Function.update s.cores i (some u)) (haddr : u.addr = t.addr)
    (hsystem : s'.systemScheduler = s.systemScheduler) (hconfig : s'.config = s.config)
    (hflight : s'.inFlight = s.inFlight)
    (hshape : u.flowScheduler.entries.shape = t.flowScheduler.entries.shape)
    (h : Tally s.mem.next s'.mem.next (held + flowsLive t.flowScheduler)
      (held' + flowsLive u.flowScheduler) freed) : Paid s s' b b held held' freed := by
  have hold : s.cores i = some t.core := cores_some ht
  have hstore := live_of_shape (b := (b.tenants i).store) hshape
  have hslot : Paid s s' b (b.setTenant i (b.tenants i)) held held' freed := by
    apply Paid.slot hi hcores hsystem hconfig hflight
    · intro hb v hv
      obtain rfl := Option.some.inj hv
      exact (hb.tenants i t.core hold).of_shape hshape
    · apply h.exchange
      rw [hold]
      unfold slotLive tenantLive
      dsimp only [Option.elim_some, Tenant.core]
      rw [haddr, hstore]
      abel
  rwa [setTenant_self] at hslot

/-- Only sessions in flight come and go. -/
theorem Paid.flight (h : FlightOnly s s') (b : SchedulerBlocks)
    (hmoved : held + flightLive s = held' + flightLive s' + freed) :
    Paid s s' b b held held' freed := by
  have hcores : s'.cores = s.cores := by
    funext j
    rw [Scheduler.cores, h.tenants, Scheduler.cores]
  have hmax : s'.maxTenants = s.maxTenants := congrArg (·.maxTenants.toNat) h.config
  constructor
  · rw [h.mem]
    have htally := Tally.free s.mem.next (held' + flightLive s') freed
    rw [add_comm, ← hmoved] at htally
    apply htally.exchange
    unfold liveBlocks frameLive
    rw [h.systemScheduler, hcores, hmax]
    abel
  · intro hb
    constructor
    · rw [h.systemScheduler]
      exact hb.system
    · rw [hcores]
      exact hb.tenants

/-! ## What the ledger sees of a tenant -/

/-- The object of a tenant, the shape of its store and what its queue owns. -/
def Tenant.owned (t : Tenant) : Addr × (ℕ × (ℕ → Bool)) × Multiset ℕ :=
  (t.addr, t.flowScheduler.entries.shape, flowsLive t.flowScheduler)

theorem slotLive_of_owned {b : TenantBlocks} {v v' : Option Tenant}
    (h : v'.map Tenant.owned = v.map Tenant.owned) : slotLive b v' = slotLive b v := by
  cases v with
  | none =>
    rw [Option.map_none, Option.map_eq_none_iff] at h
    rw [h]
  | some t =>
    obtain ⟨u, rfl, hu⟩ := Option.map_eq_some_iff.mp h
    simp only [Tenant.owned, Prod.mk.injEq] at hu
    obtain ⟨haddr, hshape, hflows⟩ := hu
    have hstore := live_of_shape (b := b.store) hshape
    unfold slotLive tenantLive
    rw [Option.elim_some, Option.elim_some, haddr, hstore, hflows]

/-- Nothing changes that the ledger sees. -/
theorem Paid.alike (hsystem : s'.systemScheduler = s.systemScheduler) (hmem : s'.mem = s.mem)
    (hconfig : s'.config = s.config) (hflight : s'.inFlight = s.inFlight)
    (howned : ∀ i, (s'.cores i).map Tenant.owned = (s.cores i).map Tenant.owned)
    (b : SchedulerBlocks) (held : Multiset ℕ) : Paid s s' b b held held 0 := by
  have hmax : s'.maxTenants = s.maxTenants := congrArg (·.maxTenants.toNat) hconfig
  have hslots : slotsLive b s.maxTenants s'.cores = slotsLive b s.maxTenants s.cores :=
    Finset.sum_congr rfl fun i _ => slotLive_of_owned (howned i)
  constructor
  · rw [hmem]
    apply Tally.of_eq
    unfold liveBlocks frameLive flightLive
    rw [hsystem, hmax, hflight, hslots]
  · intro hb
    constructor
    · rw [hsystem]
      exact hb.system
    · intro i u hu
      have hold := howned i
      rw [hu, Option.map_some] at hold
      obtain ⟨t, ht, heq⟩ := Option.map_eq_some_iff.mp hold.symm
      have hshape : t.flowScheduler.entries.shape = u.flowScheduler.entries.shape :=
        congrArg (·.2.1) heq
      exact (hb.tenants i t ht).of_shape hshape.symm

theorem Paid.setTenant {mem : Allocator} (ht : s.tenants i = some t) (hi : i < s.maxTenants)
    (haddr : u.addr = t.addr)
    (hshape : u.flowScheduler.entries.shape = t.flowScheduler.entries.shape)
    (h : Tally s.mem.next mem.next (held + flowsLive t.flowScheduler)
      (held' + flowsLive u.flowScheduler) freed) :
    Paid s ({ s with mem := mem }.setTenant i u) b b held held' freed := by
  apply Paid.tenant (u := u.core) ht hi
  · exact setTenant_cores _ i u
  · exact haddr
  · rfl
  · rfl
  · rfl
  · exact hshape
  · exact h

theorem Paid.setFlows {mem : Allocator} {flows : GroupScheduler FlowSessionContext}
    (ht : s.tenants i = some t) (hi : i < s.maxTenants)
    (hshape : flows.entries.shape = t.flowScheduler.entries.shape)
    (h : Tally s.mem.next mem.next (held + flowsLive t.flowScheduler) (held' + flowsLive flows)
      freed) :
    Paid s ({ s with mem := mem }.setTenant i { t with flowScheduler := flows }) b b held held'
      freed :=
  .setTenant ht hi rfl hshape h

theorem Paid.sameTenant (ht : s.tenants i = some t) (h : u.owned = t.owned) (b : SchedulerBlocks)
    (held : Multiset ℕ) : Paid s (s.setTenant i u) b b held held 0 := by
  apply Paid.alike
  · rfl
  · rfl
  · rfl
  · rfl
  · intro j
    rw [setTenant_cores]
    by_cases hj : j = i
    · rw [hj, Function.update_self, cores_some ht]
      exact congrArg some h
    · rw [Function.update_of_ne hj]

theorem flowsLive_of_queueView {flows flows' : GroupScheduler FlowSessionContext}
    (h : flows'.queueView = flows.queueView) : flowsLive flows' = flowsLive flows := by
  rw [flowsLive, GroupScheduler.sessions, queued_of_queueView h, contexts_of_queueView h,
    flowsLive, GroupScheduler.sessions]

theorem flowsLive_update (flows : GroupScheduler FlowSessionContext) (w : ℕ) :
    flowsLive (groupSchedulerUpdateVirtualTime flows w) = flowsLive flows := by
  rw [flowsLive, sessions_update, contexts_update, flowsLive]

theorem Tenant.owned_mapStats (t : Tenant) (flowId : ℕ) (f : Stats → Stats) :
    (t.mapStats flowId f).owned = t.owned := by
  have hflows := flowsLive_of_queueView (t.mapStats_queueView flowId f)
  have hshape : (t.mapStats flowId f).flowScheduler.entries.shape =
      t.flowScheduler.entries.shape := by
    unfold Tenant.mapStats
    dsimp only
    split_ifs
    · exact shape_write t.flowScheduler.entries flowId fun e => { e with stats := f e.stats }
    · rfl
  unfold Tenant.owned
  rw [hflows, hshape]
  rfl

end Hwfq
