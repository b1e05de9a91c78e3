import Hwfq.CapacityLedger
import Hwfq.EntrySlots

/-!
# The share of a tenant and the rates of its flows

The flow scheduler of a tenant gets its capacity when the tenant is added; later
changes of the tenant's allocation do not reach it. As long as they keep the share
and no addition wraps, flows book against the current share of their tenant.
-/
namespace Hwfq
open GuardedRuns

variable {α : Type*} {gs gs' : GroupScheduler α} {mem : Allocator} {live : Finset ℕ}

/-! ## The ledger of one group scheduler -/

/-- The sum, the limit and the entries of a group scheduler agree. -/
structure EntryBooks (gs : GroupScheduler α) : Prop where
  books : Books gs.maxEntries gs.totalCapacity gs.allocatedRateCapacity (entryAllocations gs)
  capacity : gs.totalCapacity ≤ uint64Max
  store : gs.entries.limit = gs.maxEntries

/-- `gs'` shows the same entries, sums and bounds as `gs`. -/
structure SameBooks (gs gs' : GroupScheduler α) : Prop where
  bounds : gs'.bounds = gs.bounds
  rates : gs'.allocatedRateCapacity = gs.allocatedRateCapacity
  limit : gs'.entries.limit = gs.entries.limit
  allocations : entryAllocations gs' = entryAllocations gs

theorem SameBooks.trans {gs₁ gs₂ gs₃ : GroupScheduler α} (h : SameBooks gs₁ gs₂)
    (h' : SameBooks gs₂ gs₃) : SameBooks gs₁ gs₃ :=
  ⟨h'.bounds.trans h.bounds, h'.rates.trans h.rates, h'.limit.trans h.limit,
    h'.allocations.trans h.allocations⟩

theorem QueueStep.sameBooks (h : QueueStep gs gs') : SameBooks gs gs' :=
  ⟨h.bounds, h.rates, h.limit, h.entryAllocations⟩

theorem SameBooks.of_active (hbounds : gs'.bounds = gs.bounds)
    (hrates : gs'.allocatedRateCapacity = gs.allocatedRateCapacity)
    (hlimit : gs'.entries.limit = gs.entries.limit)
    (hact : ∀ j, activeEntry gs' j = activeEntry gs j) : SameBooks gs gs' :=
  ⟨hbounds, hrates, hlimit, funext fun j => by rw [entryAllocations, hact, entryAllocations]⟩

theorem EntryBooks.same (h : EntryBooks gs) (hsame : SameBooks gs gs') : EntryBooks gs' where
  books := by
    rw [hsame.rates, hsame.allocations, show gs'.maxEntries = gs.maxEntries from
      congrArg Bounds.maxEntries hsame.bounds, show gs'.totalCapacity = gs.totalCapacity from
      congrArg Bounds.totalCapacity hsame.bounds]
    exact h.books
  capacity := (congrArg Bounds.totalCapacity hsame.bounds).trans_le h.capacity
  store := hsame.limit.trans (h.store.trans (congrArg Bounds.maxEntries hsame.bounds).symm)

/-- The addition of configure fits 64 bits. -/
def EntryFits (gs : GroupScheduler α) (id : ℕ) (a : Allocation) : Prop :=
  subU64 gs.allocatedRateCapacity (reservedAt (entryAllocations gs id)) + a.reserved ≤ uint64Max

instance (gs : GroupScheduler α) (id : ℕ) (a : Allocation) : Decidable (EntryFits gs id a) :=
  inferInstanceAs (Decidable (subU64 gs.allocatedRateCapacity
    (reservedAt (entryAllocations gs id)) + a.reserved ≤ uint64Max))

theorem releasedFor_rates {id : ℕ} {entry : EntryConfig}
    (hget : hwfqChunkedGet gs.entries id = some entry) :
    (releasedFor gs entry).allocatedRateCapacity =
      subU64 gs.allocatedRateCapacity (reservedAt (entryAllocations gs id)) := by
  rw [entryAllocations, activeEntry_of_get_some hget, releasedFor]
  split_ifs
  · exact release_rates gs entry.allocation
  · exact (subU64_zero _).symm

theorem configureEntry_limit (h : PooledInv mem gs live) (id : ℕ) (a : Allocation) :
    (groupSchedulerConfigureEntry gs id a).2.entries.limit = gs.entries.limit := by
  rcases h.configure_cases id a with ⟨-, heq⟩ | ⟨-, -, entry, -, -, heq, -⟩
  · rw [heq]
  · rw [heq, commitEntry]
    refine (limit_writeAll _ _).trans ?_
    rw [GroupScheduler.writeEntry, reserve_entries, releasedFor_entries]
    rfl

theorem EntryBooks.configure (h : EntryBooks gs) (hpool : PooledInv mem gs live) {id : ℕ}
    {a : Allocation} (hfits : EntryFits gs id a) :
    EntryBooks (groupSchedulerConfigureEntry gs id a).2 := by
  have hlimit := configureEntry_limit hpool id a
  have hbounds := configureEntry_bounds hpool.group.sums id a
  rcases hpool.configure_cases id a with ⟨-, heq⟩ | ⟨hok, hlt, entry, hget, hover, -, hact⟩
  · rw [heq]
    exact h
  have hrates := hpool.configure_rates hok
  have htable : entryAllocations (groupSchedulerConfigureEntry gs id a).2 =
      Function.update (entryAllocations gs) id (some a) := by
    funext j
    rw [entryAllocations, hact]
    by_cases hj : j = id
    · rw [if_pos hj, hj, Function.update_self]
      rfl
    · rw [if_neg hj, Function.update_of_ne hj, entryAllocations]
  have hold : (activeEntry gs id).elim 0 (·.allocation.reserved) =
      reservedAt (entryAllocations gs id) := by
    rw [entryAllocations, reservedAt]
    cases activeEntry gs id <;> rfl
  rw [hold] at hrates
  have hcheck : u64 (subU64 gs.allocatedRateCapacity (reservedAt (entryAllocations gs id)) +
      a.reserved) ≤ gs.totalCapacity ∨ a.reserved = 0 := by
    cases a with
    | rate r =>
      rw [← releasedFor_rates hget]
      exact .inl (Nat.le_of_not_lt fun hlt => hover ⟨⟨r, rfl⟩, hlt⟩)
    | weight w => exact .inr rfl
    | other => exact .inr rfl
  have hbooks := h.books.exchange hlt hfits hcheck
  exact
    { books := by
        rw [hrates, htable, show (groupSchedulerConfigureEntry gs id a).2.maxEntries =
          gs.maxEntries from congrArg Bounds.maxEntries hbounds,
          show (groupSchedulerConfigureEntry gs id a).2.totalCapacity = gs.totalCapacity from
          congrArg Bounds.totalCapacity hbounds]
        exact hbooks
      capacity := (congrArg Bounds.totalCapacity hbounds).trans_le h.capacity
      store := hlimit.trans (h.store.trans (congrArg Bounds.maxEntries hbounds).symm) }

/-- Configure turns a request down for its rate exactly when the true sum would
leave the limit. -/
theorem EntryBooks.overbooked_iff (h : EntryBooks gs) (hpool : PooledInv mem gs live) {id : ℕ}
    {a : Allocation} (hfits : EntryFits gs id a) (hlt : id < gs.maxEntries)
    (hvalid : validateAllocation a = true) (hget : hwfqChunkedGet gs.entries id ≠ none) :
    (groupSchedulerConfigureEntry gs id a).1 = .overbooked ↔
      gs.totalCapacity < ratesOf gs.maxEntries (entryAllocations gs) -
        reservedAt (entryAllocations gs id) + a.reserved := by
  have hexact := h.books.exact
  have hwithin := h.books.within
  have hover : ∀ entry, hwfqChunkedGet gs.entries id = some entry →
      (Overbooks gs entry a ↔ gs.totalCapacity < ratesOf gs.maxEntries (entryAllocations gs) -
        reservedAt (entryAllocations gs id) + a.reserved) := by
    intro entry hentry
    unfold Overbooks
    rw [releasedFor_rates hentry, u64_of_le hfits, h.books.sub hlt, hexact]
    refine ⟨And.right, fun hexceeds => ⟨?_, hexceeds⟩⟩
    cases a with
    | rate r => exact ⟨r, rfl⟩
    | weight w =>
      have hzero : (Allocation.weight w).reserved = 0 := rfl
      omega
    | other => cases hvalid
  rcases configureEntry_cases hpool.group.sums id a with
    ⟨-, hbad⟩ | ⟨-, hnone⟩ | ⟨-, -, entry, hentry, ⟨heq, hyes⟩ | ⟨heq, hno⟩⟩
  · rcases hbad with hle | hinvalid
    · omega
    · simp [hvalid] at hinvalid
  · exact absurd hnone hget
  · rw [heq, ← hover entry hentry]
    simp [hyes]
  · rw [heq, ← hover entry hentry]
    simp [hno]

theorem removeEntry_limit (gs : GroupScheduler α) (id : ℕ) :
    (groupSchedulerRemoveEntry gs id).2.entries.limit = gs.entries.limit := by
  rcases removeEntry_cases gs id with ⟨heq, -⟩ | ⟨heq, -⟩ | ⟨-, -, entry, -, heq⟩
  · rw [heq]
  · rw [heq]
  · rw [heq]
    refine (limit_writeAll _ _).trans ?_
    rw [GroupScheduler.writeEntry, release_entries]
    rfl

theorem entriesFree_limit (ce : ChunkedEntries) (id : ℕ) :
    (hwfqChunkedEntriesFree ce id).limit = ce.limit := by
  unfold hwfqChunkedEntriesFree
  cases hwfqChunkedGet ce id <;> rfl

theorem EntryBooks.retire (h : EntryBooks gs) (hpool : PooledInv mem gs live) {id : ℕ}
    (hact : (activeEntry gs id).isSome = true) :
    EntryBooks (freeEntryOf (groupSchedulerRemoveEntry gs id).2 id) := by
  obtain ⟨e, he⟩ := Option.isSome_iff_exists.mp hact
  obtain ⟨-, hact', -⟩ := hpool.retire hact
  have hbounds : (freeEntryOf (groupSchedulerRemoveEntry gs id).2 id).bounds = gs.bounds :=
    removeEntry_bounds gs id
  have hlimit : (freeEntryOf (groupSchedulerRemoveEntry gs id).2 id).entries.limit =
      gs.entries.limit := (entriesFree_limit _ id).trans (removeEntry_limit gs id)
  have hrates := hpool.retire_rates he
  have hold : e.allocation.reserved = reservedAt (entryAllocations gs id) := by
    rw [entryAllocations, he]
    rfl
  have htable : entryAllocations (freeEntryOf (groupSchedulerRemoveEntry gs id).2 id) =
      Function.update (entryAllocations gs) id none := by
    funext j
    rw [entryAllocations, hact']
    by_cases hj : j = id
    · rw [if_pos hj, hj, Function.update_self]
      rfl
    · rw [if_neg hj, Function.update_of_ne hj, entryAllocations]
  have hbooks := h.books.drop (hpool.bounded id hact)
  generalize freeEntryOf (groupSchedulerRemoveEntry gs id).2 id = gs' at hbounds hlimit hrates htable
  exact
    { books := by
        rw [hrates, htable, hold, show gs'.maxEntries = gs.maxEntries from congrArg Bounds.maxEntries hbounds,
          show gs'.totalCapacity = gs.totalCapacity from congrArg Bounds.totalCapacity hbounds]
        exact hbooks
      capacity := (congrArg Bounds.totalCapacity hbounds).trans_le h.capacity
      store := hlimit.trans (h.store.trans (congrArg Bounds.maxEntries hbounds).symm) }

/-! ## What the books do not see -/

theorem SameBooks.alloc (h : PooledInv mem gs live) {mem₀ : Allocator}
    (hmem : mem.next ≤ mem₀.next) : SameBooks gs (allocEntryOf mem₀ gs).2.2 := by
  refine .of_active rfl rfl ?_ (h.alloc hmem).2.1
  have hmax := entriesAlloc_maxEntries mem₀ gs.entries
  unfold ChunkedEntries.limit
  rw [show (allocEntryOf mem₀ gs).2.2.entries.maxEntries = gs.entries.maxEntries from hmax]

theorem SameBooks.free (h : PooledInv mem gs live) {id : ℕ} (hid : id ∈ live)
    (hnone : activeEntry gs id = none) : SameBooks gs (freeEntryOf gs id) :=
  .of_active rfl rfl (entriesFree_limit gs.entries id) (h.free hid hnone).2

theorem SameBooks.writeStats (gs : GroupScheduler α) (id : ℕ) (f : Stats → Stats) :
    SameBooks gs (gs.writeEntry id fun e => { e with stats := f e.stats }) where
  bounds := rfl
  rates := rfl
  limit := rfl
  allocations := by
    funext j
    rw [entryAllocations, writeEntry_activeEntry id (fun e => { e with stats := f e.stats })
      (fun _ => rfl) (fun _ => rfl), entryAllocations]
    split_ifs
    · rw [Option.map_map]
      rfl
    · rfl

theorem SameBooks.reset {which : ℕ → Bool} {ce' : ChunkedEntries}
    (h : Resets which gs.entries ce') : SameBooks gs { gs with entries := ce' } where
  bounds := rfl
  rates := rfl
  limit := by
    unfold ChunkedEntries.limit
    rw [h.same.maxEntries]
  allocations := by
    funext j
    rw [entryAllocations, h.activeEntry, entryAllocations, Option.map_map]
    congr 1
    funext e
    cases which j with
    | false => rfl
    | true =>
      simp only [if_true, Function.comp]
      unfold resetFlowStats
      split_ifs <;> rfl

theorem Tenant.mapStats_sameBooks (t : Tenant) (flowId : ℕ) (f : Stats → Stats) :
    SameBooks t.flowScheduler (t.mapStats flowId f).flowScheduler := by
  simp only [Tenant.mapStats]
  split_ifs
  · exact .writeStats t.flowScheduler flowId f
  · exact (QueueStep.refl _).sameBooks

/-! ## Tenants -/

/-- The flow scheduler of a tenant has the tenant's current share as its capacity
and keeps its books. -/
structure ShareKept (totalCapacity : ℕ) (t : Tenant) : Prop where
  share : t.flowScheduler.totalCapacity = tenantShare totalCapacity t.allocation
  books : EntryBooks t.flowScheduler

theorem ShareKept.same {cap : ℕ} {t t' : Tenant} (h : ShareKept cap t)
    (halloc : t'.allocation = t.allocation)
    (hsame : SameBooks t.flowScheduler t'.flowScheduler) : ShareKept cap t' where
  share := by
    rw [halloc, ← h.share]
    exact congrArg Bounds.totalCapacity hsame.bounds
  books := h.books.same hsame

/-! ## The scheduler -/

variable {s s' : Scheduler} {c : Call} {r : Response}

/-- `P` holds of every tenant, whatever its token. -/
def EveryTenant (P : Tenant → Prop) (cores : ℕ → Option Tenant) : Prop :=
  ∀ i t, cores i = some t → P t

theorem EveryTenant.update {P : Tenant → Prop} {cores : ℕ → Option Tenant}
    (h : EveryTenant P cores) {i : ℕ} {v : Option Tenant} (hv : ∀ t, v = some t → P t) :
    EveryTenant P (Function.update cores i v) := by
  intro j t ht
  by_cases hj : j = i
  · subst hj
    rw [Function.update_self] at ht
    exact hv t ht
  · rw [Function.update_of_ne hj] at ht
    exact h j t ht

theorem EveryTenant.mapStatsAt {P : Tenant → Prop} {cores : ℕ → Option Tenant}
    (h : EveryTenant P cores) (hP : ∀ t flowId f, P t → P (t.mapStats flowId f)) (i f : ℕ)
    (g : Stats → Stats) : EveryTenant P (mapStatsAt cores i f g) := by
  refine h.update fun t ht => ?_
  obtain ⟨t₀, ht₀, rfl⟩ := Option.map_eq_some_iff.mp ht
  exact hP t₀ f g (h i t₀ ht₀)

/-- A change of a tenant keeps its share, and what it adds fits 64 bits. -/
def KeepsShares (s : Scheduler) : Call → Prop
  | .configureTenant i a => ∀ t ∈ s.tenants i.toNat, ∀ b ∈ a, validateAllocation b = true →
      wouldExceedCapacity s b (some t.allocation) = false →
      tenantShare s.totalCapacity b = tenantShare s.totalCapacity t.allocation
  | .addFlow i a _ => ∀ t ∈ s.tenants i.toNat,
      t.flowScheduler.allocatedRateCapacity + reservedAt a ≤ uint64Max
  | .reconfigureFlow i f a => ∀ t ∈ s.tenants i.toNat, ∀ b ∈ a,
      EntryFits t.flowScheduler f.toNat b
  | _ => True

/-- The flow scheduler after an id was taken for a new flow. -/
theorem EntryBooks.alloc (h : EntryBooks gs) (hpool : PooledInv mem gs live) {ret mem' id}
    (halloc : allocEntryOf mem gs = (ret, mem', gs')) (hret : ret = .ok id) :
    EntryBooks gs' ∧ PooledInv mem' gs' (insert id live) ∧ activeEntry gs' id = none ∧
      id < gs'.maxEntries ∧ hwfqChunkedGet gs'.entries id ≠ none ∧
      gs'.allocatedRateCapacity = gs.allocatedRateCapacity ∧
      entryAllocations gs' = entryAllocations gs := by
  have hsame := SameBooks.alloc hpool (le_refl mem.next)
  obtain ⟨-, hact, -, hcase⟩ := hpool.alloc (le_refl mem.next)
  rw [halloc] at hsame hact hcase
  have hbooks := h.same hsame
  rcases hcase with ⟨e, hbad, -⟩ | ⟨id', hok, hnew, -, hpool', -⟩
  · rw [hret] at hbad
    cases hbad
  obtain rfl : id = id' := by
    rw [hret] at hok
    cases hok
    rfl
  have hin := Finset.mem_insert_self id live
  have hlt := hpool'.pool.live_lt id hin
  refine ⟨hbooks, hpool', ?_, ?_, hpool'.pool.reach id hlt, hsame.rates, hsame.allocations⟩
  · rw [hact, ← Option.not_isSome_iff_eq_none]
    exact fun hsome => hnew (hpool.pool.mem_of_active hsome)
  · rw [← hbooks.store]
    exact hlt.trans_le hpool'.pool.within

instance (s : Scheduler) : ∀ c, Decidable (KeepsShares s c)
  | .configureTenant i a => inferInstanceAs (Decidable (∀ t ∈ s.tenants i.toNat, ∀ b ∈ a,
      validateAllocation b = true → wouldExceedCapacity s b (some t.allocation) = false →
      tenantShare s.totalCapacity b = tenantShare s.totalCapacity t.allocation))
  | .addFlow i a _ => inferInstanceAs (Decidable (∀ t ∈ s.tenants i.toNat,
      t.flowScheduler.allocatedRateCapacity + reservedAt a ≤ uint64Max))
  | .reconfigureFlow i f a => inferInstanceAs (Decidable (∀ t ∈ s.tenants i.toNat, ∀ b ∈ a,
      EntryFits t.flowScheduler f.toNat b))
  | .addTenant .. | .removeTenant .. | .removeFlow .. | .enqueue .. | .dequeue .. | .complete ..
  | .cancel .. | .checkTimeouts .. | .resetStats .. => isTrue trivial

theorem ShareKept.flowUpdate {cap : ℕ} {i : UInt32} {t : Tenant}
    {flows : GroupScheduler FlowSessionContext} (h : ShareKept cap t)
    (hinv : TenantInv s.mem i.toNat t) (ht : s.tenants i.toNat = some t)
    (hupdate : FlowUpdate s.mem i t c r flows) (hc : KeepsShares s c) :
    ShareKept cap { t with flowScheduler := flows } := by
  obtain ⟨live, hpool⟩ := hinv.flows.pooled
  have hcapacity : ∀ {flows' : GroupScheduler FlowSessionContext},
      flows'.bounds = t.flowScheduler.bounds →
      flows'.totalCapacity = tenantShare cap t.allocation :=
    fun hbounds => (congrArg Bounds.totalCapacity hbounds).trans h.share
  have hallocated : ∀ {a id mem' flows'},
      allocEntryOf s.mem t.flowScheduler = (.ok id, mem', flows') →
      t.flowScheduler.allocatedRateCapacity + reservedAt (some a) ≤ uint64Max →
      EntryBooks flows' ∧ PooledInv mem' flows' (insert id live) ∧ activeEntry flows' id = none ∧
        flows'.bounds = t.flowScheduler.bounds ∧ EntryFits flows' id a := by
    intro a id mem' flows' halloc hfits
    obtain ⟨hbooks, hpool', hnone, -, -, hrates, -⟩ := h.books.alloc hpool halloc rfl
    refine ⟨hbooks, hpool', hnone, congrArg (fun r => r.2.2.bounds) halloc.symm, ?_⟩
    have hzero : reservedAt (entryAllocations flows' id) = 0 := by
      rw [entryAllocations, hnone]
      rfl
    rw [EntryFits, hzero, subU64_zero, hrates]
    exact hfits
  cases hupdate with
  | exhausted alloc =>
    have hsame := SameBooks.alloc hpool (le_refl s.mem.next)
    rw [alloc] at hsame
    exact h.same rfl hsame
  | @admitted a id mem' flows₀ flows valid alloc configured =>
    obtain ⟨hbooks, hpool', -, hbounds, hfits⟩ := hallocated alloc (hc t ht)
    have hconf := hbooks.configure hpool' hfits
    have hsame := configureEntry_bounds hpool'.group.sums id a
    rw [configured] at hconf hsame
    exact ⟨hcapacity (hsame.trans hbounds), hconf⟩
  | @rolledBack a id mem' flows₀ status flows valid alloc failed configured =>
    obtain ⟨hbooks, hpool', hnone, hbounds, -⟩ := hallocated alloc (hc t ht)
    rcases hpool'.configure_cases id a with ⟨-, heq⟩ | ⟨hok, -⟩
    · rw [configured] at heq
      subst heq
      have hsame := SameBooks.free hpool' (Finset.mem_insert_self _ live) hnone
      exact ⟨hcapacity (hsame.bounds.trans hbounds), hbooks.same hsame⟩
    · rw [configured] at hok
      exact absurd hok failed
  | @reconfigured f a status flows valid find configured =>
    have hconf := h.books.configure hpool (hc t ht a rfl)
    have hbounds := configureEntry_bounds hpool.group.sums f.toNat a
    rw [configured] at hconf hbounds
    exact ⟨hcapacity hbounds, hconf⟩
  | retired find idle =>
    have hact := activeEntry_of_findFlowEntry (by rw [find]; rfl)
    exact ⟨hcapacity (removeEntry_bounds t.flowScheduler _), h.books.retire hpool hact⟩

theorem ShareKept.mapStats {cap : ℕ} (t : Tenant) (f : ℕ) (g : Stats → Stats)
    (h : ShareKept cap t) : ShareKept cap (t.mapStats f g) :=
  h.same rfl (t.mapStats_sameBooks f g)

theorem Fresh.shareKept {numGroups binsPerGroup cap maxEntries : ℕ} {a : Allocation}
    {flows : GroupScheduler FlowSessionContext}
    (h : Fresh numGroups binsPerGroup (tenantShare cap a) maxEntries
      (⟨mem, flows⟩ : GroupState _)) (hcap : cap ≤ uint64Max) (addr : Addr) (i : ℕ)
    (hstore : flows.entries.maxEntries = maxEntries) :
    ShareKept cap (newTenant addr i a flows).core := by
  have hactive : ∀ j, Hwfq.activeEntry flows j = none := h.activeEntry
  obtain ⟨mem₀, entries, -, hinit⟩ := h.init
  obtain ⟨-, -, -, -, -, hrate, -, -, -, -, -, -, hcapacity, hmax⟩ := init_some hinit
  have hpos : maxEntries ≠ 0 := by
    rintro rfl
    simp [groupSchedulerInitWithEntries] at hinit
  have hbound : tenantShare cap a ≤ uint64Max := by
    cases a with
    | rate r =>
      have := r.toNat_lt
      unfold tenantShare uint64Max
      dsimp only
      omega
    | weight w => exact hcap
    | other => exact hcap
  refine ⟨hcapacity, ⟨⟨?_, hrate.trans_le (Nat.zero_le _)⟩, hcapacity.trans_le hbound, ?_⟩⟩
  · refine hrate.trans ?_
    simp [ratesOf, entryAllocations, newTenant, Tenant.core, hactive, reservedAt]
  · refine Eq.trans ?_ hmax.symm
    change flows.entries.limit = maxEntries
    unfold ChunkedEntries.limit
    rw [hstore, if_pos (Nat.pos_of_ne_zero hpos)]

theorem Taken.queueStep {i : ℕ} {t : Tenant} {q : SessionState FlowSessionContext}
    {x : FlowSessionContext} {flows : GroupScheduler FlowSessionContext}
    (h : Taken s i t q x flows) (hinv : SchedulerInv s) : QueueStep t.flowScheduler flows := by
  have hstep := QueueStep.dequeue (hinv.tenants i t h.tenant).flows.group.calendar
  rwa [h.dequeued] at hstep

theorem PutBack.queueStep {s₁ : Scheduler} {i : ℕ} {t t₁ : Tenant} {x : FlowSessionContext}
    {flows : GroupScheduler FlowSessionContext} (h : PutBack s s₁ i t t₁ x flows) :
    QueueStep flows (putBackResult s₁ i t₁ x).gs := by
  refine QueueStep.trans ?_ (QueueStep.enqueue _ _ _ _ _ _)
  rcases h.flows with heq | heq
  · exact heq ▸ QueueStep.refl _
  · exact heq ▸ QueueStep.update _ _

/-- Every tenant keeps its share through a call that meets the condition. -/
theorem Effect.sharesKept (h : Effect s c r s') (hinv : SchedulerInv s)
    (hs : EveryTenant (ShareKept s.totalCapacity) s.cores) (hc : KeepsShares s c) :
    EveryTenant (ShareKept s.totalCapacity) s'.cores := by
  have hat : ∀ {i t}, s.tenants i = some t → ShareKept s.totalCapacity t := fun ht =>
    have hcore := hs _ _ (cores_some ht)
    ⟨hcore.share, hcore.books⟩
  have hsame : ∀ {i : ℕ} {t u : Tenant} {cores : ℕ → Option Tenant}, s.tenants i = some t →
      cores = Function.update s.cores i (some u) → u.allocation = t.allocation →
      SameBooks t.flowScheduler u.flowScheduler →
      EveryTenant (ShareKept s.totalCapacity) cores := fun ht hcores halloc hbooks =>
    hcores ▸ hs.update fun u hu => Option.some.inj hu ▸ (hat ht).same halloc hbooks
  cases h with
  | idle _ _ tokens => exact tokens.cores ▸ hs
  | added admits valid fits blank store fresh =>
    rw [cores_of_tenants admits.tenants]
    exact hs.update fun u hu => Option.some.inj hu ▸
      fresh.shareKept (totalCapacity_le s) _ _ store
  | reallocated tenant valid fits =>
    rw [Hwfq.reallocated, setTenant_cores]
    refine EveryTenant.update hs fun u hu => Option.some.inj hu ▸ ?_
    exact ⟨(hat tenant).share.trans (hc _ tenant _ rfl valid fits).symm, (hat tenant).books⟩
  | removed tenant =>
    rw [cores_of_tenants (s := s) (v := none) rfl]
    exact hs.update fun u hu => by cases hu
  | flows update change =>
    rw [cores_of_tenants change.tenants]
    refine hs.update fun u hu => Option.some.inj hu ▸ ?_
    have hkept := (hat change.tenant).flowUpdate (hinv.tenants _ _ change.tenant) change.tenant
      update hc
    exact ⟨hkept.share, hkept.books⟩
  | accepted tenant _ _ _ _ _ changes =>
    exact hsame tenant changes.cores rfl
      ((Tenant.mapStats_sameBooks _ _ _).trans (QueueStep.enqueue _ _ _ _ _ _).sameBooks)
  | rejected tenant _ _ _ changes =>
    exact hsame tenant changes.cores rfl
      ((Tenant.mapStats_sameBooks _ _ _).trans (Tenant.mapStats_sameBooks _ _ _))
  | @missed _ _ i t flows _ _ tenant dequeued _ _ changes =>
    have hstep := QueueStep.dequeue (hinv.tenants i t tenant).flows.group.calendar
    rw [dequeued] at hstep
    exact hsame tenant changes.cores rfl hstep.sameBooks
  | putBack taken before =>
    exact hsame taken.tenant (before.changes_all taken).cores rfl
      ((taken.queueStep hinv).trans before.queueStep).sameBooks
  | @delivered _ i t q x flows t' _ taken delivers =>
    have hstep := (taken.queueStep hinv).trans (QueueStep.update flows x.workSize)
    rcases delivers.tenant with heq | ⟨w, heq⟩
    · exact hsame taken.tenant delivers.cores (by rw [heq]; rfl) (heq ▸ hstep.sameBooks)
    · refine hsame taken.tenant delivers.cores (by rw [heq]; rfl) ?_
      exact heq ▸ hstep.sameBooks.trans (Tenant.mapStats_sameBooks
        { t.core with flowScheduler := groupSchedulerUpdateVirtualTime flows x.workSize } x.flowId
        (Stats.addWait w))
  | completed _ stats ends =>
    rw [ends.cores]
    rcases stats with heq | heq
    · exact heq ▸ hs.mapStatsAt ShareKept.mapStats _ _ _
    · exact heq ▸ (hs.mapStatsAt ShareKept.mapStats _ _ _).mapStatsAt ShareKept.mapStats _ _ _
  | cancelled _ ends => exact ends.cores ▸ hs.mapStatsAt ShareKept.mapStats _ _ _
  | timedOut only =>
    have hcores : s'.cores = s.cores := by
      funext j
      rw [Scheduler.cores, only.tenants, Scheduler.cores]
    exact hcores ▸ hs
  | reset reset =>
    intro i u hu
    obtain ⟨t', ht', rfl⟩ := tenants_of_cores hu
    rcases reset.tenants i with ⟨-, hnone⟩ | ⟨t, t'', ht, ht'', hr⟩
    · simp [hnone] at ht'
    · obtain rfl : t'' = t' := by simpa [ht''] using ht'
      obtain ⟨which, hentries⟩ := hr.entries
      rw [hr.same]
      exact (hat ht).same rfl (SameBooks.reset hentries)

/-! ## Every reachable state -/

/-- The true sum of the rates of a tenant's flows. -/
def flowRates (t : Tenant) : ℕ :=
  ratesOf t.flowScheduler.maxEntries (entryAllocations t.flowScheduler)

theorem ShareKept.overbooked_iff {cap : ℕ} {t : Tenant} (h : ShareKept cap t) {live : Finset ℕ}
    (hpool : PooledInv mem t.flowScheduler live) {a : Allocation} {id : ℕ} {mem' : Allocator}
    {flows : GroupScheduler FlowSessionContext}
    (halloc : allocEntryOf mem t.flowScheduler = (.ok id, mem', flows))
    (hvalid : validateAllocation a = true)
    (hfits : t.flowScheduler.allocatedRateCapacity + a.reserved ≤ uint64Max) :
    (groupSchedulerConfigureEntry flows id a).1 = .overbooked ↔
      tenantShare cap t.allocation < flowRates t + a.reserved := by
  obtain ⟨hbooks, hpool', hnone, hlt, hget, hrates, htable⟩ := h.books.alloc hpool halloc rfl
  have hzero : reservedAt (entryAllocations flows id) = 0 := by
    rw [entryAllocations, hnone]
    rfl
  have hbounds : flows.bounds = t.flowScheduler.bounds :=
    congrArg (fun r => r.2.2.bounds) halloc.symm
  have hmax : flows.maxEntries = t.flowScheduler.maxEntries := congrArg Bounds.maxEntries hbounds
  have hcap : flows.totalCapacity = t.flowScheduler.totalCapacity := congrArg Bounds.totalCapacity hbounds
  rw [hbooks.overbooked_iff hpool' (by rwa [EntryFits, hzero, subU64_zero, hrates]) hlt hvalid hget,
    hzero, htable, hmax, hcap, h.share, Nat.sub_zero, flowRates]

/-- The invariant of a run that keeps the shares. -/
structure SharesKept (s : Scheduler) : Prop where
  inv : SchedulerInv s
  kept : EveryTenant (ShareKept s.totalCapacity) s.cores

theorem SharesKept.tenant (h : SharesKept s) {i : ℕ} {t : Tenant} (ht : s.tenants i = some t) :
    ShareKept s.totalCapacity t :=
  have hcore := h.kept i t.core (cores_some ht)
  ⟨hcore.share, hcore.books⟩

theorem SharesKept.step (h : SharesKept s) {c : Call} (hc : KeepsShares s c) :
    SharesKept (after s c) := by
  have hcap : (after s c).totalCapacity = s.totalCapacity :=
    congrArg (·.totalCapacity.toNat) (h.inv.after_config c)
  exact ⟨h.inv.after c, hcap ▸ (h.inv.effect c).sharesKept h.inv h.kept hc⟩

/-- The call reaches the booking of a new flow with allocation `a` for tenant `t`. -/
structure ReachesBooking (s : Scheduler) (i : ℕ) (a : Allocation) (t : Tenant) : Prop where
  tenant : s.tenants i = some t
  valid : validateAllocation a = true
  room : s.config.maxTotalFlows > 0 → s.totalActiveFlows < s.config.maxTotalFlows.toNat
  slot : ∃ id, (allocEntryOf s.mem t.flowScheduler).1 = .ok id

theorem addFlow_overbooked (h : SchedulerInv s) (i : ℕ) (a : Allocation) :
    (hwfqAddFlow s i (some a) true).1 = .overbooked ↔
      ∃ t id mem flows, ReachesBooking s i a t ∧
        allocEntryOf s.mem t.flowScheduler = (.ok id, mem, flows) ∧
        (groupSchedulerConfigureEntry flows id a).1 = .overbooked := by
  unfold hwfqAddFlow
  rw [h.configuredTenant]
  dsimp only
  by_cases hslot : i ≥ s.maxTenants
  · rw [if_neg (by simp), if_pos hslot]
    refine ⟨fun hbad => (by cases hbad), fun ⟨t, _, _, _, hreach, _⟩ => ?_⟩
    exact absurd (h.lt_maxTenants hreach.tenant) (Nat.not_lt.mpr hslot)
  by_cases hvalid : validateAllocation a = true
  swap
  · rw [if_neg (by simp), if_neg hslot, if_pos (by simp [hvalid])]
    exact ⟨fun hbad => (by cases hbad), fun ⟨t, _, _, _, hreach, _⟩ => absurd hreach.valid hvalid⟩
  rw [if_neg (by simp), if_neg hslot, if_neg (by simp [hvalid])]
  cases ht : s.tenants i with
  | none =>
    refine ⟨fun hbad => (by cases hbad), fun ⟨t, _, _, _, hreach, _⟩ => ?_⟩
    rw [hreach.tenant] at ht
    cases ht
  | some t =>
    dsimp only
    by_cases hfull : s.config.maxTotalFlows > 0 ∧ s.totalActiveFlows ≥ s.config.maxTotalFlows.toNat
    · rw [if_pos hfull]
      refine ⟨fun hbad => (by cases hbad), fun ⟨t', _, _, _, hreach, _⟩ => ?_⟩
      exact absurd (hreach.room hfull.1) (Nat.not_lt.mpr hfull.2)
    rw [if_neg hfull]
    have hroom : s.config.maxTotalFlows > 0 → s.totalActiveFlows < s.config.maxTotalFlows.toNat :=
      fun hpos => Nat.lt_of_not_le fun hle => hfull ⟨hpos, hle⟩
    have hunique : ∀ {t' : Tenant}, ReachesBooking s i a t' → t' = t := fun hreach => by
      have ht' := hreach.tenant
      rw [ht, Option.some.injEq] at ht'
      exact ht'.symm
    cases halloc : allocEntryOf s.mem t.flowScheduler with
    | mk ret rest =>
      obtain ⟨mem, flows⟩ := rest
      cases ret with
      | error e =>
        refine ⟨fun hbad => (by cases hbad), fun ⟨t', id, _, _, hreach, halloc', _⟩ => ?_⟩
        obtain rfl := hunique hreach
        rw [halloc] at halloc'
        cases halloc'
      | ok id =>
        dsimp only
        constructor
        · intro hstatus
          refine ⟨t, id, mem, flows, ⟨ht, hvalid, hroom, id, by rw [halloc]⟩, halloc, ?_⟩
          cases hconf : groupSchedulerConfigureEntry flows id a with
          | mk status flows' =>
            rw [hconf] at hstatus
            cases status <;> first | rfl | cases hstatus
        · rintro ⟨t', id', mem', flows₂, hreach, halloc', hover⟩
          obtain rfl := hunique hreach
          rw [halloc] at halloc'
          cases halloc'
          cases hconf : groupSchedulerConfigureEntry flows id a with
          | mk status flows' =>
            rw [hconf] at hover
            dsimp only at hover
            subst hover
            rfl

theorem SharesKept.addFlow_overbooked_iff (h : SharesKept s) {i : UInt32} {a : Allocation}
    (hc : KeepsShares s (.addFlow i (some a) true)) :
    (hwfqAddFlow s i.toNat (some a) true).1 = .overbooked ↔
      ∃ t, ReachesBooking s i.toNat a t ∧
        tenantShare s.totalCapacity t.allocation < flowRates t + a.reserved := by
  have hbook : ∀ {t id mem' flows}, ReachesBooking s i.toNat a t →
      allocEntryOf s.mem t.flowScheduler = (.ok id, mem', flows) →
      ((groupSchedulerConfigureEntry flows id a).1 = .overbooked ↔
        tenantShare s.totalCapacity t.allocation < flowRates t + a.reserved) := by
    intro t id mem' flows hreach halloc
    obtain ⟨live, hpool⟩ := (h.inv.tenants _ t hreach.tenant).flows.pooled
    exact (h.tenant hreach.tenant).overbooked_iff hpool halloc hreach.valid (hc t hreach.tenant)
  rw [addFlow_overbooked h.inv]
  constructor
  · rintro ⟨t, id, mem', flows, hreach, halloc, hover⟩
    exact ⟨t, hreach, (hbook hreach halloc).mp hover⟩
  · rintro ⟨t, hreach, hover⟩
    obtain ⟨id, hid⟩ := hreach.slot
    have halloc : allocEntryOf s.mem t.flowScheduler =
        (.ok id, (allocEntryOf s.mem t.flowScheduler).2) := Prod.ext hid rfl
    exact ⟨t, id, _, _, hreach, halloc, (hbook hreach halloc).mpr hover⟩

theorem SharesKept.reconfigureFlow_overbooked_iff (h : SharesKept s) {i f : UInt32}
    {a : Allocation} (hc : KeepsShares s (.reconfigureFlow i f (some a))) :
    (hwfqReconfigureFlow s i.toNat f.toNat (some a)).1 = .overbooked ↔
      f.toNat ≠ flowIdReserved ∧ validateAllocation a = true ∧ ∃ t e,
        s.tenants i.toNat = some t ∧ findFlowEntry t f.toNat = some e ∧
        tenantShare s.totalCapacity t.allocation <
          flowRates t - e.allocation.reserved + a.reserved := by
  unfold hwfqReconfigureFlow
  rw [h.inv.configuredTenant]
  dsimp only
  by_cases hreserved : f.toNat = flowIdReserved
  · rw [if_pos hreserved]
    exact ⟨fun hbad => (by cases hbad), fun hright => absurd hreserved hright.1⟩
  rw [if_neg hreserved]
  by_cases hslot : i.toNat ≥ s.maxTenants
  · rw [if_pos hslot]
    refine ⟨fun hbad => (by cases hbad), fun ⟨_, _, t, _, ht, _⟩ => ?_⟩
    exact absurd (h.inv.lt_maxTenants ht) (Nat.not_lt.mpr hslot)
  rw [if_neg hslot]
  by_cases hvalid : validateAllocation a = true
  swap
  · rw [if_pos (by simp [hvalid])]
    exact ⟨fun hbad => (by cases hbad), fun hright => absurd hright.2.1 hvalid⟩
  rw [if_neg (by simp [hvalid])]
  cases ht : s.tenants i.toNat with
  | none => simp
  | some t =>
    dsimp only
    cases hfind : findFlowEntry t f.toNat with
    | none => simp [hfind]
    | some e =>
      have hkept := h.tenant ht
      obtain ⟨live, hpool⟩ := (h.inv.tenants _ t ht).flows.pooled
      have hactive : activeEntry t.flowScheduler f.toNat = some e.core := activeEntry_of_find hfind
      have hlive : f.toNat ∈ live := hpool.pool.mem_of_active (by rw [hactive]; rfl)
      have hover := hkept.books.overbooked_iff hpool (hc t ht a rfl)
        (hpool.bounded f.toNat (by rw [hactive]; rfl)) hvalid
        (hpool.pool.reach f.toNat (hpool.pool.live_lt f.toNat hlive))
      have hold : reservedAt (entryAllocations t.flowScheduler f.toNat) =
          e.allocation.reserved := by
        rw [entryAllocations, hactive]
        rfl
      rw [hold, hkept.share] at hover
      simp only [Option.isNone_some, Bool.false_eq_true, if_false]
      rw [hover]
      simp [hreserved, hvalid, hfind, flowRates]

/-- What holds of the shares of tenants and of the answers to the next booking. -/
structure SharesExact (s : Scheduler) : Prop where
  share : ∀ i t, s.tenants i = some t →
    t.flowScheduler.totalCapacity = tenantShare s.totalCapacity t.allocation
  flows : ∀ i t, s.tenants i = some t →
    flowRates t ≤ tenantShare s.totalCapacity t.allocation
  add : ∀ (i : UInt32) a, KeepsShares s (.addFlow i (some a) true) →
    ((hwfqAddFlow s i.toNat (some a) true).1 = .overbooked ↔
      ∃ t, ReachesBooking s i.toNat a t ∧
        tenantShare s.totalCapacity t.allocation < flowRates t + a.reserved)
  reconfigure : ∀ (i f : UInt32) a, KeepsShares s (.reconfigureFlow i f (some a)) →
    ((hwfqReconfigureFlow s i.toNat f.toNat (some a)).1 = .overbooked ↔
      f.toNat ≠ flowIdReserved ∧ validateAllocation a = true ∧ ∃ t e,
        s.tenants i.toNat = some t ∧ findFlowEntry t f.toNat = some e ∧
        tenantShare s.totalCapacity t.allocation <
          flowRates t - e.allocation.reserved + a.reserved)

theorem SharesKept.exact (h : SharesKept s) : SharesExact s where
  share i t ht := (h.tenant ht).share
  flows i t ht := by
    have hkept := h.tenant ht
    rw [← hkept.share, flowRates, ← hkept.books.books.exact]
    exact hkept.books.books.within
  add i a hc := h.addFlow_overbooked_iff hc
  reconfigure i f a hc := h.reconfigureFlow_overbooked_iff hc

/-- Flows book against the current share of their tenant in every run whose
tenant calls keep the shares and whose flow bookings add without a wrap. -/
theorem flow_rates_within_share (h : Made s) {calls : List Call}
    (hcalls : Along after KeepsShares s calls) : SharesExact (afterRun s calls) := by
  obtain ⟨mem, config, hinit⟩ := h
  have hnew := hwfqInit_success hinit
  have hfirst : SharesKept s := ⟨hnew.inv, fun i t ht => by
    simp [Scheduler.cores, hnew.tenants] at ht⟩
  exact (run_invariant (fun _ _ hs hc => hs.step hc) hfirst hcalls).exact

theorem flow_rates_within_share_small :
    SharesExact (afterRun smallScheduler [.addTenant (some (.rate 50)) true,
      .addFlow 0 (some (.rate 30)) true, .addFlow 0 (some (.rate 20)) true,
      .configureTenant 0 (some (.rate 50)), .reconfigureFlow 0 2 (some (.rate 10))]) :=
  flow_rates_within_share smallScheduler_made (by decide +kernel)

/-- A tenant of rate 50 sells 40 to a flow and is then cut down to rate 10. -/
def shrinkingCalls : List Call :=
  [.addTenant (some (.rate 50)) true, .addFlow 0 (some (.rate 40)) true,
    .configureTenant 0 (some (.rate 10))]

theorem flow_rates_exceed_share :
    Made smallScheduler ∧ ¬ SharesExact (afterRun smallScheduler shrinkingCalls) := by
  refine ⟨smallScheduler_made, fun hexact => ?_⟩
  have hover : ∃ t ∈ (afterRun smallScheduler shrinkingCalls).tenants 0,
      tenantShare (afterRun smallScheduler shrinkingCalls).totalCapacity t.allocation <
        flowRates t := by
    decide +kernel
  obtain ⟨t, ht, hlt⟩ := hover
  exact absurd (hexact.flows 0 t ht) (Nat.not_le.mpr hlt)

end Hwfq
