import Hwfq.TenantShares

/-!
# The ledger of one group scheduler

The list of configured entries, the sums over it and the rate cached in every entry.
Configuring and removing an entry exchange its part of the sums and refresh the rates
of all weights; the queue and the statistics touch none of it.
-/
namespace Hwfq
open GuardedRuns

variable {α : Type*} {gs gs' : GroupScheduler α} {mem : Allocator} {live : Finset ℕ}

def weightAt (a : Option Allocation) : ℕ := a.elim 0 Allocation.weightValue

/-- The sum of a reading of the allocations over a list of entries. -/
def sumOver (gs : GroupScheduler α) (f : Option Allocation → ℕ) (ids : List ℕ) : ℕ :=
  (ids.map fun id => f (entryAllocations gs id)).sum

/-- The rate that an entry should have in its cache. -/
def cachedRate (gs : GroupScheduler α) (e : EntryConfig) : ℕ :=
  match e.allocation with
  | .rate r => r.toNat
  | .weight _ => calculateEffectiveRate gs e
  | .other => e.calculatedRate

structure EntryLedger (gs : GroupScheduler α) : Prop where
  nodup : gs.configuredEntries.Nodup
  listed : ∀ id, id ∈ gs.configuredEntries ↔ (groupSchedulerFindEntry gs id).isSome = true
  rates : gs.allocatedRateCapacity = u64 (sumOver gs reservedAt gs.configuredEntries)
  weights : gs.totalWeight = u32 (sumOver gs weightAt gs.configuredEntries)
  valid : ∀ id e, groupSchedulerFindEntry gs id = some e → validateAllocation e.allocation = true
  cached : ∀ id e, groupSchedulerFindEntry gs id = some e → e.calculatedRate = cachedRate gs e

/-! ## What the ledger does not see -/

/-- The allocation of a configured entry with its cached rate. -/
def rateFace (gs : GroupScheduler α) (id : ℕ) : Option (Allocation × ℕ) :=
  (groupSchedulerFindEntry gs id).map fun e => (e.allocation, e.calculatedRate)

structure RatesKept (gs gs' : GroupScheduler α) : Prop where
  configuredEntries : gs'.configuredEntries = gs.configuredEntries
  rates : gs'.allocatedRateCapacity = gs.allocatedRateCapacity
  weights : gs'.totalWeight = gs.totalWeight
  capacity : gs'.totalCapacity = gs.totalCapacity
  faces : ∀ id, rateFace gs' id = rateFace gs id

theorem RatesKept.refl (gs : GroupScheduler α) : RatesKept gs gs := ⟨rfl, rfl, rfl, rfl, fun _ => rfl⟩

theorem RatesKept.trans {gs₁ gs₂ gs₃ : GroupScheduler α} (h : RatesKept gs₁ gs₂)
    (h' : RatesKept gs₂ gs₃) : RatesKept gs₁ gs₃ :=
  ⟨h'.configuredEntries.trans h.configuredEntries, h'.rates.trans h.rates, h'.weights.trans h.weights,
    h'.capacity.trans h.capacity, fun id => (h'.faces id).trans (h.faces id)⟩

theorem entryAllocations_of_find (gs : GroupScheduler α) (id : ℕ) :
    entryAllocations gs id = (groupSchedulerFindEntry gs id).map (·.allocation) := by
  rw [entryAllocations, activeEntry_eq, Option.map_map]
  rfl

theorem entryAllocations_of_face (gs : GroupScheduler α) (id : ℕ) :
    entryAllocations gs id = (rateFace gs id).map Prod.fst := by
  rw [entryAllocations_of_find, rateFace, Option.map_map]
  rfl

theorem effectiveRate_congr (hrates : gs'.allocatedRateCapacity = gs.allocatedRateCapacity)
    (hweights : gs'.totalWeight = gs.totalWeight) (hcapacity : gs'.totalCapacity = gs.totalCapacity)
    {e e' : EntryConfig} (halloc : e'.allocation = e.allocation) :
    calculateEffectiveRate gs' e' = calculateEffectiveRate gs e := by
  unfold calculateEffectiveRate
  rw [hrates, hweights, hcapacity, halloc]

theorem cachedRate_congr (hrates : gs'.allocatedRateCapacity = gs.allocatedRateCapacity)
    (hweights : gs'.totalWeight = gs.totalWeight) (hcapacity : gs'.totalCapacity = gs.totalCapacity)
    {e e' : EntryConfig} (halloc : e'.allocation = e.allocation)
    (hcalc : e'.calculatedRate = e.calculatedRate) : cachedRate gs' e' = cachedRate gs e := by
  have heff := @effectiveRate_congr _ gs gs' hrates hweights hcapacity e e' halloc
  unfold cachedRate
  rw [halloc, heff, hcalc]

theorem EntryLedger.keep (h : EntryLedger gs) (hkept : RatesKept gs gs') : EntryLedger gs' := by
  have htable : entryAllocations gs' = entryAllocations gs := by
    funext id
    rw [entryAllocations_of_face, hkept.faces, entryAllocations_of_face]
  have hsums : ∀ f ids, sumOver gs' f ids = sumOver gs f ids := by
    intro f ids
    unfold sumOver
    rw [htable]
  have hfind : ∀ id e', groupSchedulerFindEntry gs' id = some e' →
      ∃ e, groupSchedulerFindEntry gs id = some e ∧ e'.allocation = e.allocation ∧
        e'.calculatedRate = e.calculatedRate := by
    intro id e' he'
    have hface := hkept.faces id
    rw [rateFace, rateFace, he', Option.map_some] at hface
    obtain ⟨e, he, hsame⟩ := Option.map_eq_some_iff.mp hface.symm
    obtain ⟨halloc, hcalc⟩ := Prod.mk.injEq .. ▸ hsame
    exact ⟨e, he, halloc.symm, hcalc.symm⟩
  constructor
  · rw [hkept.configuredEntries]
    exact h.nodup
  · intro id
    have hface := congrArg Option.isSome (hkept.faces id)
    rw [rateFace, rateFace, Option.isSome_map, Option.isSome_map] at hface
    rw [hkept.configuredEntries, h.listed, hface]
  · rw [hkept.rates, h.rates, hkept.configuredEntries, hsums]
  · rw [hkept.weights, h.weights, hkept.configuredEntries, hsums]
  · intro id e' he'
    obtain ⟨e, he, halloc, -⟩ := hfind id e' he'
    rw [halloc]
    exact h.valid id e he
  · intro id e' he'
    obtain ⟨e, he, halloc, hcalc⟩ := hfind id e' he'
    rw [hcalc, h.cached id e he]
    exact (cachedRate_congr hkept.rates hkept.weights hkept.capacity halloc hcalc).symm

/-- A write that leaves the flag, the allocation and the cached rate of the entry alone. -/
theorem RatesKept.write (gs : GroupScheduler α) (id : ℕ) {f : EntryConfig → EntryConfig}
    (hconf : ∀ e, (f e).configured = e.configured) (halloc : ∀ e, (f e).allocation = e.allocation)
    (hcalc : ∀ e, (f e).calculatedRate = e.calculatedRate) : RatesKept gs (gs.writeEntry id f) := by
  refine ⟨rfl, rfl, rfl, rfl, fun j => ?_⟩
  unfold rateFace groupSchedulerFindEntry GroupScheduler.writeEntry
  rw [get_write]
  split_ifs
  · cases hwfqChunkedGet gs.entries j with
    | none => rfl
    | some e =>
      rw [Option.map_some, Option.filter_some, Option.filter_some, hconf]
      split_ifs
      · rw [Option.map_some, Option.map_some, halloc, hcalc]
      · rfl
  · rfl

theorem RatesKept.of_ledger (h : gs'.ledger = gs.ledger) : RatesKept gs gs' := by
  simp only [GroupScheduler.ledger, Ledger.mk.injEq] at h
  obtain ⟨hentries, -, hlist, hrates, hweight, hcapacity⟩ := h
  refine ⟨hlist, hrates, hweight, hcapacity, fun id => ?_⟩
  rw [rateFace, groupSchedulerFindEntry, hentries, rateFace, groupSchedulerFindEntry]

/-- A loop over the configured entries that leaves the same things alone. -/
theorem RatesKept.writeAll (gs : GroupScheduler α) (ids : List ℕ) {f : EntryConfig → EntryConfig}
    (hconf : ∀ e, (f e).configured = e.configured) (halloc : ∀ e, (f e).allocation = e.allocation)
    (hcalc : ∀ e, (f e).calculatedRate = e.calculatedRate) :
    RatesKept gs { gs with entries := writeAll gs.entries ids f } := by
  refine ⟨rfl, rfl, rfl, rfl, fun j => ?_⟩
  have hread := get_writeAll_map (g := fun e => (e.configured, e.allocation, e.calculatedRate))
    (fun e => by rw [hconf, halloc, hcalc]) ids gs.entries j
  have hface : ∀ o : Option EntryConfig, (o.filter (·.configured)).map
      (fun e => (e.allocation, e.calculatedRate)) =
        ((o.map fun e => (e.configured, e.allocation, e.calculatedRate)).filter Prod.fst).map
          Prod.snd := by
    intro o
    cases o with
    | none => rfl
    | some e => cases h : e.configured <;> simp [Option.filter_some, h]
  unfold rateFace groupSchedulerFindEntry
  rw [hface, hface, hread]

/-! ## The operations of the queue -/

theorem RatesKept.enqueue (mem : Allocator) (gs : GroupScheduler α) (id w : ℕ) (ud : Option α)
    (cf : Bool) : RatesKept gs (groupSchedulerEnqueue mem gs id w ud cf).gs := by
  rcases enqueue_cases mem gs id w ud cf with ⟨-, heq, -⟩ | ⟨-, -, -, -, entry, -, heq⟩
  · rw [heq]
    exact .refl gs
  · rw [heq]
    refine (RatesKept.write gs id (f := fun e => { e with
      lastFinishTime := (newSession gs entry mem.next id w ud cf).finishTime }) (fun _ => rfl)
      (fun _ => rfl) fun _ => rfl).trans (.of_ledger ?_)
    exact enqueued_ledger id gs (newSession gs entry mem.next id w ud cf)

theorem RatesKept.dequeue (gs : GroupScheduler α) : RatesKept gs (groupSchedulerDequeue gs).2 :=
  .of_ledger (dequeue_ledger gs)

theorem RatesKept.update (gs : GroupScheduler α) (w : ℕ) :
    RatesKept gs (groupSchedulerUpdateVirtualTime gs w) := by
  rcases updateVirtualTime_cases gs w with ⟨-, heq⟩ | ⟨-, heq⟩
  · rw [heq]
    exact .of_ledger rfl
  · rw [heq]
    refine (RatesKept.writeAll gs gs.configuredEntries (f := fun e => { e with
      lastFinishTime := rebaseTime (advancedVirtualTime gs w / 2) e.lastFinishTime }) (fun _ => rfl)
      (fun _ => rfl) fun _ => rfl).trans ?_
    exact .of_ledger rfl

/-! ## Exchanging an entry -/

theorem subU64_u64_add {r : ℕ} (hr : r ≤ uint64Max) (n : ℕ) : subU64 (u64 (r + n)) r = u64 n := by
  unfold uint64Max at hr
  unfold subU64 u64
  split_ifs <;> omega

theorem subU32_u32_add {r : ℕ} (hr : r ≤ uint32Max) (n : ℕ) : subU32 (u32 (r + n)) r = u32 n := by
  unfold uint32Max at hr
  unfold subU32 u32
  split_ifs <;> omega

theorem u64_u64_add (m n : ℕ) : u64 (u64 m + n) = u64 (n + m) := by
  unfold u64
  omega

theorem u32_u32_add (m n : ℕ) : u32 (u32 m + n) = u32 (n + m) := by
  unfold u32
  omega

theorem release_weights (gs : GroupScheduler α) (a : Allocation) :
    (gs.release a).totalWeight = subU32 gs.totalWeight a.weightValue := by
  have hzero : subU32 gs.totalWeight 0 = gs.totalWeight := by
    unfold subU32
    rw [if_pos (Nat.zero_le _), Nat.sub_zero]
  cases a with
  | rate r => exact hzero.symm
  | weight w => rfl
  | other => rfl

theorem reserve_weights (h : SumsFit gs) (a : Allocation) :
    (gs.reserve a).totalWeight = u32 (gs.totalWeight + a.weightValue) := by
  cases a with
  | rate r => exact (u32_of_le h.weights).symm
  | weight w => rfl
  | other => rfl

theorem sumOver_cons (f : Option Allocation → ℕ) (id : ℕ) (ids : List ℕ) :
    sumOver gs f (id :: ids) = f (entryAllocations gs id) + sumOver gs f ids := by
  rw [sumOver, List.map_cons, List.sum_cons, sumOver]

theorem sumOver_perm {f : Option Allocation → ℕ} {ids ids' : List ℕ} (h : ids.Perm ids') :
    sumOver gs f ids = sumOver gs f ids' := (h.map _).sum_eq

/-- Entries outside the list have no part in the sum. -/
theorem sumOver_congr (f : Option Allocation → ℕ) {ids : List ℕ}
    (h : ∀ id ∈ ids, entryAllocations gs' id = entryAllocations gs id) :
    sumOver gs' f ids = sumOver gs f ids := by
  unfold sumOver
  congr 1
  apply List.map_congr_left
  intro id hid
  rw [h id hid]

/-- Without entry `id` the sums are those over the other entries. -/
theorem EntryLedger.released (h : EntryLedger gs) {id : ℕ} {entry : EntryConfig}
    (hget : hwfqChunkedGet gs.entries id = some entry) :
    (releasedFor gs entry).allocatedRateCapacity =
        u64 (sumOver gs reservedAt (gs.configuredEntries.erase id)) ∧
      (releasedFor gs entry).totalWeight =
        u32 (sumOver gs weightAt (gs.configuredEntries.erase id)) := by
  have hfind : groupSchedulerFindEntry gs id = if entry.configured then some entry else none := by
    rw [groupSchedulerFindEntry, hget, Option.filter_some]
  unfold releasedFor
  by_cases hconf : entry.configured = true
  · rw [if_pos hconf] at hfind ⊢
    have halloc : entryAllocations gs id = some entry.allocation := by
      rw [entryAllocations_of_find, hfind, Option.map_some]
    have hin : id ∈ gs.configuredEntries := (h.listed id).mpr (by rw [hfind]; rfl)
    have hsplit : ∀ f, sumOver gs f gs.configuredEntries =
        f (some entry.allocation) + sumOver gs f (gs.configuredEntries.erase id) := by
      intro f
      rw [sumOver_perm (List.perm_cons_erase hin), sumOver_cons, halloc]
    constructor
    · rw [release_rates, h.rates, hsplit]
      exact subU64_u64_add entry.allocation.reserved_le _
    · rw [release_weights, h.weights, hsplit]
      exact subU32_u32_add entry.allocation.weightValue_le _
  · rw [if_neg hconf] at hfind ⊢
    have hout : id ∉ gs.configuredEntries := by
      rw [h.listed, hfind]
      simp
    rw [List.erase_of_not_mem hout]
    exact ⟨h.rates, h.weights⟩

/-- What `recalculate_weight_based_rates` writes to one entry. -/
def refreshed (gs : GroupScheduler α) (e : EntryConfig) : EntryConfig :=
  match e.allocation with
  | .weight _ => { e with calculatedRate := calculateEffectiveRate gs e }
  | _ => e

theorem refreshed_cached (gs : GroupScheduler α) (e : EntryConfig) :
    (refreshed gs e).configured = e.configured ∧ (refreshed gs e).allocation = e.allocation ∧
      ((∀ r, e.allocation = .rate r → e.calculatedRate = r.toNat) →
        (refreshed gs e).calculatedRate = cachedRate gs (refreshed gs e)) := by
  obtain ⟨entryId, configured, a, rate, last, stats⟩ := e
  cases a with
  | weight w => exact ⟨rfl, rfl, fun _ => rfl⟩
  | rate r => exact ⟨rfl, rfl, fun h => h r rfl⟩
  | other => exact ⟨rfl, rfl, fun _ => rfl⟩

theorem recalculate_find (hnodup : gs.configuredEntries.Nodup) (j : ℕ) :
    groupSchedulerFindEntry (recalculateWeightBasedRates gs) j =
      if j ∈ gs.configuredEntries then (groupSchedulerFindEntry gs j).map (refreshed gs)
      else groupSchedulerFindEntry gs j := by
  have hget : hwfqChunkedGet (recalculateWeightBasedRates gs).entries j =
      if j ∈ gs.configuredEntries then (hwfqChunkedGet gs.entries j).map (refreshed gs)
      else hwfqChunkedGet gs.entries j := get_writeAll hnodup (refreshed gs) gs.entries j
  unfold groupSchedulerFindEntry
  rw [hget]
  split_ifs
  · cases hwfqChunkedGet gs.entries j with
    | none => rfl
    | some e =>
      rw [Option.map_some, Option.filter_some, Option.filter_some, (refreshed_cached gs e).1]
      split_ifs <;> rfl
  · rfl

/-- Refreshing the rates of the weights completes a ledger. -/
theorem EntryLedger.refresh (hnodup : gs.configuredEntries.Nodup)
    (hlisted : ∀ id, id ∈ gs.configuredEntries ↔ (groupSchedulerFindEntry gs id).isSome = true)
    (hrates : gs.allocatedRateCapacity = u64 (sumOver gs reservedAt gs.configuredEntries))
    (hweights : gs.totalWeight = u32 (sumOver gs weightAt gs.configuredEntries))
    (hvalid : ∀ id e, groupSchedulerFindEntry gs id = some e →
      validateAllocation e.allocation = true)
    (hcached : ∀ id e r, groupSchedulerFindEntry gs id = some e → e.allocation = .rate r →
      e.calculatedRate = r.toNat) : EntryLedger (recalculateWeightBasedRates gs) := by
  have hfind : ∀ j, groupSchedulerFindEntry (recalculateWeightBasedRates gs) j =
      (groupSchedulerFindEntry gs j).map (refreshed gs) := by
    intro j
    rw [recalculate_find hnodup]
    split_ifs with hj
    · rfl
    · rw [hlisted, Option.not_isSome_iff_eq_none] at hj
      rw [hj]
      rfl
  have htable : ∀ id, entryAllocations (recalculateWeightBasedRates gs) id = entryAllocations gs id := by
    intro id
    rw [entryAllocations_of_find, hfind, entryAllocations_of_find, Option.map_map]
    congr 1
    funext e
    exact (refreshed_cached gs e).2.1
  constructor
  · exact hnodup
  · intro id
    rw [hfind, Option.isSome_map]
    exact hlisted id
  · rw [sumOver_congr reservedAt fun id _ => htable id]
    exact hrates
  · rw [sumOver_congr weightAt fun id _ => htable id]
    exact hweights
  · intro id e he
    rw [hfind] at he
    obtain ⟨e₀, he₀, rfl⟩ := Option.map_eq_some_iff.mp he
    rw [(refreshed_cached gs e₀).2.1]
    exact hvalid id e₀ he₀
  · intro id e he
    rw [hfind] at he
    obtain ⟨e₀, he₀, rfl⟩ := Option.map_eq_some_iff.mp he
    exact (refreshed_cached gs e₀).2.2 fun r hr => hcached id e₀ r he₀ hr

/-! ## Configuring and removing -/

/-- The state that `commitEntry` refreshes. -/
def committed (gs : GroupScheduler α) (entry : EntryConfig) (id : ℕ) (a : Allocation) :
    GroupScheduler α :=
  { ((releasedFor gs entry).reserve a).writeEntry id fun e =>
      { e with
        entryId := id
        allocation := a
        calculatedRate := a.reserved
        lastFinishTime := 0
        configured := true } with
    configuredEntries :=
      if entry.configured then gs.configuredEntries else id :: gs.configuredEntries }

theorem commitEntry_eq (gs : GroupScheduler α) (entry : EntryConfig) (id : ℕ) (a : Allocation) :
    commitEntry (releasedFor gs entry) entry id a =
      recalculateWeightBasedRates (committed gs entry id a) := by
  unfold commitEntry committed
  simp only [GroupScheduler.writeEntry, reserve_configuredEntries, releasedFor_configuredEntries]

theorem committed_find {entry : EntryConfig} {id : ℕ} (a : Allocation)
    (hget : hwfqChunkedGet gs.entries id = some entry) (j : ℕ) :
    groupSchedulerFindEntry (committed gs entry id a) j =
      if j = id then some { entry with
        entryId := id
        allocation := a
        calculatedRate := a.reserved
        lastFinishTime := 0
        configured := true }
      else groupSchedulerFindEntry gs j := by
  unfold committed groupSchedulerFindEntry GroupScheduler.writeEntry
  dsimp only
  rw [get_write, reserve_entries, releasedFor_entries]
  split_ifs with hj
  · rw [hj, hget, Option.map_some, Option.filter_some, if_pos rfl]
  · rfl

theorem EntryLedger.commit (h : EntryLedger gs) (hsums : SumsFit gs) {entry : EntryConfig} {id : ℕ}
    {a : Allocation} (hget : hwfqChunkedGet gs.entries id = some entry)
    (ha : validateAllocation a = true) :
    EntryLedger (commitEntry (releasedFor gs entry) entry id a) := by
  have hfind := @committed_find _ gs entry id a hget
  have htable : ∀ j, entryAllocations (committed gs entry id a) j =
      if j = id then some a else entryAllocations gs j := by
    intro j
    rw [entryAllocations_of_find, hfind]
    split_ifs
    · rfl
    · rw [entryAllocations_of_find]
  have hin : id ∈ gs.configuredEntries ↔ entry.configured = true := by
    rw [h.listed, groupSchedulerFindEntry, hget, Option.filter_some]
    split_ifs with hconf
    · exact iff_of_true rfl hconf
    · exact iff_of_false (by simp) hconf
  have hout : id ∉ gs.configuredEntries.erase id := h.nodup.not_mem_erase
  have hperm : (committed gs entry id a).configuredEntries.Perm
      (id :: gs.configuredEntries.erase id) := by
    unfold committed
    dsimp only
    split_ifs with hconf
    · exact List.perm_cons_erase (hin.mpr hconf)
    · rw [List.erase_of_not_mem fun hid => hconf (hin.mp hid)]
  have hsum : ∀ f, sumOver (committed gs entry id a) f (committed gs entry id a).configuredEntries =
      f (some a) + sumOver gs f (gs.configuredEntries.erase id) := by
    intro f
    rw [sumOver_perm hperm, sumOver_cons, htable, if_pos rfl]
    congr 1
    apply sumOver_congr
    intro j hj
    rw [htable, if_neg fun heq : j = id => hout (heq ▸ hj)]
  obtain ⟨hrates, hweights⟩ := h.released hget
  have hreleased := hsums.releasedFor entry
  rw [commitEntry_eq]
  apply EntryLedger.refresh
  · exact (hperm.nodup_iff).mpr (List.nodup_cons.mpr ⟨hout, h.nodup.erase id⟩)
  · intro j
    rw [hperm.mem_iff, List.mem_cons, hfind]
    by_cases hj : j = id
    · simp [hj]
    · rw [if_neg hj, ← h.listed, h.nodup.mem_erase_iff]
      simp [hj]
  · have hreserve : (committed gs entry id a).allocatedRateCapacity =
        ((releasedFor gs entry).reserve a).allocatedRateCapacity := rfl
    rw [hsum, hreserve, reserve_rates hreleased, hrates]
    exact u64_u64_add _ _
  · have hreserve : (committed gs entry id a).totalWeight =
        ((releasedFor gs entry).reserve a).totalWeight := rfl
    rw [hsum, hreserve, reserve_weights hreleased, hweights]
    exact u32_u32_add _ _
  · intro j e he
    rw [hfind] at he
    split_ifs at he with hj
    · cases he
      exact ha
    · exact h.valid j e he
  · intro j e r he hr
    rw [hfind] at he
    split_ifs at he with hj
    · cases he
      dsimp only at hr ⊢
      rw [hr]
      rfl
    · have hcached := h.cached j e he
      rw [hcached]
      unfold cachedRate
      rw [hr]

theorem EntryLedger.configure (h : EntryLedger gs) (hsums : SumsFit gs) (id : ℕ) (a : Allocation) :
    EntryLedger (groupSchedulerConfigureEntry gs id a).2 := by
  rcases configureEntry_cases hsums id a with
    ⟨heq, -⟩ | ⟨heq, -⟩ | ⟨-, ha, entry, hget, ⟨heq, -⟩ | ⟨heq, -⟩⟩
  · rw [heq]
    exact h
  · rw [heq]
    exact h
  · rw [heq]
    exact h
  · rw [heq]
    exact h.commit hsums hget ha

theorem EntryLedger.removeEntry (h : EntryLedger gs) (id : ℕ) :
    EntryLedger (groupSchedulerRemoveEntry gs id).2 := by
  rcases removeEntry_cases gs id with ⟨heq, -⟩ | ⟨heq, -⟩ | ⟨-, -, entry, hentry, heq⟩
  · rw [heq]
    exact h
  · rw [heq]
    exact h
  obtain ⟨hget, hconf⟩ := groupSchedulerFindEntry_some.mp hentry
  obtain ⟨hrates, hweights⟩ := h.released hget
  have hreleased : releasedFor gs entry = gs.release entry.allocation := if_pos hconf
  rw [hreleased] at hrates hweights
  rw [heq]
  generalize hgs : GroupScheduler.writeEntry
    { gs.release entry.allocation with configuredEntries := gs.configuredEntries.erase id }
    id (fun e => { e with configured := false }) = gs₁
  have hfind : ∀ j, groupSchedulerFindEntry gs₁ j =
      if j = id then none else groupSchedulerFindEntry gs j := by
    intro j
    rw [← hgs]
    unfold groupSchedulerFindEntry GroupScheduler.writeEntry
    dsimp only
    rw [get_write, release_entries]
    split_ifs with hj
    · rw [hj, hget, Option.map_some, Option.filter_some, if_neg (by simp)]
    · rfl
  have htable : ∀ j, j ≠ id → entryAllocations gs₁ j = entryAllocations gs j := by
    intro j hj
    rw [entryAllocations_of_find, hfind, if_neg hj, entryAllocations_of_find]
  have hlist : gs₁.configuredEntries = gs.configuredEntries.erase id := by
    rw [← hgs]
    rfl
  have hsum : ∀ f, sumOver gs₁ f gs₁.configuredEntries =
      sumOver gs f (gs.configuredEntries.erase id) := by
    intro f
    rw [hlist]
    apply sumOver_congr
    intro j hj
    exact htable j (h.nodup.mem_erase_iff.mp hj).1
  apply EntryLedger.refresh
  · rw [hlist]
    exact h.nodup.erase id
  · intro j
    rw [hlist, hfind, h.nodup.mem_erase_iff, h.listed]
    split_ifs with hj
    · simp [hj]
    · simp [hj]
  · rw [hsum, ← hrates, ← hgs]
    rfl
  · rw [hsum, ← hweights, ← hgs]
    rfl
  · intro j e he
    rw [hfind] at he
    split_ifs at he
    exact h.valid j e he
  · intro j e r he hr
    rw [hfind] at he
    split_ifs at he
    rw [h.cached j e he]
    unfold cachedRate
    rw [hr]

end Hwfq
