import Hwfq.EntryPool
import Hwfq.GuardedRuns

/-!
# Runs of one entry store

The store on its own as a machine: ids are asked for and given back, and the owner of
an id writes to its entry in between. Only ids handed out are given back or written to.
In every state of such a run the ids in use, the free list and the counters agree,
whatever the allocator refused on the way.
-/
namespace Hwfq
open GuardedRuns

variable {ce : ChunkedEntries} {live : Finset ℕ} {mem : Allocator}

inductive StoreCall where
  | alloc
  | free (entryId : ℕ)
  | edit (entryId : ℕ) (f : EntryConfig → EntryConfig)

/-- A store, the allocator behind it and the ids in use. -/
structure StoreState where
  mem : Allocator
  entries : ChunkedEntries
  live : Finset ℕ

/-- The ids in use after a request answered `r`. -/
def handedOut (live : Finset ℕ) : Except Status ℕ → Finset ℕ
  | .ok id => insert id live
  | .error _ => live

def StoreState.step (st : StoreState) : StoreCall → StoreState
  | .alloc =>
      let r := hwfqChunkedEntriesAlloc st.mem st.entries
      ⟨r.2.1, r.2.2, handedOut st.live r.1⟩
  | .free id => ⟨st.mem, hwfqChunkedEntriesFree st.entries id, st.live.erase id⟩
  -- the owner may change everything but the id, which the store itself writes
  | .edit id f => { st with entries := st.entries.write id fun e => { f e with entryId := e.entryId } }

/-- Only ids in use are given back or written to. -/
def StoreState.Owned (st : StoreState) : StoreCall → Prop
  | .alloc => True
  | .free id => id ∈ st.live
  | .edit id _ => id ∈ st.live

instance (st : StoreState) (c : StoreCall) : Decidable (st.Owned c) :=
  match c with
  | .alloc => inferInstanceAs (Decidable True)
  | .free id => inferInstanceAs (Decidable (id ∈ st.live))
  | .edit id _ => inferInstanceAs (Decidable (id ∈ st.live))

def StoreState.init (mem : Allocator) (maxEntries : ℕ) : StoreState :=
  ⟨mem, hwfqChunkedEntriesInit maxEntries, ∅⟩

/-- The store hands out ids below `max_entries`: `live` are in use, each with an entry of
its own, and the free list holds every other id ever handed out, once. -/
structure HandsOutIds (ce : ChunkedEntries) (live : Finset ℕ) : Prop where
  freeList : ∃ l, FreeChain ce ce.freeHead l ∧ l.Nodup ∧ ∀ i, i ∈ l ↔ i < ce.numAllocated ∧ i ∉ live
  found : ∀ id ∈ live, ∃ e, hwfqChunkedGet ce id = some e ∧ e.entryId = id
  below : ∀ id ∈ live, id < ce.numAllocated ∧ id < ce.maxEntries
  count : ce.numConfigured = live.card
  capacity : ∀ mem : Allocator, mem.AlwaysOk → (hwfqChunkedEntriesHasCapacity ce = true ↔
    ∃ id, (hwfqChunkedEntriesAlloc mem ce).1 = .ok id)

/-- The law of a store in use, with what its next request or return can do. -/
structure StoreLaw (ce : ChunkedEntries) (live : Finset ℕ) : Prop where
  exact : HandsOutIds ce live
  given : ∀ mem id, (hwfqChunkedEntriesAlloc mem ce).1 = .ok id →
    id ∉ live ∧ id < ce.maxEntries ∧ HandsOutIds (hwfqChunkedEntriesAlloc mem ce).2.2 (insert id live)
  refused : ∀ mem ret, (hwfqChunkedEntriesAlloc mem ce).1 = .error ret →
    HandsOutIds (hwfqChunkedEntriesAlloc mem ce).2.2 live
  kept : ∀ mem, ∀ j ∈ live,
    hwfqChunkedGet (hwfqChunkedEntriesAlloc mem ce).2.2 j = hwfqChunkedGet ce j
  freed : ∀ id ∈ live, HandsOutIds (hwfqChunkedEntriesFree ce id) (live.erase id) ∧
    ∀ j ∈ live, j ≠ id → hwfqChunkedGet (hwfqChunkedEntriesFree ce id) j = hwfqChunkedGet ce j

/-! ## One step -/

/-- What every state of a run satisfies. -/
structure StoreInv (maxEntries : ℕ) (ce : ChunkedEntries) (live : Finset ℕ) : Prop where
  pool : PoolInv ce live
  named : ∀ id ∈ live, ∀ e, hwfqChunkedGet ce id = some e → e.entryId = id
  maxEntries : ce.maxEntries = maxEntries

theorem StoreInv.init (maxEntries : ℕ) : StoreInv maxEntries (hwfqChunkedEntriesInit maxEntries) ∅ where
  pool := .init maxEntries
  named id hid := absurd hid (Finset.notMem_empty id)
  maxEntries := rfl

/-- An entry in use is not moved or changed by a request, granted or refused. -/
theorem PoolInv.alloc_get (h : PoolInv ce live) (mem : Allocator) {j : ℕ} (hj : j ∈ live) :
    hwfqChunkedGet (hwfqChunkedEntriesAlloc mem ce).2.2 j = hwfqChunkedGet ce j := by
  have hreach := h.reach j (h.live_lt j hj)
  obtain ⟨-, ⟨ret, -, -, hext⟩ | ⟨id, -, hnew, -, -, hout⟩⟩ := h.alloc mem
  · exact (hext j).resolve_right fun hnone => hreach hnone.1
  · have hne : j ≠ id := fun heq => hnew (heq ▸ hj)
    exact (hout.others j hne).resolve_right fun hnone => hreach hnone.1

/-- The entry handed out carries its own id. -/
theorem entriesAlloc_named {id : ℕ} (h : (hwfqChunkedEntriesAlloc mem ce).1 = .ok id) {e : EntryConfig}
    (he : hwfqChunkedGet (hwfqChunkedEntriesAlloc mem ce).2.2 id = some e) : e.entryId = id := by
  have hfresh : ∀ ce : ChunkedEntries, (allocFresh mem ce).1 = .ok id →
      hwfqChunkedGet (allocFresh mem ce).2.2 id = some e → e.entryId = id := by
    intro ce h he
    obtain ⟨ce₁, -, hcount, -, -, ⟨ret, hret, -⟩ | ⟨hret, -, -, heq⟩⟩ := allocFresh_cases mem ce
    · rw [hret] at h
      cases h
    · rw [hret] at h
      cases h
      rw [heq, get_takeFresh, if_pos hcount.numAllocated.symm] at he
      obtain ⟨old, -, hold⟩ := Option.map_eq_some_iff.mp he
      rw [← hold]
      exact hcount.numAllocated
  unfold hwfqChunkedEntriesAlloc at h he
  split_ifs at h he with hfull hhead
  · cases hget : hwfqChunkedGet ce ce.freeHead with
    | none =>
      rw [hget] at h he
      exact hfresh _ h he
    | some entry =>
      rw [hget] at h he
      cases h
      have hget' := (@get_takeFree ce entry ce.freeHead).symm.trans he
      rw [if_pos rfl, hget] at hget'
      cases hget'
      rfl
  · exact hfresh ce h he

section Steps
variable {maxEntries : ℕ} (h : StoreInv maxEntries ce live)
include h

theorem StoreInv.alloc (mem : Allocator) :
    StoreInv maxEntries (hwfqChunkedEntriesAlloc mem ce).2.2
      (handedOut live (hwfqChunkedEntriesAlloc mem ce).1) := by
  have hmax := (entriesAlloc_maxEntries mem ce).trans h.maxEntries
  obtain ⟨-, ⟨ret, hret, hpool, -⟩ | ⟨id, hret, hnew, -, hpool, -⟩⟩ := h.pool.alloc mem
  · rw [hret]
    refine ⟨hpool, fun j hj e he => ?_, hmax⟩
    rw [h.pool.alloc_get mem hj] at he
    exact h.named j hj e he
  · rw [hret]
    refine ⟨hpool, fun j hj e he => ?_, hmax⟩
    rcases Finset.mem_insert.mp hj with heq | hj
    · subst heq
      exact entriesAlloc_named hret he
    · rw [h.pool.alloc_get mem hj] at he
      exact h.named j hj e he

theorem StoreInv.free {id : ℕ} (hid : id ∈ live) :
    StoreInv maxEntries (hwfqChunkedEntriesFree ce id) (live.erase id) := by
  obtain ⟨hpool, heq⟩ := h.pool.free_live hid
  refine ⟨hpool, fun j hj e he => ?_, ?_⟩
  · obtain ⟨hne, hj⟩ := Finset.mem_erase.mp hj
    rw [heq, get_giveBack, if_neg hne] at he
    exact h.named j hj e he
  · rw [heq]
    exact h.maxEntries

theorem StoreInv.edit {id : ℕ} (hid : id ∈ live) (f : EntryConfig → EntryConfig) :
    StoreInv maxEntries (ce.write id fun e => { f e with entryId := e.entryId }) live := by
  refine ⟨h.pool.write hid _, fun j hj e he => ?_, h.maxEntries⟩
  by_cases hne : j = id
  · subst hne
    rw [get_write_self] at he
    obtain ⟨old, hold, rfl⟩ := Option.map_eq_some_iff.mp he
    exact h.named j hj old hold
  · rw [get_write_of_ne hne] at he
    exact h.named j hj e he

variable (hpos : 1 ≤ maxEntries) (hmax : maxEntries ≤ 2 ^ 30)
include hpos

theorem StoreInv.limit : ce.limit = maxEntries := by
  unfold ChunkedEntries.limit
  rw [h.maxEntries]
  exact if_pos hpos

include hmax

/-- With an id on the free list the store is not full. -/
theorem StoreInv.capacity (hmem : mem.AlwaysOk) :
    hwfqChunkedEntriesHasCapacity ce = true ↔ ∃ id, (hwfqChunkedEntriesAlloc mem ce).1 = .ok id := by
  have hlimit := h.limit hpos
  have hwithin := h.pool.within
  have hroom : hwfqChunkedEntriesHasCapacity ce = true ↔ live.card < ce.limit := by
    unfold hwfqChunkedEntriesHasCapacity
    by_cases hhead : ce.freeHead = entryNone
    · rw [if_neg (not_not.mpr hhead), decide_eq_true_iff, h.pool.numAllocated_of_empty hhead]
    · rw [if_pos hhead]
      obtain ⟨l, hl, -, hmem⟩ := h.pool.free
      have hsub : live ⊆ Finset.range ce.numAllocated :=
        fun i hi => Finset.mem_range.mpr (h.pool.live_lt i hi)
      obtain ⟨entry, -, hnew, hpool⟩ := h.pool.takeFree hhead
      have hlt := hpool.live_lt _ (Finset.mem_insert_self _ _)
      have hcard : (insert ce.freeHead live).card ≤ (Finset.range ce.numAllocated).card :=
        Finset.card_le_card (Finset.insert_subset (Finset.mem_range.mpr hlt) hsub)
      rw [Finset.card_insert_of_notMem hnew, Finset.card_range] at hcard
      exact ⟨fun _ => by omega, fun _ => rfl⟩
  rw [hroom]
  constructor
  · intro hlt
    have hchunks : live.card < maxChunks * chunkSize := by
      unfold maxChunks chunkSize
      omega
    exact (h.pool.alloc_ok hmem hlt hchunks).1
  · intro hok
    obtain ⟨id, hid⟩ := hok
    obtain ⟨-, ⟨ret, hret, -⟩ | ⟨-, -, -, hlt, -⟩⟩ := h.pool.alloc mem
    · rw [hret] at hid
      cases hid
    · exact hlt

theorem StoreInv.handsOutIds : HandsOutIds ce live where
  freeList := h.pool.free
  found id hid := by
    obtain ⟨e, he⟩ := Option.ne_none_iff_exists'.mp (h.pool.reach id (h.pool.live_lt id hid))
    exact ⟨e, he, h.named id hid e he⟩
  below id hid := by
    have hlt := h.pool.live_lt id hid
    have hwithin := h.pool.within
    rw [h.limit hpos] at hwithin
    exact ⟨hlt, h.maxEntries ▸ hlt.trans_le hwithin⟩
  count := h.pool.count
  capacity _ hmem := h.capacity hpos hmax hmem

theorem StoreInv.law : StoreLaw ce live where
  exact := h.handsOutIds hpos hmax
  given mem id hid := by
    have hnext := (h.alloc mem).handsOutIds hpos hmax
    rw [hid] at hnext
    refine ⟨?_, ?_, hnext⟩
    · obtain ⟨-, ⟨ret, hret, -⟩ | ⟨id', hret, hnew, -⟩⟩ := h.pool.alloc mem
      · rw [hret] at hid
        cases hid
      · rw [hret] at hid
        cases hid
        exact hnew
    · have hbelow := (hnext.below id (Finset.mem_insert_self _ _)).2
      rwa [entriesAlloc_maxEntries] at hbelow
  refused mem ret hret := by
    have hnext := (h.alloc mem).handsOutIds hpos hmax
    rwa [hret] at hnext
  kept mem j hj := h.pool.alloc_get mem hj
  freed id hid := by
    refine ⟨(h.free hid).handsOutIds hpos hmax, fun j _ hne => ?_⟩
    rw [(h.pool.free_live hid).2, get_giveBack, if_neg hne]

end Steps

/-! ## Every run -/

theorem StoreState.step_inv {maxEntries : ℕ} (st : StoreState) (c : StoreCall)
    (h : StoreInv maxEntries st.entries st.live) (hc : st.Owned c) :
    StoreInv maxEntries (st.step c).entries (st.step c).live := by
  cases c with
  | alloc => exact h.alloc st.mem
  | free id => exact h.free hc
  | edit id f => exact h.edit hc f

/-- In every run the store is an allocator of the ids below `max_entries`. -/
theorem store_hands_out_ids (maxEntries : ℕ) (hpos : 1 ≤ maxEntries) (hmax : maxEntries ≤ 2 ^ 30)
    (mem : Allocator) (calls : List StoreCall)
    (hcalls : Along StoreState.step StoreState.Owned (StoreState.init mem maxEntries) calls) :
    StoreLaw (run StoreState.step (StoreState.init mem maxEntries) calls).entries
      (run StoreState.step (StoreState.init mem maxEntries) calls).live :=
  have hinv := run_invariant (I := fun st : StoreState => StoreInv maxEntries st.entries st.live)
    StoreState.step_inv (StoreInv.init maxEntries) hcalls
  hinv.law hpos hmax

/-- The array of chunks is granted and the first chunk refused; later id 0 is handed out,
given up and handed out again. -/
theorem store_hands_out_ids_refused :
    StoreLaw (run StoreState.step (StoreState.init ⟨fun k => k != 1, 1⟩ 2000)
        [.alloc, .alloc, .alloc, .free 0, .alloc]).entries
      (run StoreState.step (StoreState.init ⟨fun k => k != 1, 1⟩ 2000)
        [.alloc, .alloc, .alloc, .free 0, .alloc]).live :=
  store_hands_out_ids 2000 (by decide) (by decide) _ _ (by decide +kernel)

end Hwfq
