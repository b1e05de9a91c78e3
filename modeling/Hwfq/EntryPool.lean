import Mathlib.Data.Finset.Card
import Hwfq.EntryStore

/-!
# The entry store as an allocator of ids

The ids below `num_allocated` are either live or on the free list that runs through
the `entry_id` fields of the free slots. Allocation makes one more id live and
freeing gives it back; a refused allocation at most adds zeroed slots.
-/
namespace Hwfq

variable {ce : ChunkedEntries} {live : Finset ℕ} {mem : Allocator}

/-- The free list from `head` on. -/
def FreeChain (ce : ChunkedEntries) : ℕ → List ℕ → Prop
  | head, [] => head = entryNone
  | head, i :: l => head = i ∧ ∃ e, hwfqChunkedGet ce i = some e ∧ FreeChain ce e.entryId l

/-- `live` are the ids handed out and not given back. -/
structure PoolInv (ce : ChunkedEntries) (live : Finset ℕ) : Prop where
  free : ∃ l, FreeChain ce ce.freeHead l ∧ l.Nodup ∧ ∀ i, i ∈ l ↔ i < ce.numAllocated ∧ i ∉ live
  live_lt : ∀ i ∈ live, i < ce.numAllocated
  count : ce.numConfigured = live.card
  reach : ∀ i < ce.numAllocated, hwfqChunkedGet ce i ≠ none
  within : ce.numAllocated ≤ ce.limit
  chunks : ce.numAllocated ≤ maxChunks * chunkSize
  idle : ∀ i ∉ live, ∀ e, hwfqChunkedGet ce i = some e → e.configured = false

theorem FreeChain.congr {ce' : ChunkedEntries} {head : ℕ} {l : List ℕ} (h : FreeChain ce head l)
    (hget : ∀ i ∈ l, ∀ e, hwfqChunkedGet ce i = some e →
      ∃ e', hwfqChunkedGet ce' i = some e' ∧ e'.entryId = e.entryId) : FreeChain ce' head l := by
  induction l generalizing head with
  | nil => exact h
  | cons i l ih =>
    obtain ⟨hhead, e, he, hrest⟩ := h
    obtain ⟨e', he', hid⟩ := hget i List.mem_cons_self e he
    exact ⟨hhead, e', he', hid ▸ ih hrest fun j hj => hget j (List.mem_cons_of_mem i hj)⟩

theorem Extends.get_of_some {ce' : ChunkedEntries} (h : Extends ce ce') {i : ℕ} {e : EntryConfig}
    (he : hwfqChunkedGet ce i = some e) : hwfqChunkedGet ce' i = some e := by
  rcases h i with heq | ⟨hnone, -⟩
  · rw [heq, he]
  · rw [hnone] at he
    cases he

theorem PoolInv.extends {ce' : ChunkedEntries} (h : PoolInv ce live) (hext : Extends ce ce')
    (hcount : SameCounters ce ce') : PoolInv ce' live where
  free := by
    obtain ⟨l, hl, hnodup, hmem⟩ := h.free
    rw [hcount.freeHead, hcount.numAllocated]
    exact ⟨l, hl.congr fun i _ e he => ⟨e, hext.get_of_some he, rfl⟩, hnodup, hmem⟩
  live_lt := by
    rw [hcount.numAllocated]
    exact h.live_lt
  count := hcount.numConfigured.trans h.count
  reach i hi := by
    rw [hcount.numAllocated] at hi
    obtain ⟨e, he⟩ := Option.ne_none_iff_exists'.mp (h.reach i hi)
    simp [hext.get_of_some he]
  within := by
    have hlim : ce'.limit = ce.limit := by
      unfold ChunkedEntries.limit
      rw [hcount.maxEntries]
    rw [hcount.numAllocated, hlim]
    exact h.within
  chunks := hcount.numAllocated.trans_le h.chunks
  idle i hi e he := by
    rcases hext i with heq | ⟨-, hzero⟩
    · exact h.idle i hi e (heq ▸ he)
    · rw [hzero] at he
      cases he
      rfl

theorem PoolInv.init (maxEntries : ℕ) : PoolInv (hwfqChunkedEntriesInit maxEntries) ∅ where
  free := ⟨[], rfl, List.nodup_nil, fun i => by simp [hwfqChunkedEntriesInit]⟩
  live_lt := by simp
  count := rfl
  reach i hi := absurd hi (Nat.not_lt_zero i)
  within := Nat.zero_le _
  chunks := Nat.zero_le _
  idle i _ e he := by simp [hwfqChunkedGet, hwfqChunkedEntriesInit] at he

/-- A write to a live entry is invisible to the pool. -/
theorem PoolInv.write (h : PoolInv ce live) {id : ℕ} (hid : id ∈ live)
    (f : EntryConfig → EntryConfig) : PoolInv (ce.write id f) live where
  free := by
    obtain ⟨l, hl, hnodup, hmem⟩ := h.free
    refine ⟨l, hl.congr fun i hi e he => ⟨e, ?_, rfl⟩, hnodup, hmem⟩
    have hne : i ≠ id := fun heq => ((hmem i).mp hi).2 (heq ▸ hid)
    rwa [get_write_of_ne hne]
  live_lt := h.live_lt
  count := h.count
  reach i hi := by
    rw [get_write]
    have := h.reach i hi
    split_ifs <;> simpa using this
  within := h.within
  chunks := h.chunks
  idle i hi e he := by
    rw [get_write_of_ne fun heq : i = id => hi (heq ▸ hid)] at he
    exact h.idle i hi e he

theorem PoolInv.writeAll {ids : List ℕ} (h : PoolInv ce live) (hids : ∀ i ∈ ids, i ∈ live)
    (f : EntryConfig → EntryConfig) : PoolInv (writeAll ce ids f) live := by
  induction ids generalizing ce with
  | nil => exact h
  | cons i ids ih =>
    exact ih (h.write (hids i List.mem_cons_self) f) fun j hj => hids j (List.mem_cons_of_mem i hj)

theorem entryNone_gt : maxChunks * chunkSize < entryNone := by
  unfold maxChunks chunkSize entryNone uint32Max
  omega

/-! ## Allocation -/

/-- The store after the free slot at the head of the list was taken. -/
def takeFree (ce : ChunkedEntries) (entry : EntryConfig) : ChunkedEntries :=
  { ce.write ce.freeHead fun e => { e with entryId := ce.freeHead, configured := false } with
    freeHead := entry.entryId
    numConfigured := ce.numConfigured + 1 }

/-- The store after the slot at `num_allocated` was taken. -/
def takeFresh (ce : ChunkedEntries) : ChunkedEntries :=
  { ce.write ce.numAllocated fun _ => { EntryConfig.zero with entryId := ce.numAllocated } with
    numAllocated := ce.numAllocated + 1
    numConfigured := ce.numConfigured + 1 }

theorem get_takeFree (entry : EntryConfig) (j : ℕ) :
    hwfqChunkedGet (takeFree ce entry) j =
      if j = ce.freeHead then
        (hwfqChunkedGet ce j).map fun e => { e with entryId := ce.freeHead, configured := false }
      else hwfqChunkedGet ce j :=
  get_write ce ce.freeHead j fun e => { e with entryId := ce.freeHead, configured := false }

theorem get_takeFresh (j : ℕ) :
    hwfqChunkedGet (takeFresh ce) j =
      if j = ce.numAllocated then
        (hwfqChunkedGet ce j).map fun _ => { EntryConfig.zero with entryId := ce.numAllocated }
      else hwfqChunkedGet ce j :=
  get_write ce ce.numAllocated j fun _ => { EntryConfig.zero with entryId := ce.numAllocated }

theorem allocFresh_cases (mem : Allocator) (ce : ChunkedEntries) :
    ∃ ce₁, Extends ce ce₁ ∧ SameCounters ce ce₁ ∧ mem.next ≤ (allocFresh mem ce).2.1.next ∧
      (mem.AlwaysOk → ce.numAllocated < maxChunks * chunkSize →
        (allocFresh mem ce).1 = .ok ce.numAllocated ∧ (allocFresh mem ce).2.1.AlwaysOk) ∧
      ((∃ ret, (allocFresh mem ce).1 = .error ret ∧ (allocFresh mem ce).2.2 = ce₁) ∨
        ((allocFresh mem ce).1 = .ok ce.numAllocated ∧
          ce.numAllocated < maxChunks * chunkSize ∧
          hwfqChunkedGet ce₁ ce.numAllocated ≠ none ∧
          (allocFresh mem ce).2.2 = takeFresh ce₁)) := by
  obtain ⟨hext, hcount, hnext, hok, hsucc⟩ :=
    allocateChunk_spec mem ce (ce.numAllocated >>> chunkShift)
  have hdiv := shiftRight_chunkShift ce.numAllocated
  unfold allocFresh
  dsimp only
  generalize allocateChunk mem ce (ce.numAllocated >>> chunkShift) = r at hext hcount hnext hok hsucc ⊢
  obtain ⟨status, mem', ce₁⟩ := r
  dsimp only at hext hcount hnext hok hsucc
  have hchunk : ce.numAllocated < maxChunks * chunkSize ↔
      ce.numAllocated >>> chunkShift < maxChunks := by
    rw [hdiv, Nat.div_lt_iff_lt_mul (by decide), chunkSize]
  refine ⟨ce₁, hext, hcount, ?_⟩
  cases status with
  | success =>
    obtain ⟨hc, hget⟩ := hsucc rfl
    dsimp only
    rw [encode_eq]
    refine ⟨hnext, fun h hlt => ⟨rfl, (hok h (hchunk.mp hlt)).2⟩,
      .inr ⟨rfl, hchunk.mpr hc, hget _ hdiv.symm, ?_⟩⟩
    simp only [takeFresh, write_numAllocated, write_numConfigured, hcount.numAllocated]
  | _ =>
    refine ⟨hnext, fun h hlt => absurd (hok h (hchunk.mp hlt)).1 (by simp), .inl ⟨_, rfl, rfl⟩⟩

/-- With an empty free list every slot below `num_allocated` is live. -/
theorem PoolInv.live_eq_range (h : PoolInv ce live) (hempty : ce.freeHead = entryNone) :
    live = Finset.range ce.numAllocated := by
  obtain ⟨l, hl, -, hmem⟩ := h.free
  have hnil : l = [] := by
    cases l with
    | nil => rfl
    | cons i l =>
      have hi := ((hmem i).mp List.mem_cons_self).1
      have hhead := hl.1
      have hchunks := h.chunks
      have hnone := entryNone_gt
      omega
  subst hnil
  ext i
  rw [Finset.mem_range]
  exact ⟨h.live_lt i, fun hi => by_contra fun hn => List.not_mem_nil ((hmem i).mpr ⟨hi, hn⟩)⟩

theorem PoolInv.numAllocated_of_empty (h : PoolInv ce live) (hempty : ce.freeHead = entryNone) :
    live.card = ce.numAllocated := by
  rw [h.live_eq_range hempty, Finset.card_range]

theorem PoolInv.takeFresh (h : PoolInv ce live) (hempty : ce.freeHead = entryNone)
    (hroom : live.card < ce.limit) (hlt : ce.numAllocated < maxChunks * chunkSize)
    (hget : hwfqChunkedGet ce ce.numAllocated ≠ none) :
    ce.numAllocated ∉ live ∧ PoolInv (takeFresh ce) (insert ce.numAllocated live) := by
  have hnew : ce.numAllocated ∉ live := fun hin => (h.live_lt _ hin).false
  have hrange := h.live_eq_range hempty
  have hcard := h.numAllocated_of_empty hempty
  refine ⟨hnew, ?_⟩
  constructor
  · refine ⟨[], hempty, List.nodup_nil, fun i => ?_⟩
    simp only [List.not_mem_nil, Hwfq.takeFresh, Finset.mem_insert, hrange, Finset.mem_range,
      false_iff, not_and]
    omega
  · intro i hi
    rcases Finset.mem_insert.mp hi with rfl | hi
    · exact Nat.lt_succ_self _
    · exact (h.live_lt i hi).trans (Nat.lt_succ_self _)
  · rw [Finset.card_insert_of_notMem hnew, ← h.count]
    rfl
  · intro i hi
    rw [get_takeFresh]
    split_ifs with heq
    · subst heq
      simpa using hget
    · exact h.reach i (by simp only [Hwfq.takeFresh] at hi; omega)
  · have hlim : (Hwfq.takeFresh ce).limit = ce.limit := rfl
    have hnum : (Hwfq.takeFresh ce).numAllocated = ce.numAllocated + 1 := rfl
    omega
  · exact hlt
  · intro i hi e he
    rw [Finset.mem_insert, not_or] at hi
    rw [get_takeFresh, if_neg hi.1] at he
    exact h.idle i hi.2 e he

theorem PoolInv.takeFree (h : PoolInv ce live) (hhead : ce.freeHead ≠ entryNone) :
    ∃ entry, hwfqChunkedGet ce ce.freeHead = some entry ∧ ce.freeHead ∉ live ∧
      PoolInv (takeFree ce entry) (insert ce.freeHead live) := by
  obtain ⟨l, hl, hnodup, hmem⟩ := h.free
  cases l with
  | nil => exact absurd hl hhead
  | cons i l =>
    obtain ⟨rfl, entry, hentry, hrest⟩ := hl
    obtain ⟨hi, hnotlive⟩ := (hmem _).mp List.mem_cons_self
    obtain ⟨hnotin, hnodup⟩ := List.nodup_cons.mp hnodup
    refine ⟨entry, hentry, hnotlive, ?_⟩
    constructor
    · refine ⟨l, hrest.congr fun j hj e he => ⟨e, ?_, rfl⟩, hnodup, fun j => ?_⟩
      · rwa [get_takeFree, if_neg fun heq : j = ce.freeHead => hnotin (heq ▸ hj)]
      · have hj := hmem j
        rw [List.mem_cons] at hj
        simp only [Hwfq.takeFree, write_numAllocated, Finset.mem_insert, not_or]
        constructor
        · intro hin
          have hne : j ≠ ce.freeHead := fun heq => hnotin (heq ▸ hin)
          obtain ⟨hlt, hnl⟩ := hj.mp (.inr hin)
          exact ⟨hlt, hne, hnl⟩
        · rintro ⟨hlt, hne, hnl⟩
          exact (hj.mpr ⟨hlt, hnl⟩).resolve_left hne
    · intro j hj
      rcases Finset.mem_insert.mp hj with rfl | hj
      · exact hi
      · exact h.live_lt j hj
    · rw [Finset.card_insert_of_notMem hnotlive, ← h.count]
      rfl
    · intro j hj
      rw [get_takeFree]
      have := h.reach j hj
      split_ifs <;> simpa using this
    · exact h.within
    · exact h.chunks
    · intro j hj e he
      rw [Finset.mem_insert, not_or] at hj
      rw [get_takeFree, if_neg hj.1] at he
      exact h.idle j hj.2 e he

/-- What changes when a slot is handed out. A recycled slot keeps its statistics. -/
structure HandsOut (ce ce' : ChunkedEntries) (id : ℕ) : Prop where
  given : ∃ e, hwfqChunkedGet ce' id = some e ∧ e.configured = false ∧
    (e.stats = {} ∨ ∃ old, hwfqChunkedGet ce id = some old ∧ e.stats = old.stats)
  others : ∀ j, j ≠ id → hwfqChunkedGet ce' j = hwfqChunkedGet ce j ∨
    hwfqChunkedGet ce j = none ∧ hwfqChunkedGet ce' j = some EntryConfig.zero

/-- All outcomes of `hwfq_chunked_entries_alloc`. -/
theorem PoolInv.alloc (h : PoolInv ce live) (mem : Allocator) :
    mem.next ≤ (hwfqChunkedEntriesAlloc mem ce).2.1.next ∧
    ((∃ ret, (hwfqChunkedEntriesAlloc mem ce).1 = .error ret ∧
        PoolInv (hwfqChunkedEntriesAlloc mem ce).2.2 live ∧
        Extends ce (hwfqChunkedEntriesAlloc mem ce).2.2) ∨
      ∃ id, (hwfqChunkedEntriesAlloc mem ce).1 = .ok id ∧ id ∉ live ∧ live.card < ce.limit ∧
        PoolInv (hwfqChunkedEntriesAlloc mem ce).2.2 (insert id live) ∧
        HandsOut ce (hwfqChunkedEntriesAlloc mem ce).2.2 id) := by
  unfold hwfqChunkedEntriesAlloc
  by_cases hfull : ce.numConfigured ≥ ce.limit
  · rw [if_pos hfull]
    exact ⟨le_rfl, .inl ⟨_, rfl, h, .refl ce⟩⟩
  rw [if_neg hfull]
  have hroom : live.card < ce.limit := by
    rw [← h.count]
    omega
  by_cases hhead : ce.freeHead = entryNone
  · rw [if_neg (not_not.mpr hhead)]
    obtain ⟨ce₁, hext, hcount, hnext, -, hcase⟩ := allocFresh_cases mem ce
    have hinv := h.extends hext hcount
    refine ⟨hnext, ?_⟩
    rcases hcase with ⟨ret, hret, heq⟩ | ⟨hret, hlt, hget, heq⟩
    · exact .inl ⟨ret, hret, heq ▸ hinv, heq ▸ hext⟩
    · have hlim : ce₁.limit = ce.limit := by
        unfold ChunkedEntries.limit
        rw [hcount.maxEntries]
      rw [← hcount.numAllocated] at hlt hget
      obtain ⟨hnew, hpool⟩ := hinv.takeFresh (hcount.freeHead.trans hhead) (hlim ▸ hroom) hlt hget
      rw [heq]
      refine .inr ⟨_, hcount.numAllocated ▸ hret, hnew, hroom, hpool, ?_, fun j hj => ?_⟩
      · obtain ⟨e, he⟩ := Option.ne_none_iff_exists'.mp hget
        exact ⟨_, by rw [get_takeFresh, if_pos rfl, he]; rfl, rfl, .inl rfl⟩
      · rw [get_takeFresh, if_neg hj]
        exact hext j
  · rw [if_pos hhead]
    obtain ⟨entry, hentry, hnew, hpool⟩ := h.takeFree hhead
    rw [hentry]
    refine ⟨le_rfl, .inr ⟨ce.freeHead, rfl, hnew, hroom, hpool, ?_, fun j hj => .inl ?_⟩⟩
    · refine ⟨{ entry with entryId := ce.freeHead, configured := false }, ?_, rfl,
        .inr ⟨entry, hentry, rfl⟩⟩
      exact (get_takeFree entry ce.freeHead).trans (by rw [if_pos rfl, hentry]; rfl)
    · exact (get_takeFree entry j).trans (if_neg hj)

theorem growChunks_granted (hmem : mem.AlwaysOk) (ce : ChunkedEntries) (c : ℕ) :
    (growChunks mem ce c).2.1.AlwaysOk := by
  unfold growChunks
  split_ifs
  · dsimp only
    generalize (if doubleUntil (c + 1) 21 1 > maxChunks then maxChunks
      else doubleUntil (c + 1) 21 1) = len
    have hok := hmem.alloc len
    cases halloc : hwfqAlloc mem len with
    | mk p mem' =>
      rw [halloc] at hok
      cases p <;> exact hok
  · exact hmem

theorem allocateChunk_granted (hmem : mem.AlwaysOk) (ce : ChunkedEntries) (c : ℕ) :
    (allocateChunk mem ce c).2.1.AlwaysOk := by
  unfold allocateChunk
  split_ifs
  · exact hmem
  have hok := growChunks_granted hmem ce c
  generalize growChunks mem ce c = grown at hok ⊢
  obtain ⟨status, mem', ce'⟩ := grown
  cases status with
  | success =>
    dsimp only at hok ⊢
    cases ce'.chunks c with
    | some entries => exact hok
    | none =>
      have hok' := hok.alloc chunkSize
      cases halloc : hwfqAlloc mem' chunkSize with
      | mk p mem'' =>
        rw [halloc] at hok'
        cases p <;> exact hok'
  | _ => exact hok

/-- An allocator that grants everything still does so after an id was asked for. -/
theorem entriesAlloc_granted (hmem : mem.AlwaysOk) (ce : ChunkedEntries) :
    (hwfqChunkedEntriesAlloc mem ce).2.1.AlwaysOk := by
  have hfresh : ∀ ce : ChunkedEntries, (allocFresh mem ce).2.1.AlwaysOk := by
    intro ce
    unfold allocFresh
    dsimp only
    have hok := allocateChunk_granted hmem ce (ce.numAllocated >>> chunkShift)
    generalize allocateChunk mem ce (ce.numAllocated >>> chunkShift) = r at hok ⊢
    obtain ⟨status, mem', ce'⟩ := r
    cases status <;> exact hok
  unfold hwfqChunkedEntriesAlloc
  split_ifs
  · exact hmem
  · cases hwfqChunkedGet ce ce.freeHead with
    | some entry => exact hmem
    | none => exact hfresh _
  · exact hfresh ce

/-- With memory to spare, an allocation below the limits succeeds. -/
theorem PoolInv.alloc_ok (h : PoolInv ce live) (hmem : mem.AlwaysOk) (hroom : live.card < ce.limit)
    (hchunks : live.card < maxChunks * chunkSize) :
    (∃ id, (hwfqChunkedEntriesAlloc mem ce).1 = .ok id) ∧
      (hwfqChunkedEntriesAlloc mem ce).2.1.AlwaysOk := by
  unfold hwfqChunkedEntriesAlloc
  have hcount := h.count
  rw [if_neg (by omega)]
  by_cases hhead : ce.freeHead = entryNone
  · rw [if_neg (not_not.mpr hhead)]
    have hall := h.numAllocated_of_empty hhead
    obtain ⟨ce₁, -, -, -, hok, -⟩ := allocFresh_cases mem ce
    obtain ⟨hret, hmem'⟩ := hok hmem (hall ▸ hchunks)
    exact ⟨⟨_, hret⟩, hmem'⟩
  · rw [if_pos hhead]
    obtain ⟨entry, hentry, -⟩ := h.takeFree hhead
    rw [hentry]
    exact ⟨⟨_, rfl⟩, hmem⟩

theorem entriesAlloc_maxEntries (mem : Allocator) (ce : ChunkedEntries) :
    (hwfqChunkedEntriesAlloc mem ce).2.2.maxEntries = ce.maxEntries := by
  have hfresh : ∀ ce : ChunkedEntries, (allocFresh mem ce).2.2.maxEntries = ce.maxEntries := by
    intro ce
    obtain ⟨ce₁, -, hcount, -, -, ⟨-, -, heq⟩ | ⟨-, -, -, heq⟩⟩ := allocFresh_cases mem ce
    · rw [heq, hcount.maxEntries]
    · rw [heq]
      exact hcount.maxEntries
  unfold hwfqChunkedEntriesAlloc
  split_ifs
  · rfl
  · cases hwfqChunkedGet ce ce.freeHead with
    | some entry => rfl
    | none => exact hfresh _
  · exact hfresh ce

/-! ## Freeing -/

/-- The store after `id` was given back. -/
def giveBack (ce : ChunkedEntries) (id : ℕ) : ChunkedEntries :=
  { ce.write id fun e => { e with configured := false, entryId := ce.freeHead } with
    freeHead := id
    numConfigured := if ce.numConfigured > 0 then ce.numConfigured - 1 else ce.numConfigured }

theorem entriesFree_eq {id : ℕ} (hget : hwfqChunkedGet ce id ≠ none) :
    hwfqChunkedEntriesFree ce id = giveBack ce id := by
  obtain ⟨e, he⟩ := Option.ne_none_iff_exists'.mp hget
  unfold hwfqChunkedEntriesFree
  rw [he]
  rfl

theorem get_giveBack (id j : ℕ) :
    hwfqChunkedGet (giveBack ce id) j =
      if j = id then
        (hwfqChunkedGet ce j).map fun e => { e with configured := false, entryId := ce.freeHead }
      else hwfqChunkedGet ce j :=
  get_write ce id j fun e => { e with configured := false, entryId := ce.freeHead }

/-- Giving back a live id. -/
theorem PoolInv.free_live (h : PoolInv ce live) {id : ℕ} (hid : id ∈ live) :
    PoolInv (hwfqChunkedEntriesFree ce id) (live.erase id) ∧
      hwfqChunkedEntriesFree ce id = giveBack ce id := by
  have hlt := h.live_lt id hid
  have hget := h.reach id hlt
  obtain ⟨e, he⟩ := Option.ne_none_iff_exists'.mp hget
  obtain ⟨l, hl, hnodup, hmem⟩ := h.free
  have hnotin : id ∉ l := fun hin => ((hmem id).mp hin).2 hid
  rw [entriesFree_eq hget]
  refine ⟨?_, rfl⟩
  constructor
  · refine ⟨id :: l, ⟨rfl, { e with configured := false, entryId := ce.freeHead }, ?_, ?_⟩,
      List.nodup_cons.mpr ⟨hnotin, hnodup⟩, fun j => ?_⟩
    · rw [get_giveBack, if_pos rfl, he]
      rfl
    · refine hl.congr fun j hj e he => ⟨e, ?_, rfl⟩
      rwa [get_giveBack, if_neg fun heq : j = id => hnotin (heq ▸ hj)]
    · have hnum : (giveBack ce id).numAllocated = ce.numAllocated := rfl
      rw [List.mem_cons, hmem, hnum, Finset.mem_erase, not_and_or, not_not]
      constructor
      · rintro (rfl | ⟨hj, hnl⟩)
        · exact ⟨hlt, .inl rfl⟩
        · exact ⟨hj, .inr hnl⟩
      · rintro ⟨hj, rfl | hnl⟩
        · exact .inl rfl
        · exact .inr ⟨hj, hnl⟩
  · exact fun j hj => h.live_lt j (Finset.mem_of_mem_erase hj)
  · have hpos : 0 < live.card := Finset.card_pos.mpr ⟨id, hid⟩
    have hcount := h.count
    rw [Finset.card_erase_of_mem hid]
    simp only [giveBack]
    split_ifs <;> omega
  · intro j hj
    rw [get_giveBack]
    have := h.reach j hj
    split_ifs <;> simpa using this
  · exact h.within
  · exact h.chunks
  · intro j hj e' he'
    rw [get_giveBack] at he'
    split_ifs at he' with heq
    · subst heq
      rw [he] at he'
      cases he'
      rfl
    · rw [Finset.mem_erase, not_and_or, not_not] at hj
      exact h.idle j (hj.resolve_left heq) e' he'

end Hwfq
