import Hwfq.BlockTallies
import Hwfq.SessionRemoval
import Hwfq.VirtualClock

/-!
# The memory blocks of a group scheduler

Beside its entries a chunked store has an array of chunk pointers and the chunks, and a group
scheduler its bit field and its bins. The functions here follow the requests and the frees of
the source and keep the addresses that the model of the entries leaves out.
-/
namespace Hwfq
open BlockTallies

variable {α : Type*}

theorem hwfqAlloc_none {mem mem' : Allocator} {size : ℕ}
    (h : hwfqAlloc mem size = (none, mem')) : mem'.next = mem.next := by
  unfold hwfqAlloc at h
  split_ifs at h
  · exact congrArg Allocator.next (Prod.mk.inj h).2.symm
  · exact absurd (Prod.mk.inj h).1 (by simp)
  · exact (congrArg Allocator.next (Prod.mk.inj h).2).symm

theorem tally_refused {mem mem' : Allocator} {size : ℕ} (h : hwfqAlloc mem size = (none, mem'))
    (m : Multiset ℕ) : Tally mem.next mem'.next m m 0 := by
  rw [hwfqAlloc_none h]
  exact .refl _ _

theorem tally_granted {mem mem' : Allocator} {size : ℕ} {addr : Addr}
    (h : hwfqAlloc mem size = (some addr, mem')) (m : Multiset ℕ) :
    Tally mem.next mem'.next m (addr ::ₘ m) 0 := by
  obtain ⟨rfl, hnext⟩ := hwfqAlloc_some h
  rw [hnext]
  exact .grant _ _

/-! ## Chunked stores -/

/-- The array `chunks` and the blocks that it points to; NULL is `none`. -/
structure StoreBlocks where
  array : Option Addr
  chunk : ℕ → Option Addr

/-- Every pointer of a new store is NULL. -/
def noStore : StoreBlocks := ⟨none, fun _ => none⟩

/-- The blocks in use where the array has `numChunks` pointers. -/
def StoreBlocks.live (b : StoreBlocks) (numChunks : ℕ) : Multiset ℕ :=
  (b.array.toList : Multiset ℕ) + Bins.contents numChunks fun i => (b.chunk i).toList

/-- The new array of `allocate_chunk`; the old one is freed. -/
def growBlocks (mem : Allocator) (ce : ChunkedEntries) (chunkIndex : ℕ) (b : StoreBlocks) :
    StoreBlocks × List Addr :=
  if chunkIndex ≥ ce.numChunks then
    let doubled := doubleUntil (chunkIndex + 1) 21 1
    let allocChunks := if doubled > maxChunks then maxChunks else doubled
    match hwfqAlloc mem allocChunks with
    | (none, _) => (b, [])
    | (some addr, _) =>
        ({ array := some addr, chunk := fun i => if i < ce.numChunks then b.chunk i else none },
          b.array.toList)
  else (b, [])

/-- The blocks of `allocate_chunk`. -/
def chunkBlocks (mem : Allocator) (ce : ChunkedEntries) (chunkIndex : ℕ) (b : StoreBlocks) :
    StoreBlocks × List Addr :=
  if chunkIndex ≥ maxChunks then (b, [])
  else
    let (b, freed) := growBlocks mem ce chunkIndex b
    match growChunks mem ce chunkIndex with
    | (.success, mem, ce) =>
        match ce.chunks chunkIndex with
        | some _ => (b, freed)
        | none =>
            match hwfqAlloc mem chunkSize with
            | (none, _) => (b, freed)
            | (some addr, _) =>
                ({ b with chunk := Function.update b.chunk chunkIndex (some addr) }, freed)
    | _ => (b, freed)

/-- The blocks of `hwfq_chunked_entries_alloc`. -/
def entriesAllocBlocks (mem : Allocator) (ce : ChunkedEntries) (b : StoreBlocks) :
    StoreBlocks × List Addr :=
  if ce.numConfigured ≥ ce.limit then (b, [])
  else if ce.freeHead ≠ entryNone then
    match hwfqChunkedGet ce ce.freeHead with
    | some _ => (b, [])
    | none => chunkBlocks mem { ce with freeHead := entryNone } (ce.numAllocated >>> chunkShift) b
  else chunkBlocks mem ce (ce.numAllocated >>> chunkShift) b

/-- `hwfq_chunked_entries_destroy`. -/
def entriesDestroyFrees (ce : ChunkedEntries) (b : StoreBlocks) : List Addr :=
  match b.array with
  | none => []
  | some array => ((List.range ce.numChunks).flatMap fun i => (b.chunk i).toList) ++ [array]

/-- The pointers that are NULL in memory are those of the model. -/
structure Mirrors (b : StoreBlocks) (ce : ChunkedEntries) : Prop where
  chunk : ∀ i < ce.numChunks, ce.chunks i = none → b.chunk i = none
  array : b.array = none → ce.numChunks = 0

theorem Mirrors.init (maxEntries : ℕ) : Mirrors noStore (hwfqChunkedEntriesInit maxEntries) :=
  ⟨fun _ _ _ => rfl, fun _ => rfl⟩

/-- What a store looks like from its pointers. -/
def ChunkedEntries.shape (ce : ChunkedEntries) : ℕ × (ℕ → Bool) :=
  (ce.numChunks, fun i => (ce.chunks i).isSome)

theorem Mirrors.of_shape {b : StoreBlocks} {ce ce' : ChunkedEntries} (h : Mirrors b ce)
    (hshape : ce'.shape = ce.shape) : Mirrors b ce' := by
  obtain ⟨hnum, hchunks⟩ := Prod.mk.injEq .. ▸ hshape
  constructor
  · intro i hi hnone
    have hsame := congrFun hchunks i
    rw [hnone] at hsame
    apply h.chunk i (hnum ▸ hi)
    exact Option.isNone_iff_eq_none.mp (by simpa using hsame.symm)
  · intro harray
    rw [hnum]
    exact h.array harray

@[simp] theorem shape_write (ce : ChunkedEntries) (id : ℕ) (f : EntryConfig → EntryConfig) :
    (ce.write id f).shape = ce.shape := by
  unfold ChunkedEntries.shape ChunkedEntries.write
  refine Prod.ext rfl ?_
  funext i
  by_cases hi : i = id >>> chunkShift
  · rw [hi]
    simp
  · simp [Function.update_of_ne hi]

@[simp] theorem shape_writeAll (ce : ChunkedEntries) (ids : List ℕ)
    (f : EntryConfig → EntryConfig) : (writeAll ce ids f).shape = ce.shape := by
  induction ids generalizing ce with
  | nil => rfl
  | cons id ids ih =>
    rw [writeAll, List.foldl_cons, ← writeAll, ih, shape_write]

theorem live_of_shape {b : StoreBlocks} {ce ce' : ChunkedEntries} (h : ce'.shape = ce.shape) :
    b.live ce'.numChunks = b.live ce.numChunks :=
  congrArg b.live (congrArg Prod.fst h)

/-- A store with its blocks, `mem` being where the allocator stands. -/
structure Stored (mem mem' : Allocator) (ce ce' : ChunkedEntries) (b : StoreBlocks)
    (r : StoreBlocks × List Addr) : Prop where
  tally : Tally mem.next mem'.next (b.live ce.numChunks) (r.1.live ce'.numChunks) r.2
  mirrors : Mirrors r.1 ce'

theorem Stored.reshape {mem mem' : Allocator} {ce ce' ce'' : ChunkedEntries} {b : StoreBlocks}
    {r : StoreBlocks × List Addr} (h : Stored mem mem' ce ce' b r) (hshape : ce''.shape = ce'.shape) :
    Stored mem mem' ce ce'' b r := by
  constructor
  · rw [live_of_shape hshape]
    exact h.tally
  · exact h.mirrors.of_shape hshape

theorem contents_extend {n n' : ℕ} (hn : n ≤ n') (chunk : ℕ → Option Addr) :
    Bins.contents n' (fun i => (if i < n then chunk i else none).toList) =
      Bins.contents n fun i => (chunk i).toList := by
  unfold Bins.contents
  symm
  apply Finset.sum_subset_zero_on_sdiff (Finset.range_mono hn)
  · intro i hi
    have hout : ¬ i < n := by simpa using (Finset.mem_sdiff.mp hi).2
    simp [hout]
  · intro i hi
    simp [Finset.mem_range.mp hi]

theorem Mirrors.grow {ce : ChunkedEntries} {b : StoreBlocks} {c : ℕ} (h : Mirrors b ce)
    (mem : Allocator) (hc : c < maxChunks) :
    Stored mem (growChunks mem ce c).2.1 ce (growChunks mem ce c).2.2 b (growBlocks mem ce c b) := by
  unfold growChunks growBlocks
  split_ifs with hge
  swap
  · exact ⟨.refl _ _, h⟩
  dsimp only
  have hreach : c + 1 ≤ doubleUntil (c + 1) 21 1 :=
    le_doubleUntil (c + 1) 21 1 (by unfold maxChunks at hc; omega)
  have hlen : c < if doubleUntil (c + 1) 21 1 > maxChunks then maxChunks
      else doubleUntil (c + 1) 21 1 := by
    split_ifs <;> omega
  generalize (if doubleUntil (c + 1) 21 1 > maxChunks then maxChunks
    else doubleUntil (c + 1) 21 1) = len at hlen ⊢
  cases halloc : hwfqAlloc mem len with
  | mk p mem' =>
    cases p with
    | none => exact ⟨tally_refused halloc _, h⟩
    | some addr =>
      obtain ⟨rfl, hnext⟩ := hwfqAlloc_some halloc
      constructor
      · have hsame := contents_extend (show ce.numChunks ≤ len by omega) b.chunk
        simp only [StoreBlocks.live, hsame, hnext, Option.toList_some, Multiset.coe_singleton,
          Multiset.singleton_add]
        exact .replace _ _ _
      · constructor
        · intro i _ hnone
          dsimp only at hnone ⊢
          split_ifs at hnone ⊢ with hi
          · exact h.chunk i hi hnone
          · rfl
        · intro harray
          cases harray

theorem live_chunk {b : StoreBlocks} {n c : ℕ} (hc : c < n) (hnull : b.chunk c = none)
    (addr : Addr) :
    StoreBlocks.live { b with chunk := Function.update b.chunk c (some addr) } n =
      addr ::ₘ b.live n := by
  have hbins : (fun i => (Function.update b.chunk c (some addr) i).toList) =
      Function.update (fun i => (b.chunk i).toList) c [addr] := by
    funext i
    by_cases hi : i = c
    · rw [hi, Function.update_self, Function.update_self]
      rfl
    · rw [Function.update_of_ne hi, Function.update_of_ne hi]
  have hinsert : Bins.contents n (Function.update (fun i => (b.chunk i).toList) c [addr]) =
      addr ::ₘ Bins.contents n fun i => (b.chunk i).toList := by
    apply Bins.contents_insert hc
    rw [hnull]
    exact .refl _
  unfold StoreBlocks.live
  rw [hbins, hinsert, Multiset.add_cons]

/-- The pointer array grows, and the chunk is allocated where its pointer is NULL. -/
theorem Mirrors.allocateChunk {ce : ChunkedEntries} {b : StoreBlocks} (h : Mirrors b ce)
    (mem : Allocator) (c : ℕ) :
    Stored mem (Hwfq.allocateChunk mem ce c).2.1 ce (Hwfq.allocateChunk mem ce c).2.2 b
      (chunkBlocks mem ce c b) := by
  unfold Hwfq.allocateChunk chunkBlocks
  by_cases hc : c ≥ maxChunks
  · rw [if_pos hc, if_pos hc]
    exact ⟨.refl _ _, h⟩
  rw [if_neg hc, if_neg hc]
  have hgrown := h.grow mem (Nat.lt_of_not_le hc)
  have hreach := (growChunks_spec mem ce (Nat.lt_of_not_le hc)).2.2.2.2
  generalize growBlocks mem ce c b = blocks at hgrown ⊢
  generalize growChunks mem ce c = grown at hgrown hreach ⊢
  obtain ⟨b₁, freed⟩ := blocks
  obtain ⟨status, mem₁, ce₁⟩ := grown
  dsimp only at hgrown hreach ⊢
  cases status with
  | success =>
    dsimp only
    cases hchunk : ce₁.chunks c with
    | some entries => exact hgrown
    | none =>
      dsimp only
      cases halloc : hwfqAlloc mem₁ chunkSize with
      | mk p mem₂ =>
        cases p with
        | none =>
          have hrefused := hgrown.tally.trans (tally_refused halloc _)
          rw [add_zero] at hrefused
          exact ⟨hrefused, hgrown.mirrors⟩
        | some addr =>
          have hlt : c < ce₁.numChunks := hreach rfl
          have hnull : b₁.chunk c = none := hgrown.mirrors.chunk c hlt hchunk
          have hgranted := hgrown.tally.trans (tally_granted halloc _)
          have hlive : StoreBlocks.live { b₁ with chunk := Function.update b₁.chunk c (some addr) }
              ce₁.numChunks = addr ::ₘ b₁.live ce₁.numChunks := live_chunk hlt hnull addr
          rw [add_zero, ← hlive] at hgranted
          refine ⟨hgranted, ?_, hgrown.mirrors.array⟩
          intro i hi hnone
          dsimp only at hi hnone ⊢
          by_cases hic : i = c
          · rw [hic, Function.update_self] at hnone
            cases hnone
          · rw [Function.update_of_ne hic] at hnone ⊢
            exact hgrown.mirrors.chunk i hi hnone
  | _ => exact hgrown

theorem Mirrors.entriesAlloc {ce : ChunkedEntries} {b : StoreBlocks} (h : Mirrors b ce)
    (mem : Allocator) :
    Stored mem (hwfqChunkedEntriesAlloc mem ce).2.1 ce (hwfqChunkedEntriesAlloc mem ce).2.2 b
      (entriesAllocBlocks mem ce b) := by
  have hfresh : ∀ {ce₁ : ChunkedEntries}, ce₁.shape = ce.shape →
      ce₁.numAllocated = ce.numAllocated →
      Stored mem (allocFresh mem ce₁).2.1 ce (allocFresh mem ce₁).2.2 b
        (chunkBlocks mem ce₁ (ce.numAllocated >>> chunkShift) b) := by
    intro ce₁ hshape hnum
    have hchunk := (h.of_shape hshape).allocateChunk mem (ce.numAllocated >>> chunkShift)
    unfold allocFresh
    rw [hnum]
    dsimp only
    generalize chunkBlocks mem ce₁ (ce.numAllocated >>> chunkShift) b = r at hchunk ⊢
    generalize Hwfq.allocateChunk mem ce₁ (ce.numAllocated >>> chunkShift) = chunked at hchunk ⊢
    obtain ⟨status, mem₁, ce₂⟩ := chunked
    have hstart : b.live ce₁.numChunks = b.live ce.numChunks := live_of_shape hshape
    have htally := hchunk.tally
    rw [hstart] at htally
    cases status with
    | success =>
      refine ⟨htally, hchunk.mirrors.of_shape ?_⟩
      let id := (ce.numAllocated >>> chunkShift) <<< chunkShift ||| (ce.numAllocated &&& chunkMask)
      exact shape_write ce₂ id fun _ => { EntryConfig.zero with entryId := id }
    | _ => exact ⟨htally, hchunk.mirrors⟩
  unfold hwfqChunkedEntriesAlloc entriesAllocBlocks
  split_ifs with hfull hhead
  · exact ⟨.refl _ _, h⟩
  · cases hget : hwfqChunkedGet ce ce.freeHead with
    | some entry =>
      refine ⟨.refl _ _, h.of_shape ?_⟩
      exact shape_write ce ce.freeHead fun e =>
        { e with entryId := ce.freeHead, configured := false }
    | none => exact hfresh rfl rfl
  · exact hfresh rfl rfl

theorem shape_free (ce : ChunkedEntries) (id : ℕ) :
    (hwfqChunkedEntriesFree ce id).shape = ce.shape := by
  unfold hwfqChunkedEntriesFree
  cases hwfqChunkedGet ce id with
  | none => rfl
  | some entry =>
    exact shape_write ce id fun e => { e with configured := false, entryId := ce.freeHead }

theorem coe_flatMap_range {β : Type*} (n : ℕ) (f : ℕ → List β) :
    ((List.range n).flatMap f : Multiset β) = ∑ i ∈ Finset.range n, (f i : Multiset β) :=
  (Multiset.coe_bind (List.range n) f).symm

/-- The destruction of a store frees what is in use. -/
theorem Mirrors.destroys {ce : ChunkedEntries} {b : StoreBlocks} (h : Mirrors b ce) :
    (entriesDestroyFrees ce b : Multiset ℕ) = b.live ce.numChunks := by
  unfold entriesDestroyFrees StoreBlocks.live
  cases harray : b.array with
  | none =>
    rw [h.array harray]
    rfl
  | some array =>
    dsimp only
    rw [← Multiset.coe_add, coe_flatMap_range, add_comm, Option.toList_some]
    rfl

/-! ## Group schedulers -/

/-- The object of a group scheduler, `bin_bitfield` and `bin_heads`. -/
structure GroupBlocks where
  scheduler : Addr
  bitfield : Addr
  heads : Addr

def GroupBlocks.live (b : GroupBlocks) : Multiset ℕ := {b.heads, b.bitfield, b.scheduler}

/-- The blocks of `group_scheduler_init_with_entries`; what a failure gives back. -/
def groupInitBlocks (mem : Allocator) (numGroups binsPerGroup maxEntries : ℕ) :
    Option GroupBlocks × List Addr :=
  if numGroups = 0 ∨ binsPerGroup = 0 ∨ maxEntries = 0 then (none, [])
  else
    let numBins := u32 (numGroups * binsPerGroup)
    let binBitfieldSize := u32 (numBins + 31) / 32
    match hwfqAlloc mem 1 with
    | (none, _) => (none, [])
    | (some scheduler, mem) =>
        match hwfqAlloc mem binBitfieldSize with
        | (none, _) => (none, [scheduler])
        | (some bitfield, mem) =>
            match hwfqAlloc mem numBins with
            | (none, _) => (none, [bitfield, scheduler])
            | (some heads, _) => (some ⟨scheduler, bitfield, heads⟩, [])

theorem groupInitBlocks_some {mem : Allocator} {numGroups binsPerGroup maxEntries : ℕ}
    {b : GroupBlocks} (h : (groupInitBlocks mem numGroups binsPerGroup maxEntries).1 = some b) :
    (groupInitBlocks mem numGroups binsPerGroup maxEntries).2 = [] := by
  unfold groupInitBlocks at h ⊢
  split_ifs at h ⊢
  dsimp only at h ⊢
  generalize u32 (numGroups * binsPerGroup) = n at h ⊢
  generalize u32 (n + 31) / 32 = words at h ⊢
  generalize hwfqAlloc mem 1 = r₁ at h ⊢
  obtain ⟨_ | scheduler, mem₁⟩ := r₁
  · cases h
  dsimp only at h ⊢
  generalize hwfqAlloc mem₁ words = r₂ at h ⊢
  obtain ⟨_ | bitfield, mem₂⟩ := r₂
  · cases h
  dsimp only at h ⊢
  generalize hwfqAlloc mem₂ n = r₃ at h ⊢
  obtain ⟨_ | heads, mem₃⟩ := r₃
  · cases h
  · rfl

theorem groupInit_tally (α : Type*) (mem : Allocator)
    (numGroups binsPerGroup totalCapacity maxEntries : ℕ) (entries : ChunkedEntries) :
    (groupSchedulerInitWithEntries α mem numGroups binsPerGroup totalCapacity maxEntries
        entries).1.isSome =
        (groupInitBlocks mem numGroups binsPerGroup maxEntries).1.isSome ∧
      Tally mem.next (groupSchedulerInitWithEntries α mem numGroups binsPerGroup totalCapacity
          maxEntries entries).2.next 0
        ((groupInitBlocks mem numGroups binsPerGroup maxEntries).1.elim 0 GroupBlocks.live)
        (groupInitBlocks mem numGroups binsPerGroup maxEntries).2 := by
  unfold groupSchedulerInitWithEntries groupInitBlocks
  split_ifs
  · exact ⟨rfl, .refl _ _⟩
  dsimp only
  generalize u32 (numGroups * binsPerGroup) = n
  generalize u32 (n + 31) / 32 = words
  cases h₁ : hwfqAlloc mem 1 with
  | mk p₁ mem₁ =>
    cases p₁ with
    | none => exact ⟨rfl, tally_refused h₁ 0⟩
    | some scheduler =>
      have hfirst := tally_granted h₁ 0
      dsimp only
      cases h₂ : hwfqAlloc mem₁ words with
      | mk p₂ mem₂ =>
        cases p₂ with
        | none =>
          have hback := Tally.free mem₂.next 0 ({scheduler} : Multiset ℕ)
          exact ⟨rfl, (hfirst.trans (tally_refused h₂ _)).trans hback⟩
        | some bitfield =>
          have hsecond := hfirst.trans (tally_granted h₂ _)
          dsimp only
          cases h₃ : hwfqAlloc mem₂ n with
          | mk p₃ mem₃ =>
            cases p₃ with
            | none =>
              have hback := Tally.free mem₃.next 0 ({bitfield, scheduler} : Multiset ℕ)
              exact ⟨rfl, (hsecond.trans (tally_refused h₃ _)).trans hback⟩
            | some heads => exact ⟨rfl, hsecond.trans (tally_granted h₃ _)⟩

/-! ## Queued sessions -/

/-- The blocks of the queued sessions. -/
def GroupScheduler.sessions (gs : GroupScheduler α) : Multiset ℕ := gs.queued.map (·.addr)

/-- What `group_scheduler_enqueue` gives back: a session that no bin takes. -/
def groupEnqueueFrees (mem : Allocator) (gs : GroupScheduler α) (entryId workSize : ℕ)
    (userData : Option α) (cleanupFn : Bool) : List Addr :=
  if workSize = 0 then []
  else if entryId ≥ gs.maxEntries then []
  else
    match groupSchedulerFindEntry gs entryId with
    | none => []
    | some entry =>
        if entryRate gs entry = 0 then []
        else
          match hwfqAlloc mem 1 with
          | (none, _) => []
          | (some addr, _) =>
              match calendarInsertSession gs
                  (newSession gs entry addr entryId workSize userData cleanupFn) with
              | (.success, _) => []
              | _ => [addr]

section Enqueue
variable (mem : Allocator) (gs : GroupScheduler α) (id w : ℕ) (ud : Option α) (cf : Bool)

/-- A session that is not queued has not been allocated, or it is freed. -/
theorem groupEnqueueFrees_cases :
    ((groupSchedulerEnqueue mem gs id w ud cf).status = .success ∧
        groupEnqueueFrees mem gs id w ud cf = []) ∨
      ((groupSchedulerEnqueue mem gs id w ud cf).status ≠ .success ∧
        ∀ m, Tally mem.next (groupSchedulerEnqueue mem gs id w ud cf).mem.next m m
          (groupEnqueueFrees mem gs id w ud cf)) := by
  unfold groupSchedulerEnqueue groupEnqueueFrees
  split_ifs
  · exact .inr ⟨by simp, fun m => .refl _ m⟩
  · exact .inr ⟨by simp, fun m => .refl _ m⟩
  cases groupSchedulerFindEntry gs id with
  | none => exact .inr ⟨by simp, fun m => .refl _ m⟩
  | some entry =>
    dsimp only
    split_ifs
    · exact .inr ⟨by simp, fun m => .refl _ m⟩
    cases halloc : hwfqAlloc mem 1 with
    | mk p mem' =>
      cases p with
      | none => exact .inr ⟨by simp, fun m => tally_refused halloc m⟩
      | some addr =>
        dsimp only
        generalize calendarInsertSession gs (newSession gs entry addr id w ud cf) = inserted
        obtain ⟨status, gs'⟩ := inserted
        cases status with
        | success => exact .inl ⟨rfl, rfl⟩
        | _ =>
          refine .inr ⟨by simp, fun m => ?_⟩
          have hback := (tally_granted halloc m).trans (.free mem'.next m {addr})
          rwa [zero_add] at hback

theorem groupEnqueue_tally :
    Tally mem.next (groupSchedulerEnqueue mem gs id w ud cf).mem.next gs.sessions
      (groupSchedulerEnqueue mem gs id w ud cf).gs.sessions
      (groupEnqueueFrees mem gs id w ud cf) := by
  rcases groupEnqueueFrees_cases mem gs id w ud cf with ⟨hok, hnone⟩ | ⟨hbad, hback⟩
  · rcases enqueue_cases mem gs id w ud cf with ⟨hbad, -⟩ | ⟨-, -, hnext, -, entry, hadm, heq⟩
    · exact absurd hok hbad
    · have hqueued := hadm.queued mem.next ud cf
      rw [hnone, hnext, heq, GroupScheduler.sessions, GroupScheduler.sessions, hqueued,
        Multiset.map_cons]
      exact .grant _ _
  · rcases enqueue_cases mem gs id w ud cf with ⟨-, heq, -⟩ | ⟨hok, -⟩
    · rw [heq]
      exact hback _
    · exact absurd hok hbad

end Enqueue

section Sessions
variable {gs : GroupScheduler α}

theorem sessions_taken (h : CalendarInv gs) {q : SessionState α} {gs' : GroupScheduler α}
    (hd : groupSchedulerDequeue gs = (some q, gs')) : gs.sessions = q.addr ::ₘ gs'.sessions := by
  rcases dequeue_cases h with ⟨-, heq⟩ | ⟨-, -, heq⟩ | ⟨-, p, hfind, heq⟩
  · rw [heq] at hd
    cases hd
  · rw [heq] at hd
    cases hd
  · rw [heq] at hd
    cases hd
    have hqueued := dequeued_queued h (findEligible_some h hfind).1
    rw [GroupScheduler.sessions, hqueued, Multiset.map_cons, GroupScheduler.sessions]

theorem sessions_missed (h : CalendarInv gs) {gs' : GroupScheduler α}
    (hd : groupSchedulerDequeue gs = (none, gs')) : gs'.sessions = gs.sessions := by
  rcases dequeue_cases h with ⟨-, heq⟩ | ⟨-, -, heq⟩ | ⟨-, p, -, heq⟩
  · rw [heq] at hd
    cases hd
    rfl
  · rw [heq] at hd
    cases hd
    rfl
  · rw [heq] at hd
    cases hd

theorem sessions_update (gs : GroupScheduler α) (w : ℕ) :
    (groupSchedulerUpdateVirtualTime gs w).sessions = gs.sessions := by
  rw [GroupScheduler.sessions, updateVirtualTime_queued, Multiset.map_map]
  rfl

end Sessions

/-- `group_scheduler_destroy`, where `cleanup` says what the cleanup function of the sessions
frees. -/
def groupDestroyFrees (gs : GroupScheduler α) (b : GroupBlocks) (cleanup : Option α → List Addr) :
    List Addr :=
  ((List.range (u32 (gs.numGroups * gs.binsPerGroup))).flatMap fun i =>
    (gs.binHeads i).flatMap fun q => (if q.cleanupFn then cleanup q.userData else []) ++ [q.addr])
  ++ [b.heads, b.bitfield, b.scheduler]

theorem groupDestroys {gs : GroupScheduler α} (b : GroupBlocks) (cleanup : Option α → List Addr)
    (hgrid : gs.numBins = u32 (gs.numGroups * gs.binsPerGroup)) :
    (groupDestroyFrees gs b cleanup : Multiset ℕ) =
      gs.queued.bind (fun q => ((if q.cleanupFn then cleanup q.userData else [] : List Addr) :
        Multiset ℕ)) + gs.sessions + b.live := by
  have hlist : ∀ l : List (SessionState α), ((l.flatMap fun q =>
      (if q.cleanupFn then cleanup q.userData else []) ++ [q.addr] : List Addr) : Multiset ℕ) =
      (l : Multiset (SessionState α)).bind (fun q =>
        ((if q.cleanupFn then cleanup q.userData else [] : List Addr) : Multiset ℕ)) +
        (l : Multiset (SessionState α)).map (·.addr) := by
    intro l
    induction l with
    | nil => rfl
    | cons q l ih =>
      rw [List.flatMap_cons, ← Multiset.coe_add, ih, ← Multiset.cons_coe, Multiset.cons_bind,
        Multiset.map_cons, ← Multiset.coe_add, Multiset.coe_singleton, ← Multiset.singleton_add]
      abel
  rw [groupDestroyFrees, ← hgrid, ← List.flatMap_assoc, ← Multiset.coe_add, hlist,
    GroupScheduler.sessions, queued_eq_flatMap]
  rfl

end Hwfq
