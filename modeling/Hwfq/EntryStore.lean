import Mathlib.Data.List.Nodup
import Mathlib.Data.Nat.Bitwise
import Hwfq.ChunkedEntries

/-!
# Reading and writing the entry store

A write through one entry pointer is seen at that id and nowhere else. A loop that
writes through every pointer of a list changes exactly the listed entries.
-/
namespace Hwfq

variable {ce : ChunkedEntries}

theorem shiftRight_chunkShift (id : ℕ) : id >>> chunkShift = id / 1024 :=
  Nat.shiftRight_eq_div_pow id 10

theorem and_chunkMask (id : ℕ) : id &&& chunkMask = id % 1024 :=
  Nat.and_two_pow_sub_one_eq_mod id 10

theorem hwfqChunkedGet_eq (ce : ChunkedEntries) (id : ℕ) :
    hwfqChunkedGet ce id =
      if ce.numChunks ≤ id / 1024 then none else (ce.chunks (id / 1024)).map (· (id % 1024)) := by
  dsimp only [hwfqChunkedGet]
  rw [shiftRight_chunkShift, and_chunkMask]

theorem write_chunks (ce : ChunkedEntries) (id : ℕ) (f : EntryConfig → EntryConfig) :
    (ce.write id f).chunks = Function.update ce.chunks (id / 1024)
      ((ce.chunks (id / 1024)).map fun entries =>
        Function.update entries (id % 1024) (f (entries (id % 1024)))) := by
  dsimp only [ChunkedEntries.write]
  rw [shiftRight_chunkShift, and_chunkMask]

@[simp] theorem write_numChunks (id : ℕ) (f : EntryConfig → EntryConfig) :
    (ce.write id f).numChunks = ce.numChunks := rfl

@[simp] theorem write_numAllocated (id : ℕ) (f : EntryConfig → EntryConfig) :
    (ce.write id f).numAllocated = ce.numAllocated := rfl

@[simp] theorem write_numConfigured (id : ℕ) (f : EntryConfig → EntryConfig) :
    (ce.write id f).numConfigured = ce.numConfigured := rfl

@[simp] theorem write_freeHead (id : ℕ) (f : EntryConfig → EntryConfig) :
    (ce.write id f).freeHead = ce.freeHead := rfl

@[simp] theorem write_maxEntries (id : ℕ) (f : EntryConfig → EntryConfig) :
    (ce.write id f).maxEntries = ce.maxEntries := rfl

theorem get_write_self (ce : ChunkedEntries) (id : ℕ) (f : EntryConfig → EntryConfig) :
    hwfqChunkedGet (ce.write id f) id = (hwfqChunkedGet ce id).map f := by
  rw [hwfqChunkedGet_eq, hwfqChunkedGet_eq, write_chunks, write_numChunks, Function.update_self]
  split_ifs
  · rfl
  · cases ce.chunks (id / 1024) <;> simp

theorem get_write_of_ne {id j : ℕ} (hne : j ≠ id) (f : EntryConfig → EntryConfig) :
    hwfqChunkedGet (ce.write id f) j = hwfqChunkedGet ce j := by
  rw [hwfqChunkedGet_eq, hwfqChunkedGet_eq, write_chunks, write_numChunks]
  by_cases hchunk : j / 1024 = id / 1024
  · have hslot : j % 1024 ≠ id % 1024 := by omega
    rw [hchunk, Function.update_self]
    split_ifs
    · rfl
    · cases ce.chunks (id / 1024) <;> simp [hslot]
  · rw [Function.update_of_ne hchunk]

theorem get_write (ce : ChunkedEntries) (id j : ℕ) (f : EntryConfig → EntryConfig) :
    hwfqChunkedGet (ce.write id f) j =
      if j = id then (hwfqChunkedGet ce j).map f else hwfqChunkedGet ce j := by
  split_ifs with h
  · rw [h, get_write_self]
  · exact get_write_of_ne h f

/-! ## Loops over the configured list -/

/-- One write through each pointer of a list. -/
def writeAll (ce : ChunkedEntries) (ids : List ℕ) (f : EntryConfig → EntryConfig) :
    ChunkedEntries :=
  ids.foldl (fun ce id => ce.write id f) ce

theorem get_writeAll {ids : List ℕ} (hids : ids.Nodup) (f : EntryConfig → EntryConfig)
    (ce : ChunkedEntries) (j : ℕ) :
    hwfqChunkedGet (writeAll ce ids f) j =
      if j ∈ ids then (hwfqChunkedGet ce j).map f else hwfqChunkedGet ce j := by
  induction ids generalizing ce with
  | nil => rfl
  | cons id ids ih =>
    obtain ⟨hid, hids⟩ := List.nodup_cons.mp hids
    rw [writeAll, List.foldl_cons, ← writeAll, ih hids, get_write]
    by_cases hj : j = id
    · subst hj
      simp [hid]
    · simp [hj]

/-- A loop whose body leaves a reading `g` of every entry alone leaves it alone in the store. -/
theorem get_writeAll_map {β : Type*} {f : EntryConfig → EntryConfig} {g : EntryConfig → β}
    (hg : ∀ e, g (f e) = g e) (ids : List ℕ) (ce : ChunkedEntries) (j : ℕ) :
    (hwfqChunkedGet (writeAll ce ids f) j).map g = (hwfqChunkedGet ce j).map g := by
  induction ids generalizing ce with
  | nil => rfl
  | cons id ids ih =>
    rw [writeAll, List.foldl_cons, ← writeAll, ih, get_write]
    split_ifs
    · cases hwfqChunkedGet ce j <;> simp [hg]
    · rfl

@[simp] theorem writeAll_counters (ce : ChunkedEntries) (ids : List ℕ)
    (f : EntryConfig → EntryConfig) :
    (writeAll ce ids f).numAllocated = ce.numAllocated ∧
      (writeAll ce ids f).numConfigured = ce.numConfigured ∧
      (writeAll ce ids f).freeHead = ce.freeHead ∧
      (writeAll ce ids f).maxEntries = ce.maxEntries := by
  induction ids generalizing ce with
  | nil => exact ⟨rfl, rfl, rfl, rfl⟩
  | cons id ids ih => exact ih (ce.write id f)

/-! ## Growing the store -/

/-- Slots that were out of reach may have become zeroed entries. -/
def Extends (ce ce' : ChunkedEntries) : Prop :=
  ∀ j, hwfqChunkedGet ce' j = hwfqChunkedGet ce j ∨
    hwfqChunkedGet ce j = none ∧ hwfqChunkedGet ce' j = some EntryConfig.zero

theorem Extends.refl (ce : ChunkedEntries) : Extends ce ce := fun _ => .inl rfl

/-- The bookkeeping that growing leaves alone. -/
structure SameCounters (ce ce' : ChunkedEntries) : Prop where
  numAllocated : ce'.numAllocated = ce.numAllocated
  numConfigured : ce'.numConfigured = ce.numConfigured
  freeHead : ce'.freeHead = ce.freeHead
  maxEntries : ce'.maxEntries = ce.maxEntries

theorem SameCounters.refl (ce : ChunkedEntries) : SameCounters ce ce := ⟨rfl, rfl, rfl, rfl⟩

theorem le_doubleUntil (n : ℕ) : ∀ fuel k, n ≤ k * 2 ^ fuel → n ≤ doubleUntil n fuel k
  | 0, k, h => by simpa [doubleUntil] using h
  | fuel + 1, k, h => by
    unfold doubleUntil
    split_ifs
    · refine le_doubleUntil n fuel (k * 2) ?_
      rw [pow_succ] at h
      rwa [Nat.mul_assoc, Nat.mul_comm 2]
    · omega

theorem growChunks_spec (mem : Allocator) (ce : ChunkedEntries) {c : ℕ} (hc : c < maxChunks) :
    (∀ j, hwfqChunkedGet (growChunks mem ce c).2.2 j = hwfqChunkedGet ce j) ∧
      SameCounters ce (growChunks mem ce c).2.2 ∧
      mem.next ≤ (growChunks mem ce c).2.1.next ∧
      (mem.AlwaysOk → (growChunks mem ce c).1 = .success ∧ (growChunks mem ce c).2.1.AlwaysOk) ∧
      ((growChunks mem ce c).1 = .success → c < (growChunks mem ce c).2.2.numChunks) := by
  unfold growChunks
  split_ifs with hge
  swap
  · exact ⟨fun _ => rfl, .refl ce, le_rfl, fun h => ⟨rfl, h⟩, fun _ => Nat.lt_of_not_le hge⟩
  dsimp only
  have hreach : c + 1 ≤ doubleUntil (c + 1) 21 1 :=
    le_doubleUntil (c + 1) 21 1 (by unfold maxChunks at hc; omega)
  have hlen : c < if doubleUntil (c + 1) 21 1 > maxChunks then maxChunks
      else doubleUntil (c + 1) 21 1 := by
    split_ifs <;> omega
  generalize (if doubleUntil (c + 1) 21 1 > maxChunks then maxChunks
    else doubleUntil (c + 1) 21 1) = len at hlen ⊢
  have hnext := hwfqAlloc_next_le mem len
  cases halloc : hwfqAlloc mem len with
  | mk p mem' =>
    rw [halloc] at hnext
    cases p with
    | none =>
      refine ⟨fun _ => rfl, .refl ce, hnext, fun h => ?_, fun h => by cases h⟩
      rw [hwfqAlloc_alwaysOk h (by omega)] at halloc
      cases halloc
    | some p =>
      refine ⟨fun j => ?_, ⟨rfl, rfl, rfl, rfl⟩, hnext, fun h => ⟨rfl, ?_⟩, fun _ => hlen⟩
      · rw [hwfqChunkedGet_eq, hwfqChunkedGet_eq]
        dsimp only
        split_ifs <;> first | rfl | omega
      · have hok := h.alloc len
        rwa [halloc] at hok

/-- The store with a zeroed chunk at index `c`. -/
def zeroChunkAt (ce : ChunkedEntries) (c : ℕ) : ChunkedEntries :=
  { ce with chunks := Function.update ce.chunks c (some fun _ => EntryConfig.zero) }

theorem get_zeroChunkAt {c : ℕ} (hc : c < ce.numChunks) (j : ℕ) :
    hwfqChunkedGet (zeroChunkAt ce c) j =
      if j / 1024 = c then some EntryConfig.zero else hwfqChunkedGet ce j := by
  have hnum : (zeroChunkAt ce c).numChunks = ce.numChunks := rfl
  have hchunks : (zeroChunkAt ce c).chunks =
      Function.update ce.chunks c (some fun _ => EntryConfig.zero) := rfl
  rw [hwfqChunkedGet_eq, hwfqChunkedGet_eq, hnum, hchunks]
  by_cases hj : j / 1024 = c
  · rw [if_pos hj, hj, if_neg (Nat.not_le.mpr hc), Function.update_self]
    rfl
  · rw [if_neg hj, Function.update_of_ne hj]

theorem allocateChunk_tail {mem mem' : Allocator} {ce' : ChunkedEntries} {c : ℕ}
    (hget : ∀ j, hwfqChunkedGet ce' j = hwfqChunkedGet ce j) (hcount : SameCounters ce ce')
    (hnext : mem.next ≤ mem'.next) (hok : mem.AlwaysOk → mem'.AlwaysOk) (hc : c < maxChunks)
    (hlt : c < ce'.numChunks) {result : Status × Allocator × ChunkedEntries}
    (hresult : result = match ce'.chunks c with
      | some _ => (.success, mem', ce')
      | none => match hwfqAlloc mem' chunkSize with
        | (none, mem'') => (.noMemory, mem'', ce')
        | (some _, mem'') => (.success, mem'', zeroChunkAt ce' c)) :
    Extends ce result.2.2 ∧ SameCounters ce result.2.2 ∧ mem.next ≤ result.2.1.next ∧
      (mem.AlwaysOk → c < maxChunks → result.1 = .success ∧ result.2.1.AlwaysOk) ∧
      (result.1 = .success →
        c < maxChunks ∧ ∀ j, j / 1024 = c → hwfqChunkedGet result.2.2 j ≠ none) := by
  subst hresult
  cases hchunk : ce'.chunks c with
  | some entries =>
    refine ⟨fun j => .inl (hget j), hcount, hnext, fun h _ => ⟨rfl, hok h⟩,
      fun _ => ⟨hc, fun j hj => ?_⟩⟩
    dsimp only
    rw [hwfqChunkedGet_eq, hj, if_neg (Nat.not_le.mpr hlt), hchunk]
    simp
  | none =>
    have hnext' := hwfqAlloc_next_le mem' chunkSize
    cases halloc : hwfqAlloc mem' chunkSize with
    | mk p mem'' =>
      rw [halloc] at hnext'
      cases p with
      | none =>
        refine ⟨fun j => .inl (hget j), hcount, hnext.trans hnext', fun h _ => ?_,
          fun h => by cases h⟩
        rw [hwfqAlloc_alwaysOk (hok h) (by unfold chunkSize; omega)] at halloc
        cases halloc
      | some p =>
        have hnew := get_zeroChunkAt hlt
        refine ⟨fun j => ?_, ⟨hcount.1, hcount.2, hcount.3, hcount.4⟩, hnext.trans hnext',
          fun h _ => ⟨rfl, ?_⟩, fun _ => ⟨hc, fun j hj => ?_⟩⟩
        · change hwfqChunkedGet (zeroChunkAt ce' c) j = _ ∨ _ ∧ hwfqChunkedGet (zeroChunkAt ce' c) j = _
          rw [hnew]
          split_ifs with hj
          · refine .inr ⟨?_, rfl⟩
            rw [← hget, hwfqChunkedGet_eq, hj, hchunk]
            simp
          · exact .inl (hget j)
        · have hok'' := (hok h).alloc chunkSize
          rwa [halloc] at hok''
        · change hwfqChunkedGet (zeroChunkAt ce' c) j ≠ none
          rw [hnew, if_pos hj]
          simp

theorem allocateChunk_spec (mem : Allocator) (ce : ChunkedEntries) (c : ℕ) :
    Extends ce (allocateChunk mem ce c).2.2 ∧ SameCounters ce (allocateChunk mem ce c).2.2 ∧
      mem.next ≤ (allocateChunk mem ce c).2.1.next ∧
      (mem.AlwaysOk → c < maxChunks →
        (allocateChunk mem ce c).1 = .success ∧ (allocateChunk mem ce c).2.1.AlwaysOk) ∧
      ((allocateChunk mem ce c).1 = .success →
        c < maxChunks ∧ ∀ j, j / 1024 = c → hwfqChunkedGet (allocateChunk mem ce c).2.2 j ≠ none) := by
  unfold allocateChunk
  by_cases hc : c ≥ maxChunks
  · rw [if_pos hc]
    exact ⟨.refl ce, .refl ce, le_rfl, fun _ hlt => absurd hc (Nat.not_le.mpr hlt),
      fun h => by cases h⟩
  rw [if_neg hc]
  obtain ⟨hget, hcount, hnext, hok, hreach⟩ := growChunks_spec mem ce (Nat.lt_of_not_le hc)
  generalize growChunks mem ce c = grown at hget hcount hnext hok hreach ⊢
  obtain ⟨status, mem', ce'⟩ := grown
  dsimp only at hget hcount hnext hok hreach
  cases status with
  | success =>
    exact allocateChunk_tail hget hcount hnext (fun h => (hok h).2) (Nat.lt_of_not_le hc)
      (hreach rfl) rfl
  | _ =>
    exact ⟨fun j => .inl (hget j), hcount, hnext, fun h _ => absurd (hok h).1 (by simp),
      fun h => by cases h⟩

theorem encode_eq (n : ℕ) : (n >>> chunkShift) <<< chunkShift ||| (n &&& chunkMask) = n := by
  rw [shiftRight_chunkShift, and_chunkMask, Nat.shiftLeft_eq, chunkShift, Nat.mul_comm,
    ← Nat.two_pow_add_eq_or_of_lt (Nat.mod_lt n (by decide : 2 ^ 10 > 0))]
  omega

end Hwfq
