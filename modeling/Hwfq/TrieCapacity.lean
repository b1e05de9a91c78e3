import Hwfq.FlowTrieRuns

/-!
# The capacity of the flow trie

The top level is one word of 64 bits, each for `2^18` ids. Ids from `2^24` on have room in
the leaf and in the two levels above it, but no bit of the top word leads to them.
-/
namespace Hwfq
open SetBits WordArrays GuardedRuns

variable {t t' : FlowTrie} {maxFlows : ℕ}

/-- An id is returned whenever the free count is positive, and a request fails only when all
ids are allocated. -/
structure UsesCapacity (t : FlowTrie) : Prop where
  allocates : 0 < hwfqFlowTrieFreeCount t → ∃ id t', hwfqFlowTrieAlloc t = (.ok id, t')
  full : ∀ status t', hwfqFlowTrieAlloc t = (.error status, t') → t.allocatedCount = t.maxFlows

/-- A free id below a bit of the top word keeps the top word from being zero. -/
theorem Summaries.level2_ne_zero (h : Summaries t) {id : ℕ} (hid : bit t.freeWords id = true)
    (htop : id / 64 / 64 / 64 < 64) : t.level2 ≠ 0#64 := by
  have hleaf : t.freeWords (id / 64) ≠ 0#64 := word_ne_zero_of_bit (by decide) hid
  have hlevel0 : t.level0 (id / 64 / 64) ≠ 0#64 :=
    word_ne_zero_of_bit (by decide) ((h.level0 (id / 64) trivial).mpr hleaf)
  have hlevel1 : t.level1 (id / 64 / 64 / 64) ≠ 0#64 :=
    word_ne_zero_of_bit (by decide) ((h.level1 (id / 64 / 64) trivial).mpr hlevel0)
  have hbit := (h.level2 _ htop).mpr hlevel1
  rw [bit_topWord _ htop] at hbit
  intro hzero
  rw [hzero] at hbit
  simp at hbit

section Inv
variable (h : TrieInv maxFlows t)
include h

/-- Only ids below a bit of the top word are ever allocated. -/
theorem TrieInv.allocated_subset : t.allocated ⊆ Finset.range (min maxFlows (2 ^ 24)) := by
  intro i hi
  obtain ⟨hlt, hbit⟩ := mem_allocated.mp hi
  rw [h.flows] at hlt
  rw [Finset.mem_range, lt_min_iff]
  refine ⟨hlt, ?_⟩
  by_contra hge
  have hunreached := h.unreached i (by omega) hlt
  rw [hunreached] at hbit
  cases hbit

theorem TrieInv.card_le : t.allocated.card ≤ min maxFlows (2 ^ 24) := by
  have hcard := Finset.card_le_card h.allocated_subset
  rwa [Finset.card_range] at hcard

/-- A request fails exactly when all ids that the top word leads to are allocated. -/
theorem TrieInv.alloc_fails_iff (hmax : maxFlows ≤ 2 ^ 26) :
    hwfqFlowTrieAlloc t = (.error .noMemory, t) ↔
      t.allocated.card = min maxFlows (2 ^ 24) := by
  constructor
  · intro hfail
    apply le_antisymm h.card_le
    rw [← Finset.card_range (min maxFlows (2 ^ 24))]
    apply Finset.card_le_card
    intro id hid
    obtain ⟨hlt, htop⟩ := lt_min_iff.mp (Finset.mem_range.mp hid)
    by_contra hfree
    have hbit : bit t.freeWords id = true := h.free_iff.mpr ⟨hlt, hfree⟩
    obtain ⟨j, hleast, -, heq⟩ :=
      h.summaries.alloc_eq (h.summaries.level2_ne_zero hbit (by omega))
    have hroom : ¬ j ≥ t.maxFlows := by
      rw [h.flows]
      exact Nat.not_le.mpr (h.free_iff.mp hleast.1).1
    rw [if_neg hroom] at heq
    cases hfail.symm.trans heq
  · intro hcard
    rcases h.alloc hmax with hfail | ⟨id, t', -, hleast, hinv, hset⟩
    · exact hfail
    · have hle := hinv.card_le
      rw [hset, Finset.card_insert_of_notMem hleast.1.2] at hle
      omega

theorem TrieInv.freeCount :
    hwfqFlowTrieFreeCount t = maxFlows - t.allocated.card := by
  have hle := h.card_le
  unfold hwfqFlowTrieFreeCount subU32
  rw [h.flows, h.count]
  exact if_pos (hle.trans (min_le_left _ _))

/-- A state uses its capacity unless more ids are promised than the top word leads to, and
all of these are taken. -/
theorem TrieInv.usesCapacity_iff (hmax : maxFlows ≤ 2 ^ 26) :
    UsesCapacity t ↔ maxFlows ≤ 2 ^ 24 ∨ t.allocatedCount < 2 ^ 24 := by
  have hfails := h.alloc_fails_iff hmax
  have hle := h.card_le
  have hfree := h.freeCount
  rw [h.count]
  constructor
  · intro huses
    by_contra hcond
    rw [not_or, Nat.not_le, Nat.not_lt] at hcond
    obtain ⟨id, t', hok⟩ := huses.allocates (by omega)
    cases (hfails.mpr (by omega)).symm.trans hok
  · intro hcond
    constructor
    · intro hpos
      rcases h.alloc hmax with hfail | ⟨id, t', hok, -⟩
      · have hfull := hfails.mp hfail
        omega
      · exact ⟨id, t', hok⟩
    · intro status t' hfail
      rcases h.alloc hmax with hnone | ⟨id, t'', hok, -⟩
      · have hfull := hfails.mp hnone
        rw [h.count, h.flows]
        omega
      · cases hok.symm.trans hfail

end Inv

/-! ## Filling a trie -/

theorem TrieInv.run (h : TrieInv maxFlows t) (hmax : maxFlows ≤ 2 ^ 26) (hzero : 0 ∈ t.allocated)
    (calls : List TrieCall) : TrieInv maxFlows (run FlowTrie.step t calls) :=
  (run_invariant_all (I := fun t : FlowTrie => TrieInv maxFlows t ∧ 0 ∈ t.allocated)
    (fun _ c h => h.1.step hmax h.2 c) ⟨h, hzero⟩ calls).1

/-- Requests succeed one after the other up to the last id that the top word leads to. -/
theorem TrieInv.fill (h : TrieInv maxFlows t) (hmax : maxFlows ≤ 2 ^ 26) (n : ℕ)
    (hn : t.allocated.card + n ≤ min maxFlows (2 ^ 24)) :
    (GuardedRuns.run FlowTrie.step t (List.replicate n .alloc)).allocated.card =
      t.allocated.card + n := by
  induction n generalizing t with
  | zero => rfl
  | succ n ih =>
    rcases h.alloc hmax with hfail | ⟨id, t', hok, hleast, hinv, hset⟩
    · have hfull := (h.alloc_fails_iff hmax).mp hfail
      omega
    · have hcard : t'.allocated.card = t.allocated.card + 1 := by
        rw [hset, Finset.card_insert_of_notMem hleast.1.2]
      have hstep : t.step .alloc = t' := congrArg Prod.snd hok
      rw [List.replicate_succ, run_cons, hstep, ih hinv (by omega), hcard]
      omega

theorem init_card {mem mem' : Allocator} (hpos : 1 ≤ maxFlows) (hmax : maxFlows ≤ 2 ^ 26)
    (h : hwfqFlowTrieInit mem maxFlows = (.ok t, mem')) : t.allocated.card = 1 := by
  have hinv := (TrieInv.init hpos hmax h).1
  rw [← hinv.count, init_ok h]
  exact (updateFull_leaves _ 0 0 0).allocatedCount

section New
variable {mem mem' : Allocator} (hpos : 1 ≤ maxFlows) (hmax : maxFlows ≤ 2 ^ 26)
  (hinit : hwfqFlowTrieInit mem maxFlows = (.ok t, mem'))
include hpos hmax hinit

/-- The state in which a trie of more than `2^24` flows stops. -/
theorem init_stops (hlarge : 2 ^ 24 < maxFlows) :
    let t' := run FlowTrie.step t (List.replicate (2 ^ 24 - 1) .alloc)
    t'.allocatedCount = 2 ^ 24 ∧ hwfqFlowTrieFreeCount t' = maxFlows - 2 ^ 24 ∧
      hwfqFlowTrieAlloc t' = (.error .noMemory, t') := by
  obtain ⟨hinv, hzero⟩ := TrieInv.init hpos hmax hinit
  have hone := init_card hpos hmax hinit
  have hfill := hinv.fill hmax (2 ^ 24 - 1) (by omega)
  have hlast := hinv.run hmax hzero (List.replicate (2 ^ 24 - 1) .alloc)
  have hcard : (run FlowTrie.step t (List.replicate (2 ^ 24 - 1) .alloc)).allocated.card = 2 ^ 24 := by
    omega
  refine ⟨hlast.count.trans hcard, ?_, (hlast.alloc_fails_iff hmax).mpr ?_⟩
  · rw [hlast.freeCount, hcard]
  · rw [hcard]
    omega

end New

/-- Exactly the tries of at most `2^24` flows use their whole capacity; a larger one stops in
every state with `2^24` ids allocated. -/
theorem trie_capacity_iff (maxFlows : ℕ) (hpos : 1 ≤ maxFlows) (hmax : maxFlows ≤ 2 ^ 26)
    (mem mem' : Allocator) (t : FlowTrie)
    (hinit : hwfqFlowTrieInit mem maxFlows = (.ok t, mem')) :
    ((∀ calls, UsesCapacity (run FlowTrie.step t calls)) ↔ maxFlows ≤ 2 ^ 24) ∧
      ∀ calls, UsesCapacity (run FlowTrie.step t calls) ↔
        maxFlows ≤ 2 ^ 24 ∨ (run FlowTrie.step t calls).allocatedCount < 2 ^ 24 := by
  obtain ⟨hinv, hzero⟩ := TrieInv.init hpos hmax hinit
  have hstates : ∀ calls, UsesCapacity (run FlowTrie.step t calls) ↔
      maxFlows ≤ 2 ^ 24 ∨ (run FlowTrie.step t calls).allocatedCount < 2 ^ 24 := fun calls =>
    (hinv.run hmax hzero calls).usesCapacity_iff hmax
  refine ⟨⟨fun hall => ?_, fun hsmall calls => (hstates calls).mpr (.inl hsmall)⟩, hstates⟩
  by_contra hlarge
  obtain ⟨hcount, -, -⟩ := init_stops hpos hmax hinit (Nat.lt_of_not_le hlarge)
  rcases (hstates _).mp (hall (List.replicate (2 ^ 24 - 1) .alloc)) with hsmall | hless
  · exact hlarge hsmall
  · omega

/-- A trie of the documented 64M flows. -/
def largestTrie : FlowTrie := reserveZero (blankTrie (2 ^ 26))

theorem largestTrie_init :
    hwfqFlowTrieInit ⟨fun _ => true, 1⟩ (2 ^ 26) = (.ok largestTrie, ⟨fun _ => true, 4⟩) := by
  obtain ⟨hleaf, hlevel0, hlevel1⟩ := @blank_sizes (2 ^ 26) le_rfl
  unfold hwfqFlowTrieInit
  rw [if_neg (by decide)]
  simp only [hwfqAlloc, hleaf, hlevel0, hlevel1]
  simp
  rfl

theorem trie_capacity_iff_largest :
    ((∀ calls, UsesCapacity (run FlowTrie.step largestTrie calls)) ↔ 2 ^ 26 ≤ 2 ^ 24) ∧
      ∀ calls, UsesCapacity (run FlowTrie.step largestTrie calls) ↔
        2 ^ 26 ≤ 2 ^ 24 ∨ (run FlowTrie.step largestTrie calls).allocatedCount < 2 ^ 24 :=
  trie_capacity_iff (2 ^ 26) (by decide) le_rfl _ _ largestTrie largestTrie_init

/-- With three quarters of the documented ids free the largest trie has none to give. -/
theorem trie_stops :
    let t := run FlowTrie.step largestTrie (List.replicate (2 ^ 24 - 1) .alloc)
    hwfqFlowTrieFreeCount t = 2 ^ 26 - 2 ^ 24 ∧ hwfqFlowTrieAlloc t = (.error .noMemory, t) ∧
      ¬ UsesCapacity t := by
  obtain ⟨-, hfree, hfail⟩ :=
    init_stops (by decide) le_rfl largestTrie_init (by decide : 2 ^ 24 < 2 ^ 26)
  refine ⟨hfree, hfail, fun huses => ?_⟩
  obtain ⟨id, t', hok⟩ := huses.allocates (by rw [hfree]; decide)
  cases hfail.symm.trans hok

end Hwfq
