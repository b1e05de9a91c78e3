import Mathlib.Data.Finset.Card
import Hwfq.FlowTrie
import Hwfq.GuardedRuns
import Hwfq.WordArrays

/-!
# The flow trie as a set of ids

The free ids of the leaf, read as a bitmap, are summarised by level 0, that one by
level 1 and level 1 by the top word. The search down the levels then ends at the least
free id, and the trie does what a finite set of ids would do.
-/
namespace Hwfq
open SetBits WordArrays

variable {t t' : FlowTrie}

/-- The free ids: the complement of the leaf. -/
def FlowTrie.freeWords (t : FlowTrie) : ℕ → BitVec 64 :=
  fun w => if w < t.leafSize then ~~~t.leaf w else 0#64

/-- The top word as a bitmap of one word. -/
def topWord (v : BitVec 64) : ℕ → BitVec 64 := fun w => if w = 0 then v else 0#64

/-- Every level says where the level below is not zero. -/
structure Summaries (t : FlowTrie) : Prop where
  level0 : Summarises (fun _ => True) t.level0 t.freeWords
  level1 : Summarises (fun _ => True) t.level1 t.level0
  level2 : Summarises (· < 64) (topWord t.level2) t.level1

theorem bit_topWord (v : BitVec 64) {i : ℕ} (hi : i < 64) : bit (topWord v) i = v.getLsbD i := by
  unfold bit topWord
  rw [Nat.div_eq_of_lt hi, if_pos rfl, Nat.mod_eq_of_lt hi]

theorem topWord_clear (v : BitVec 64) {i : ℕ} (hi : i < 64) :
    topWord (clear v i) = WordArrays.clearBit (topWord v) i := by
  funext w
  unfold WordArrays.clearBit topWord
  rw [Nat.div_eq_of_lt hi, if_pos rfl, Nat.mod_eq_of_lt hi]
  by_cases hw : w = 0
  · rw [hw, if_pos rfl, Function.update_self]
  · rw [if_neg hw, Function.update_of_ne hw, if_neg hw]

theorem topWord_set (v : BitVec 64) {i : ℕ} (hi : i < 64) :
    topWord (SetBits.set v i) = WordArrays.setBit (topWord v) i := by
  funext w
  unfold WordArrays.setBit topWord
  rw [Nat.div_eq_of_lt hi, if_pos rfl, Nat.mod_eq_of_lt hi]
  by_cases hw : w = 0
  · rw [hw, if_pos rfl, Function.update_self]
  · rw [if_neg hw, Function.update_of_ne hw, if_neg hw]

theorem freeWords_eq_zero_iff {w : ℕ} (hw : w < t.leafSize) :
    t.freeWords w = 0#64 ↔ t.leaf w = BitVec.allOnes 64 := by
  unfold FlowTrie.freeWords
  rw [if_pos hw]
  constructor
  · intro h
    rw [← BitVec.not_not (b := t.leaf w), h]
    decide
  · intro h
    rw [h]
    decide

theorem bit_freeWords (i : ℕ) :
    bit t.freeWords i = (decide (i / 64 < t.leafSize) && !Hwfq.testBit t.leaf i) := by
  unfold bit FlowTrie.freeWords Hwfq.testBit
  split_ifs with h
  · simp [h, Nat.mod_lt]
  · simp [h]

/-! ## The cascades -/

/-- After ids of one leaf word were taken, the cascade restores the summaries. -/
theorem updateFull_summaries {free : ℕ → BitVec 64} {w : ℕ} (hw : w < t.leafSize)
    (htop : w / 64 / 64 < 64) (h0 : Summarises (fun _ => True) t.level0 free)
    (h1 : Summarises (fun _ => True) t.level1 t.level0)
    (h2 : Summarises (· < 64) (topWord t.level2) t.level1)
    (hother : ∀ j, j ≠ w → t.freeWords j = free j) (hold : free w ≠ 0#64) :
    Summaries (updateFull t w (w / 64) (w / 64 / 64)) := by
  have hbit0 : bit t.level0 w = true := (h0 w trivial).mpr hold
  have hword0 : t.level0 (w / 64) ≠ 0#64 := word_ne_zero_of_bit (by decide) hbit0
  have hbit1 : bit t.level1 (w / 64) = true := (h1 _ trivial).mpr hword0
  have hword1 : t.level1 (w / 64 / 64) ≠ 0#64 := word_ne_zero_of_bit (by decide) hbit1
  have hother0 : ∀ j, j ≠ w / 64 → Hwfq.clearBit t.level0 w j = t.level0 j :=
    fun j hj => clearBit_of_ne t.level0 hj
  have hother1 : ∀ j, j ≠ w / 64 / 64 → Hwfq.clearBit t.level1 (w / 64) j = t.level1 j :=
    fun j hj => clearBit_of_ne t.level1 hj
  unfold updateFull
  by_cases hfull : t.leaf w = BitVec.allOnes 64
  · rw [if_pos hfull]
    have hzero : t.freeWords w = 0#64 := (freeWords_eq_zero_iff hw).mpr hfull
    have hs0 := h0.empties hother (by decide) hzero
    dsimp only
    by_cases hzero0 : Hwfq.clearBit t.level0 w (w / 64) = 0#64
    · rw [if_pos hzero0]
      have hs1 := h1.empties hother0 (by decide) hzero0
      by_cases hzero1 : Hwfq.clearBit t.level1 (w / 64) (w / 64 / 64) = 0#64
      · rw [if_pos hzero1]
        refine ⟨hs0, hs1, ?_⟩
        dsimp only
        rw [topWord_clear _ htop]
        exact h2.empties hother1 (by decide) hzero1
      · rw [if_neg hzero1]
        exact ⟨hs0, hs1, h2.stays hother1 hword1 hzero1⟩
    · rw [if_neg hzero0]
      exact ⟨hs0, h1.stays hother0 hword0 hzero0, h2⟩
  · rw [if_neg hfull]
    have hnew : t.freeWords w ≠ 0#64 := fun h => hfull ((freeWords_eq_zero_iff hw).mp h)
    exact ⟨h0.stays hother hold hnew, h1, h2⟩

/-- Everything below the summary levels is the same. -/
structure SameLeaves (t t' : FlowTrie) : Prop where
  leaf : t'.leaf = t.leaf
  leafSize : t'.leafSize = t.leafSize
  level0Size : t'.level0Size = t.level0Size
  level1Size : t'.level1Size = t.level1Size
  maxFlows : t'.maxFlows = t.maxFlows
  allocatedCount : t'.allocatedCount = t.allocatedCount

theorem updateFull_leaves (t : FlowTrie) (w i j : ℕ) : SameLeaves t (updateFull t w i j) := by
  unfold updateFull
  dsimp only
  split_ifs
  · constructor <;> rfl
  · constructor <;> rfl
  · constructor <;> rfl
  · constructor <;> rfl

/-! ## The search -/

theorem findFirstSetBit64_of_ne {v : BitVec 64} (hv : v ≠ 0#64) :
    findFirstSetBit64 v = ctz v + 1 := if_neg hv

theorem Summaries.isLeast_level1 (h : Summaries t) (hne : t.level2 ≠ 0#64) :
    IsLeast {w | t.level1 w ≠ 0#64} (ctz t.level2) := by
  have hlt := ctz_lt hne
  have hleast := isLeast_ctz hne
  constructor
  · apply (h.level2 _ hlt).mp
    rw [bit_topWord _ hlt]
    exact hleast.1
  · intro w hw
    by_cases hw64 : w < 64
    · have hbit := (h.level2 w hw64).mpr hw
      rw [bit_topWord _ hw64] at hbit
      exact hleast.2 hbit
    · omega

/-- The trie after `flowId` was taken, before the upper levels are updated. -/
def takeId (t : FlowTrie) (flowId : ℕ) : FlowTrie :=
  { t with leaf := Hwfq.setBit t.leaf flowId, allocatedCount := u32 (t.allocatedCount + 1) }

/-- The search ends at the least free id, wherever that is. -/
theorem Summaries.alloc_eq (h : Summaries t) (hne : t.level2 ≠ 0#64) :
    ∃ id, IsLeast {j | bit t.freeWords j = true} id ∧ id / 64 / 64 / 64 < 64 ∧
      hwfqFlowTrieAlloc t =
        if id ≥ t.maxFlows then (.error .noMemory, t)
        else (.ok id, updateFull (takeId t id) (id / 64) (id / 64 / 64) (id / 64 / 64 / 64)) := by
  have hword1 := h.isLeast_level1 hne
  have hbit1 := isLeast_bit (by decide) hword1
  have hword0 := h.level1.isLeast_word hbit1
  have hbit0 := isLeast_bit (by decide) hword0
  have hleaf := h.level0.isLeast_word hbit0
  have hfree := isLeast_bit (by decide) hleaf
  have hlt2 := ctz_lt hne
  have hlt1 := ctz_lt hword1.1
  have hlt0 := ctz_lt hword0.1
  have hltl := ctz_lt hleaf.1
  unfold hwfqFlowTrieAlloc
  rw [if_neg hne, findFirstSetBit64_of_ne hne]
  dsimp only
  rw [if_neg (Nat.succ_ne_zero _), Nat.add_sub_cancel, findFirstSetBit64_of_ne hword1.1,
    if_neg (Nat.succ_ne_zero _), Nat.add_sub_cancel, findFirstSetBit64_of_ne hword0.1,
    if_neg (Nat.succ_ne_zero _), Nat.add_sub_cancel]
  generalize ctz t.level2 = l1 at *
  generalize hl0 : l1 * 64 + ctz (t.level1 l1) = l0 at *
  generalize hlw : l0 * 64 + ctz (t.level0 l0) = lw at *
  have hinside : lw < t.leafSize := by
    by_contra hge
    exact hleaf.1 (if_neg hge)
  have hwords : t.freeWords lw = ~~~t.leaf lw := if_pos hinside
  have hzero : ~~~t.leaf lw ≠ 0#64 := hwords ▸ hleaf.1
  rw [hwords] at hfree hltl
  rw [findFirstZeroBit64, findFirstSetBit64_of_ne hzero, if_neg (Nat.succ_ne_zero _),
    Nat.add_sub_cancel]
  generalize hid : lw * 64 + ctz (~~~t.leaf lw) = id at *
  have hdiv : id / 64 = lw := by omega
  have hdiv0 : lw / 64 = l0 := by omega
  have hdiv1 : l0 / 64 = l1 := by omega
  refine ⟨id, hfree, ?_, ?_⟩
  · rw [hdiv, hdiv0, hdiv1]
    exact hlt2
  · rw [hdiv, hdiv0, hdiv1]
    rfl

/-! ## The invariant -/

/-- The ids in use. -/
def FlowTrie.allocated (t : FlowTrie) : Finset ℕ :=
  (Finset.range t.maxFlows).filter fun i => hwfqFlowTrieIsAllocated t i = true

structure TrieInv (maxFlows : ℕ) (t : FlowTrie) : Prop where
  summaries : Summaries t
  flows : t.maxFlows = maxFlows
  leafSize : t.leafSize = (maxFlows + 63) / 64
  level0Size : t.level0Size = (t.leafSize + 63) / 64
  level1Size : t.level1Size = (t.level0Size + 63) / 64
  past : ∀ i, maxFlows ≤ i → bit t.freeWords i = false
  -- the top word has no bit for an id past its 64 words
  unreached : ∀ i, 64 ≤ i / 64 / 64 / 64 → i < maxFlows → Hwfq.testBit t.leaf i = false
  count : t.allocatedCount = t.allocated.card

theorem mem_allocated {i : ℕ} :
    i ∈ t.allocated ↔ i < t.maxFlows ∧ Hwfq.testBit t.leaf i = true := by
  unfold FlowTrie.allocated hwfqFlowTrieIsAllocated
  rw [Finset.mem_filter, Finset.mem_range]
  constructor
  · intro h
    rw [if_neg (Nat.not_le.mpr h.1)] at h
    exact h
  · intro h
    rw [if_neg (Nat.not_le.mpr h.1)]
    exact h

theorem isAllocated_iff {i : ℕ} : hwfqFlowTrieIsAllocated t i = true ↔ i ∈ t.allocated := by
  rw [mem_allocated]
  unfold hwfqFlowTrieIsAllocated
  split_ifs with h
  · simp only [false_iff, not_and]
    omega
  · rw [and_iff_right (Nat.lt_of_not_le h)]

section Inv
variable {maxFlows : ℕ} (h : TrieInv maxFlows t)
include h

theorem TrieInv.bit_free {i : ℕ} (hi : i < maxFlows) :
    bit t.freeWords i = !Hwfq.testBit t.leaf i := by
  have hinside : i / 64 < t.leafSize := by
    rw [h.leafSize]
    omega
  rw [bit_freeWords, decide_eq_true hinside, Bool.true_and]

theorem TrieInv.free_iff {i : ℕ} : bit t.freeWords i = true ↔ i < maxFlows ∧ i ∉ t.allocated := by
  by_cases hi : i < maxFlows
  · rw [h.bit_free hi, mem_allocated, h.flows]
    simp [hi]
  · rw [h.past i (Nat.le_of_not_lt hi)]
    simp [hi]

theorem TrieInv.count_lt (hmax : maxFlows ≤ 2 ^ 26) : t.allocatedCount ≤ 2 ^ 26 := by
  rw [h.count]
  have hcard : t.allocated.card ≤ (Finset.range t.maxFlows).card := Finset.card_filter_le _ _
  rw [Finset.card_range, h.flows] at hcard
  exact hcard.trans hmax

/-- Taking a free id that the search can reach. -/
theorem TrieInv.take (hmax : maxFlows ≤ 2 ^ 26) {id : ℕ} (hid : bit t.freeWords id = true)
    (htop : id / 64 / 64 / 64 < 64) :
    TrieInv maxFlows (updateFull (takeId t id) (id / 64) (id / 64 / 64) (id / 64 / 64 / 64)) ∧
      (updateFull (takeId t id) (id / 64) (id / 64 / 64) (id / 64 / 64 / 64)).allocated =
        insert id t.allocated := by
  obtain ⟨hlt, hnew⟩ := h.free_iff.mp hid
  have hinside : id / 64 < t.leafSize := by
    rw [h.leafSize]
    omega
  have hsame := updateFull_leaves (takeId t id) (id / 64) (id / 64 / 64) (id / 64 / 64 / 64)
  have htest : ∀ j, Hwfq.testBit (takeId t id).leaf j = (Hwfq.testBit t.leaf j || decide (j = id)) :=
    fun j => bit_setBit (by decide) t.leaf id j
  have hother : ∀ j, j ≠ id / 64 → (takeId t id).freeWords j = t.freeWords j := by
    intro j hj
    have hleaf : (takeId t id).leaf j = t.leaf j := setBit_of_ne t.leaf hj
    have hsize : (takeId t id).leafSize = t.leafSize := rfl
    unfold FlowTrie.freeWords
    rw [hleaf, hsize]
  have hsums : Summaries (updateFull (takeId t id) (id / 64) (id / 64 / 64) (id / 64 / 64 / 64)) :=
    updateFull_summaries hinside htop h.summaries.level0 h.summaries.level1 h.summaries.level2
      hother (word_ne_zero_of_bit (by decide) hid)
  have hcount := h.count_lt hmax
  generalize updateFull (takeId t id) (id / 64) (id / 64 / 64) (id / 64 / 64 / 64) = t' at hsame hsums ⊢
  have htest' : ∀ j, Hwfq.testBit t'.leaf j = (Hwfq.testBit t.leaf j || decide (j = id)) := by
    intro j
    rw [hsame.leaf, htest]
  have hmaxFlows : t'.maxFlows = maxFlows := hsame.maxFlows.trans h.flows
  have hset : t'.allocated = insert id t.allocated := by
    ext j
    rw [Finset.mem_insert, mem_allocated, mem_allocated, htest', hmaxFlows, h.flows]
    by_cases hj : j = id
    · subst hj
      simp [hlt]
    · simp [hj]
  refine ⟨?_, hset⟩
  exact
    { summaries := hsums
      flows := hmaxFlows
      leafSize := hsame.leafSize.trans h.leafSize
      level0Size := by
        rw [hsame.level0Size, hsame.leafSize]
        exact h.level0Size
      level1Size := by
        rw [hsame.level1Size, hsame.level0Size]
        exact h.level1Size
      past := by
        intro i hi
        have hold := h.past i hi
        rw [bit_freeWords] at hold ⊢
        rw [hsame.leafSize, htest']
        have hsize : (takeId t id).leafSize = t.leafSize := rfl
        rw [hsize]
        cases htest : Hwfq.testBit t.leaf i <;> simp_all
      unreached := by
        intro i hi hlt
        have hne : i ≠ id := by
          intro heq
          subst heq
          omega
        rw [htest', h.unreached i hi hlt]
        simp [hne]
      count := by
        have hcounted : (takeId t id).allocatedCount = u32 (t.allocatedCount + 1) := rfl
        rw [hset, Finset.card_insert_of_notMem hnew, ← h.count, hsame.allocatedCount, hcounted]
        unfold u32
        omega }

/-- What a request does: it hands out the least free id, or the trie stays as it is. -/
theorem TrieInv.alloc (hmax : maxFlows ≤ 2 ^ 26) :
    (hwfqFlowTrieAlloc t = (.error .noMemory, t)) ∨
      ∃ id t', hwfqFlowTrieAlloc t = (.ok id, t') ∧
        IsLeast {i | i < maxFlows ∧ i ∉ t.allocated} id ∧ TrieInv maxFlows t' ∧
        t'.allocated = insert id t.allocated := by
  by_cases hne : t.level2 = 0#64
  · exact .inl (if_pos hne)
  obtain ⟨id, hleast, htop, heq⟩ := h.summaries.alloc_eq hne
  have hset : {j | bit t.freeWords j = true} = {i | i < maxFlows ∧ i ∉ t.allocated} := by
    ext j
    exact h.free_iff
  have hlt : id < maxFlows := (h.free_iff.mp hleast.1).1
  have hroom : ¬id ≥ t.maxFlows := by
    rw [h.flows]
    omega
  obtain ⟨hinv, halloc⟩ := h.take hmax hleast.1 htop
  rw [heq, if_neg hroom]
  exact .inr ⟨id, _, rfl, hset ▸ hleast, hinv, halloc⟩

end Inv

/-- Anything but an id in use, or id 0, is not given back. -/
theorem free_unused {id : ℕ} (hid : id = 0 ∨ id ∉ t.allocated) :
    hwfqFlowTrieFree t id = t := by
  unfold hwfqFlowTrieFree
  by_cases hrange : id = 0 ∨ id ≥ t.maxFlows
  · rw [if_pos hrange]
  rw [if_neg hrange]
  apply if_pos
  intro htest
  rw [not_or] at hrange
  exact hid.resolve_left hrange.1 (mem_allocated.mpr ⟨Nat.lt_of_not_le hrange.2, htest⟩)

/-- The trie after `flowId` was given back, before the upper levels are updated. -/
def giveId (t : FlowTrie) (flowId : ℕ) : FlowTrie :=
  { t with leaf := Hwfq.clearBit t.leaf flowId, allocatedCount := subU32 t.allocatedCount 1 }

/-- Giving an id back restores the summaries. -/
theorem Summaries.free (h : Summaries t) {id : ℕ} (hinside : id / 64 < t.leafSize)
    (htop : id / 64 / 64 / 64 < 64) (hpos : ¬(id = 0 ∨ id ≥ t.maxFlows))
    (hbit : Hwfq.testBit t.leaf id = true) :
    Summaries (hwfqFlowTrieFree t id) ∧ SameLeaves (giveId t id) (hwfqFlowTrieFree t id) := by
  have hother : ∀ j, j ≠ id / 64 → (giveId t id).freeWords j = t.freeWords j := by
    intro j hj
    have hleaf : (giveId t id).leaf j = t.leaf j := clearBit_of_ne t.leaf hj
    have hsize : (giveId t id).leafSize = t.leafSize := rfl
    unfold FlowTrie.freeWords
    rw [hleaf, hsize]
  have hfree : bit (giveId t id).freeWords id = true := by
    have hclear : Hwfq.testBit (giveId t id).leaf id = (Hwfq.testBit t.leaf id && !decide (id = id)) :=
      bit_clearBit (by decide) t.leaf id id
    have hsize : (giveId t id).leafSize = t.leafSize := rfl
    rw [bit_freeWords, hclear, hsize]
    simp [hinside]
  have hnew : (giveId t id).freeWords (id / 64) ≠ 0#64 := word_ne_zero_of_bit (by decide) hfree
  unfold hwfqFlowTrieFree
  rw [if_neg hpos, if_neg (not_not.mpr hbit)]
  dsimp only
  by_cases hfull : t.leaf (id / 64) = BitVec.allOnes 64
  · rw [if_pos hfull]
    have hold : t.freeWords (id / 64) = 0#64 := (freeWords_eq_zero_iff hinside).mpr hfull
    have hclear0 : (t.level0 (id / 64 / 64)).getLsbD (id / 64 % 64) = false := by
      have hnot : ¬bit t.level0 (id / 64) = true := fun hb => (h.level0 _ trivial).mp hb hold
      exact Bool.not_eq_true _ ▸ hnot
    have hs0 := h.level0.fills hother (by decide) hnew
    have hword0 : Hwfq.setBit t.level0 (id / 64) (id / 64 / 64) =
        SetBits.set (t.level0 (id / 64 / 64)) (id / 64 % 64) := Function.update_self _ _ _
    have hother0 : ∀ j, j ≠ id / 64 / 64 → Hwfq.setBit t.level0 (id / 64) j = t.level0 j :=
      fun j hj => setBit_of_ne t.level0 hj
    have hne0 : Hwfq.setBit t.level0 (id / 64) (id / 64 / 64) ≠ 0#64 := by
      apply word_ne_zero_of_bit (by decide)
      exact (hs0 _ trivial).mpr hnew
    by_cases hsingle0 : Hwfq.setBit t.level0 (id / 64) (id / 64 / 64) = 1#64 <<< (id / 64 % 64)
    · rw [if_pos hsingle0]
      rw [hword0] at hsingle0
      have hzero0 := (set_eq_single_iff hclear0).mp hsingle0
      have hclear1 : (t.level1 (id / 64 / 64 / 64)).getLsbD (id / 64 / 64 % 64) = false := by
        have hnot : ¬bit t.level1 (id / 64 / 64) = true :=
          fun hb => (h.level1 _ trivial).mp hb hzero0
        exact Bool.not_eq_true _ ▸ hnot
      have hs1 := h.level1.fills hother0 (by decide) hne0
      have hword1 : Hwfq.setBit t.level1 (id / 64 / 64) (id / 64 / 64 / 64) =
          SetBits.set (t.level1 (id / 64 / 64 / 64)) (id / 64 / 64 % 64) := Function.update_self _ _ _
      have hother1 : ∀ j, j ≠ id / 64 / 64 / 64 →
          Hwfq.setBit t.level1 (id / 64 / 64) j = t.level1 j := fun j hj => setBit_of_ne t.level1 hj
      have hne1 : Hwfq.setBit t.level1 (id / 64 / 64) (id / 64 / 64 / 64) ≠ 0#64 := by
        apply word_ne_zero_of_bit (by decide)
        exact (hs1 _ trivial).mpr hne0
      by_cases hsingle1 : Hwfq.setBit t.level1 (id / 64 / 64) (id / 64 / 64 / 64) =
          1#64 <<< (id / 64 / 64 % 64)
      · rw [if_pos hsingle1]
        refine ⟨⟨hs0, hs1, ?_⟩, by constructor <;> rfl⟩
        dsimp only
        rw [topWord_set _ htop]
        exact h.level2.fills hother1 (by decide) hne1
      · rw [if_neg hsingle1]
        have hold1 : t.level1 (id / 64 / 64 / 64) ≠ 0#64 := by
          intro hzero1
          rw [hword1] at hsingle1
          exact hsingle1 ((set_eq_single_iff hclear1).mpr hzero1)
        exact ⟨⟨hs0, hs1, h.level2.stays hother1 hold1 hne1⟩, by constructor <;> rfl⟩
    · rw [if_neg hsingle0]
      have hold0 : t.level0 (id / 64 / 64) ≠ 0#64 := by
        intro hzero0
        rw [hword0] at hsingle0
        exact hsingle0 ((set_eq_single_iff hclear0).mpr hzero0)
      exact ⟨⟨hs0, h.level1.stays hother0 hold0 hne0, h.level2⟩, by constructor <;> rfl⟩
  · rw [if_neg hfull]
    have hold : t.freeWords (id / 64) ≠ 0#64 :=
      fun hz => hfull ((freeWords_eq_zero_iff hinside).mp hz)
    exact ⟨⟨h.level0.stays hother hold hnew, h.level1, h.level2⟩, by constructor <;> rfl⟩

/-- Giving back an id in use, other than id 0. -/
theorem TrieInv.free {maxFlows : ℕ} (h : TrieInv maxFlows t) {id : ℕ}
    (hid : id ∈ t.allocated) (hpos : id ≠ 0) :
    TrieInv maxFlows (hwfqFlowTrieFree t id) ∧
      (hwfqFlowTrieFree t id).allocated = t.allocated.erase id := by
  obtain ⟨hlt, hbit⟩ := mem_allocated.mp hid
  rw [h.flows] at hlt
  have hinside : id / 64 < t.leafSize := by
    rw [h.leafSize]
    omega
  have htop : id / 64 / 64 / 64 < 64 := by
    by_contra hge
    rw [h.unreached id (Nat.le_of_not_lt hge) hlt] at hbit
    cases hbit
  have hrange : ¬(id = 0 ∨ id ≥ t.maxFlows) := by
    rw [h.flows]
    omega
  obtain ⟨hsums, hsame⟩ := h.summaries.free hinside htop hrange hbit
  have hcount := h.count
  have hcard : 0 < t.allocated.card := Finset.card_pos.mpr ⟨id, hid⟩
  generalize hwfqFlowTrieFree t id = t' at hsums hsame ⊢
  have htest : ∀ j, Hwfq.testBit t'.leaf j = (Hwfq.testBit t.leaf j && !decide (j = id)) := by
    intro j
    rw [hsame.leaf]
    exact bit_clearBit (by decide) t.leaf id j
  have hflows : t'.maxFlows = maxFlows := hsame.maxFlows.trans h.flows
  have hsize : t'.leafSize = t.leafSize := hsame.leafSize
  have hset : t'.allocated = t.allocated.erase id := by
    ext j
    rw [Finset.mem_erase, mem_allocated, mem_allocated, htest, hflows, h.flows]
    by_cases hj : j = id
    · simp [hj]
    · simp [hj]
  refine ⟨?_, hset⟩
  exact
    { summaries := hsums
      flows := hflows
      leafSize := hsize.trans h.leafSize
      level0Size := by
        rw [hsize]
        exact hsame.level0Size.trans h.level0Size
      level1Size := by
        rw [hsame.level1Size, hsame.level0Size]
        exact h.level1Size
      past := by
        intro i hi
        have hold := h.past i hi
        have hne : i ≠ id := by omega
        rw [bit_freeWords] at hold ⊢
        rw [hsize, htest]
        simpa [hne] using hold
      unreached := by
        intro i hi hlt
        rw [htest, h.unreached i hi hlt, Bool.false_and]
      count := by
        have hcounted : (giveId t id).allocatedCount = subU32 t.allocatedCount 1 := rfl
        rw [hset, Finset.card_erase_of_mem hid, hsame.allocatedCount, hcounted, hcount]
        unfold subU32
        exact if_pos hcard }

/-! ## A new trie -/

theorem getLsbD_lowMask {used i : ℕ} (hused : used < 64) :
    (lowMask used).getLsbD i = decide (i < used) := by
  have hpow : 2 ^ used < 2 ^ 64 := Nat.pow_lt_pow_right (by decide) hused
  have hnat : (lowMask used).toNat = 2 ^ used - 1 := by
    have hone : 1 ≤ 2 ^ used := Nat.one_le_two_pow
    have hshift : (1#64 <<< used).toNat = 2 ^ used := by
      rw [BitVec.toNat_shiftLeft, BitVec.toNat_ofNat, Nat.shiftLeft_eq]
      omega
    unfold lowMask
    rw [BitVec.toNat_sub, hshift, BitVec.toNat_ofNat]
    omega
  rw [BitVec.getLsbD, hnat, Nat.testBit_two_pow_sub_one]

/-- `⌈items / 64⌉` full words with the last one masked hold the first `items` bits. -/
theorem setBelow_maskLast {size items : ℕ} (hsize : size = (items + 63) / 64) :
    SetBelow (maskLast (filled size (BitVec.allOnes 64)) size items) items := by
  intro i
  unfold bit maskLast
  have hmod := Nat.mod_lt i (by decide : 0 < 64)
  by_cases hlast : items % 64 ≠ 0
  · rw [if_pos hlast]
    by_cases hw : i / 64 = size - 1
    · rw [hw, Function.update_self, BitVec.getLsbD_and, getLsbD_lowMask (Nat.mod_lt _ (by decide))]
      have hin : size - 1 < size := by omega
      simp only [filled, hin, if_true, BitVec.getLsbD_allOnes, hmod, decide_true, Bool.true_and,
        decide_eq_true_eq]
      omega
    · rw [Function.update_of_ne hw]
      unfold filled
      split_ifs with hin
      · simp only [BitVec.getLsbD_allOnes, hmod, decide_true, true_iff]
        omega
      · simp only [BitVec.getLsbD_zero, Bool.false_eq_true, false_iff]
        omega
  · rw [if_neg hlast]
    unfold filled
    split_ifs with hin
    · simp only [BitVec.getLsbD_allOnes, hmod, decide_true, true_iff]
      omega
    · simp only [BitVec.getLsbD_zero, Bool.false_eq_true, false_iff]
      omega

theorem bitsToWords_eq {numBits : ℕ} (h : numBits ≤ 2 ^ 26) : bitsToWords numBits = (numBits + 63) / 64 := by
  unfold bitsToWords u32
  omega

/-- The free ids of a blank leaf are the first `max_flows`. -/
theorem freeWords_blank (maxFlows : ℕ) :
    (blankTrie maxFlows).freeWords =
      maskLast (filled (bitsToWords maxFlows) (BitVec.allOnes 64)) (bitsToWords maxFlows) maxFlows := by
  funext w
  unfold FlowTrie.freeWords blankTrie maskLast
  dsimp only
  generalize bitsToWords maxFlows = size
  by_cases hlast : maxFlows % 64 ≠ 0
  · rw [if_pos hlast, if_pos hlast]
    by_cases hw : w = size - 1
    · rw [hw, Function.update_self, Function.update_self]
      unfold filled
      split_ifs with hin
      · rw [BitVec.zero_or, BitVec.not_not, BitVec.allOnes_and]
      · rw [BitVec.zero_and]
    · rw [Function.update_of_ne hw, Function.update_of_ne hw]
      unfold filled
      split_ifs with hin
      · decide
      · rfl
  · rw [if_neg hlast, if_neg hlast]
    unfold filled
    split_ifs with hin
    · decide
    · rfl

section New
variable {maxFlows : ℕ} (hmax : maxFlows ≤ 2 ^ 26)
include hmax

theorem blank_sizes : (blankTrie maxFlows).leafSize = (maxFlows + 63) / 64 ∧
    (blankTrie maxFlows).level0Size = ((blankTrie maxFlows).leafSize + 63) / 64 ∧
    (blankTrie maxFlows).level1Size = ((blankTrie maxFlows).level0Size + 63) / 64 := by
  have hleaf : (blankTrie maxFlows).leafSize = (maxFlows + 63) / 64 := bitsToWords_eq hmax
  have hlevel0 : (blankTrie maxFlows).level0Size = ((blankTrie maxFlows).leafSize + 63) / 64 :=
    @bitsToWords_eq (blankTrie maxFlows).leafSize (by omega)
  have hlevel1 : (blankTrie maxFlows).level1Size = ((blankTrie maxFlows).level0Size + 63) / 64 :=
    @bitsToWords_eq (blankTrie maxFlows).level0Size (by omega)
  exact ⟨hleaf, hlevel0, hlevel1⟩

theorem blank_summaries : Summaries (blankTrie maxFlows) := by
  obtain ⟨hleaf, hlevel0, hlevel1⟩ := blank_sizes hmax
  have hbelow : SetBelow (blankTrie maxFlows).freeWords maxFlows := by
    rw [freeWords_blank]
    exact setBelow_maskLast hleaf
  have hbelow0 : SetBelow (blankTrie maxFlows).level0 (blankTrie maxFlows).leafSize :=
    setBelow_maskLast hlevel0
  have hbelow1 : SetBelow (blankTrie maxFlows).level1 (blankTrie maxFlows).level0Size :=
    setBelow_maskLast hlevel1
  refine ⟨hbelow.summarises (by decide) (hleaf ▸ hbelow0),
    hbelow0.summarises (by decide) (hlevel0 ▸ hbelow1), ?_⟩
  intro i hi
  have hword : (blankTrie maxFlows).level1 i ≠ 0#64 ↔ i < (blankTrie maxFlows).level1Size := by
    rw [word_ne_zero_iff (by decide), hlevel1]
    constructor
    · intro hex
      obtain ⟨j, rfl, hj⟩ := hex
      have := (hbelow1 j).mp hj
      omega
    · intro hlt
      exact ⟨i * 64, by omega, (hbelow1 _).mpr (by omega)⟩
  have htop : (blankTrie maxFlows).level2 =
      if (blankTrie maxFlows).level1Size < 64
      then BitVec.allOnes 64 &&& lowMask (blankTrie maxFlows).level1Size else BitVec.allOnes 64 := rfl
  rw [bit_topWord _ hi, hword, htop]
  split_ifs with hsize
  · rw [BitVec.allOnes_and, getLsbD_lowMask hsize, decide_eq_true_iff]
  · simp only [BitVec.getLsbD_allOnes, hi, decide_true, true_iff]
    omega

theorem blank_inv : TrieInv maxFlows (blankTrie maxFlows) ∧ (blankTrie maxFlows).allocated = ∅ := by
  obtain ⟨hleaf, hlevel0, hlevel1⟩ := blank_sizes hmax
  have hfree : SetBelow (blankTrie maxFlows).freeWords maxFlows := by
    rw [freeWords_blank]
    exact setBelow_maskLast hleaf
  have hunused : ∀ i < maxFlows, Hwfq.testBit (blankTrie maxFlows).leaf i = false := by
    intro i hi
    have hbit := (hfree i).mpr hi
    rw [bit_freeWords] at hbit
    simp only [Bool.and_eq_true, Bool.not_eq_true'] at hbit
    exact hbit.2
  have hempty : (blankTrie maxFlows).allocated = ∅ := by
    apply Finset.eq_empty_of_forall_notMem
    intro i hi
    obtain ⟨hlt, hbit⟩ := mem_allocated.mp hi
    rw [hunused i hlt] at hbit
    cases hbit
  refine ⟨?_, hempty⟩
  exact
    { summaries := blank_summaries hmax
      flows := rfl
      leafSize := hleaf
      level0Size := hlevel0
      level1Size := hlevel1
      past := by
        intro i hi
        have hnot : ¬bit (blankTrie maxFlows).freeWords i = true := by
          rw [hfree i]
          omega
        exact Bool.not_eq_true _ ▸ hnot
      unreached := fun i _ hi => hunused i hi
      count := by
        rw [hempty]
        rfl }

end New

theorem init_ok {mem mem' : Allocator} {maxFlows : ℕ}
    (h : hwfqFlowTrieInit mem maxFlows = (.ok t, mem')) : t = reserveZero (blankTrie maxFlows) := by
  unfold hwfqFlowTrieInit at h
  dsimp only at h
  split_ifs at h
  · cases h
  · split at h
    · cases h
    split at h
    · cases h
    split at h
    · cases h
    · cases h
      rfl

/-- Reserving id 0 is taking it. -/
theorem reserveZero_blank (maxFlows : ℕ) : reserveZero (blankTrie maxFlows) =
    updateFull (takeId (blankTrie maxFlows) 0) (0 / 64) (0 / 64 / 64) (0 / 64 / 64 / 64) := by
  have hcount : u32 ((blankTrie maxFlows).allocatedCount + 1) = 1 := by
    unfold blankTrie u32
    rfl
  unfold reserveZero takeId
  rw [hcount]
  rfl

theorem TrieInv.init {mem mem' : Allocator} {maxFlows : ℕ} (hpos : 1 ≤ maxFlows)
    (hmax : maxFlows ≤ 2 ^ 26) (h : hwfqFlowTrieInit mem maxFlows = (.ok t, mem')) :
    TrieInv maxFlows t ∧ 0 ∈ t.allocated := by
  obtain ⟨hblank, hempty⟩ := blank_inv hmax
  have hfree : bit (blankTrie maxFlows).freeWords 0 = true := by
    rw [hblank.free_iff, hempty]
    exact ⟨hpos, Finset.notMem_empty 0⟩
  obtain ⟨hinv, hset⟩ := hblank.take hmax hfree (by decide)
  rw [← reserveZero_blank, ← init_ok h] at hinv hset
  exact ⟨hinv, hset ▸ Finset.mem_insert_self _ _⟩

/-! ## Every run -/

inductive TrieCall where
  | alloc
  | free (flowId : ℕ)

def FlowTrie.step (t : FlowTrie) : TrieCall → FlowTrie
  | .alloc => (hwfqFlowTrieAlloc t).2
  | .free id => hwfqFlowTrieFree t id

/-- The trie is a set of ids below `max_flows`, told by `hwfq_flow_trie_is_allocated`, and
its levels agree with the words below them. -/
structure TrieLaw (maxFlows : ℕ) (t : FlowTrie) : Prop where
  reserved : hwfqFlowTrieIsAllocated t 0 = true
  count : t.allocatedCount =
    ((Finset.range maxFlows).filter fun i => hwfqFlowTrieIsAllocated t i = true).card
  alloc : ∀ id t', hwfqFlowTrieAlloc t = (.ok id, t') →
    IsLeast {i | i < maxFlows ∧ hwfqFlowTrieIsAllocated t i = false} id ∧
      ∀ j, hwfqFlowTrieIsAllocated t' j = (hwfqFlowTrieIsAllocated t j || decide (j = id))
  refused : ∀ status t', hwfqFlowTrieAlloc t = (.error status, t') → status ≠ .internal ∧ t' = t
  freed : ∀ id, id ≠ 0 → hwfqFlowTrieIsAllocated t id = true →
    ∀ j, hwfqFlowTrieIsAllocated (hwfqFlowTrieFree t id) j =
      (hwfqFlowTrieIsAllocated t j && !decide (j = id))
  ignored : ∀ id, id = 0 ∨ hwfqFlowTrieIsAllocated t id = false → hwfqFlowTrieFree t id = t
  level0 : ∀ i < 64 * t.level0Size, Hwfq.testBit t.level0 i = true ↔
    i < t.leafSize ∧ t.leaf i ≠ BitVec.allOnes 64
  level1 : ∀ i < 64 * t.level1Size, Hwfq.testBit t.level1 i = true ↔
    i < t.level0Size ∧ t.level0 i ≠ 0#64
  level2 : ∀ i < 64, t.level2.getLsbD i = true ↔ i < t.level1Size ∧ t.level1 i ≠ 0#64

section Law
variable {maxFlows : ℕ} (h : TrieInv maxFlows t)
include h

theorem TrieInv.level0_iff (i : ℕ) :
    Hwfq.testBit t.level0 i = true ↔ i < t.leafSize ∧ t.leaf i ≠ BitVec.allOnes 64 := by
  have hsum : Hwfq.testBit t.level0 i = true ↔ t.freeWords i ≠ 0#64 := h.summaries.level0 i trivial
  rw [hsum]
  constructor
  · intro hne
    have hin : i < t.leafSize := by
      by_contra hge
      exact hne (if_neg hge)
    exact ⟨hin, fun hfull => hne ((freeWords_eq_zero_iff hin).mpr hfull)⟩
  · intro hne hzero
    exact hne.2 ((freeWords_eq_zero_iff hne.1).mp hzero)

theorem TrieInv.level1_iff (i : ℕ) :
    Hwfq.testBit t.level1 i = true ↔ i < t.level0Size ∧ t.level0 i ≠ 0#64 := by
  have hsum : Hwfq.testBit t.level1 i = true ↔ t.level0 i ≠ 0#64 := h.summaries.level1 i trivial
  rw [hsum]
  constructor
  · intro hne
    obtain ⟨j, rfl, hj⟩ := (word_ne_zero_iff (by decide) t.level0 i).mp hne
    have hlt := ((h.level0_iff j).mp hj).1
    have hsize := h.level0Size
    exact ⟨by omega, hne⟩
  · exact And.right

theorem TrieInv.level2_iff {i : ℕ} (hi : i < 64) :
    t.level2.getLsbD i = true ↔ i < t.level1Size ∧ t.level1 i ≠ 0#64 := by
  have hsum := h.summaries.level2 i hi
  rw [bit_topWord _ hi] at hsum
  rw [hsum]
  constructor
  · intro hne
    obtain ⟨j, rfl, hj⟩ := (word_ne_zero_iff (by decide) t.level1 i).mp hne
    have hlt := ((h.level1_iff j).mp hj).1
    have hsize := h.level1Size
    exact ⟨by omega, hne⟩
  · exact And.right

theorem TrieInv.law (hmax : maxFlows ≤ 2 ^ 26) (hzero : 0 ∈ t.allocated) : TrieLaw maxFlows t where
  reserved := isAllocated_iff.mpr hzero
  count := by
    rw [h.count, ← h.flows]
    rfl
  alloc := by
    intro id t' heq
    rcases h.alloc hmax with hnone | ⟨id', t'', hsome, hleast, -, hset⟩
    · rw [hnone] at heq
      cases heq
    · rw [hsome] at heq
      cases heq
      have hfree : {i | i < maxFlows ∧ hwfqFlowTrieIsAllocated t i = false} =
          {i | i < maxFlows ∧ i ∉ t.allocated} := by
        ext i
        simp only [Set.mem_ofPred_eq, ← isAllocated_iff, Bool.not_eq_true]
      refine ⟨hfree ▸ hleast, fun j => ?_⟩
      rw [Bool.eq_iff_iff, isAllocated_iff, hset, Finset.mem_insert, Bool.or_eq_true,
        isAllocated_iff, decide_eq_true_iff, or_comm]
  refused := by
    intro status t' heq
    rcases h.alloc hmax with hnone | ⟨id', t'', hsome, -⟩
    · rw [hnone] at heq
      cases heq
      exact ⟨by decide, rfl⟩
    · rw [hsome] at heq
      cases heq
  freed := by
    intro id hpos hid j
    obtain ⟨-, hset⟩ := h.free (isAllocated_iff.mp hid) hpos
    rw [Bool.eq_iff_iff, isAllocated_iff, hset, Finset.mem_erase, Bool.and_eq_true,
      isAllocated_iff, Bool.not_eq_true', decide_eq_false_iff_not, and_comm]
  ignored := by
    intro id hid
    apply free_unused
    rw [← isAllocated_iff, Bool.not_eq_true]
    exact hid
  level0 i _ := h.level0_iff i
  level1 i _ := h.level1_iff i
  level2 i hi := h.level2_iff hi

theorem TrieInv.step (hmax : maxFlows ≤ 2 ^ 26) (hzero : 0 ∈ t.allocated) (c : TrieCall) :
    TrieInv maxFlows (t.step c) ∧ 0 ∈ (t.step c).allocated := by
  cases c with
  | alloc =>
    unfold FlowTrie.step
    rcases h.alloc hmax with hnone | ⟨id, t', hsome, -, hinv, hset⟩
    · rw [hnone]
      exact ⟨h, hzero⟩
    · rw [hsome]
      exact ⟨hinv, hset ▸ Finset.mem_insert_of_mem hzero⟩
  | free id =>
    change TrieInv maxFlows (hwfqFlowTrieFree t id) ∧ 0 ∈ (hwfqFlowTrieFree t id).allocated
    by_cases hid : id = 0 ∨ id ∉ t.allocated
    · rw [free_unused hid]
      exact ⟨h, hzero⟩
    · rw [not_or, not_not] at hid
      obtain ⟨hinv, hset⟩ := h.free hid.2 hid.1
      exact ⟨hinv, hset ▸ Finset.mem_erase.mpr ⟨Ne.symm hid.1, hzero⟩⟩

end Law

/-- In every run a new trie stays a set of ids that hands out its least free one. -/
theorem flow_trie_is_id_set (maxFlows : ℕ) (hpos : 1 ≤ maxFlows) (hmax : maxFlows ≤ 2 ^ 26)
    (mem mem' : Allocator) (t : FlowTrie) (hinit : hwfqFlowTrieInit mem maxFlows = (.ok t, mem'))
    (calls : List TrieCall) : TrieLaw maxFlows (GuardedRuns.run FlowTrie.step t calls) := by
  have hinv := GuardedRuns.run_invariant_all
    (I := fun t : FlowTrie => TrieInv maxFlows t ∧ 0 ∈ t.allocated)
    (fun s c h => h.1.step hmax h.2 c) (TrieInv.init hpos hmax hinit) calls
  exact hinv.1.law hmax hinv.2

/-- One more id than a leaf word holds: the second word has a single valid bit. -/
theorem flow_trie_is_id_set_two_words :
    TrieLaw 65 (GuardedRuns.run FlowTrie.step (reserveZero (blankTrie 65))
      [.alloc, .alloc, .free 1, .free 70, .alloc]) := by
  have hinit : hwfqFlowTrieInit ⟨fun _ => true, 1⟩ 65 =
      (.ok (reserveZero (blankTrie 65)), ⟨fun _ => true, 4⟩) := by
    obtain ⟨hleaf, hlevel0, hlevel1⟩ := @blank_sizes 65 (by decide)
    simp [hwfqFlowTrieInit, hwfqAlloc, hleaf, hlevel0, hlevel1]
  exact flow_trie_is_id_set 65 (by decide) (by decide) _ _ _ hinit _

end Hwfq
