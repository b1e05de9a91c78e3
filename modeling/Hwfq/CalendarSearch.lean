import Hwfq.CalendarInvariant

/-!
# The bitfield-guided search is a search of the whole queue

Two nested folds over set bits visit the non-empty bins below 32768. The lists in
the bins are in order of finish time, so the first eligible session of a bin is
its best one. The rescan after a removal reads every start time in the visited bins.
-/
namespace Hwfq
open SetBits MinSearch Bins

variable {α : Type*} {gs : GroupScheduler α} {s : SessionState α}

/-- The bins that `find_eligible_min_bitfield` looks into, in its order. -/
def visitedBins (gs : GroupScheduler α) : List ℕ :=
  (List.range 32).flatMap fun gword =>
    (setBits (gs.groupBitfield gword)).flatMap fun groupBit => searchedBins gs (gword * 32 + groupBit)

/-- The bins that the rescan of `calendar_remove_session` reads. -/
def rescannedBins (gs : GroupScheduler α) : List ℕ :=
  (List.range 32).flatMap fun gword =>
    (setBits (gs.groupBitfield gword)).flatMap fun groupBit =>
      if gword * 32 + groupBit < gs.binBitfieldSize then
        (setBits (gs.binBitfield (gword * 32 + groupBit))).flatMap fun bitPos =>
          if (gword * 32 + groupBit) * 32 + bitPos < gs.numBins then
            [(gword * 32 + groupBit) * 32 + bitPos]
          else []
      else []

@[simp] theorem setBits_zero : setBits (0#32) = [] := by
  rw [List.eq_nil_iff_forall_not_mem]
  simp

theorem findEligibleMinBitfield_eq (gs : GroupScheduler α) (virtualTime : ℕ) :
    findEligibleMinBitfield gs virtualTime =
      (((visitedBins gs).map (eligibleInBin gs virtualTime)).foldl
        (keepBest SessionState.finishTime) (none, uint64Max)).1 := by
  rw [findEligibleMinBitfield, List.foldl_map, visitedBins, List.foldl_flatMap]
  congr 2
  funext best gword
  rw [List.foldl_flatMap]
  split_ifs with hzero
  · simp [hzero]
  · rfl

theorem rescanMinStartTime_eq (gs : GroupScheduler α) :
    rescanMinStartTime gs =
      ((rescannedBins gs).flatMap gs.binHeads).foldl (keepMin SessionState.startTime)
        uint64Max := by
  rw [rescanMinStartTime, List.foldl_flatMap, rescannedBins, List.foldl_flatMap]
  congr 1
  funext m gword
  rw [List.foldl_flatMap]
  split_ifs with hzero
  · simp [hzero]
  · congr 1
    funext m groupBit
    dsimp only
    split_ifs with hword
    · rw [List.foldl_flatMap]
      congr 1
      funext m bitPos
      split_ifs <;> rfl
    · rfl

/-- The bits of a word name bins below `num_bins` only, so the search never breaks off early. -/
theorem mem_searchedBins (h : CalendarInv gs) {w b : ℕ} :
    b ∈ searchedBins gs w ↔ b / 32 = w ∧ gs.binHeads b ≠ [] := by
  have hall : ∀ c ∈ (setBits (gs.binBitfield (w * 32 / 32))).map (w * 32 / 32 * 32 + ·),
      decide (c < if w * 32 + 32 > gs.numBins then gs.numBins else w * 32 + 32) = true := by
    intro c hc
    obtain ⟨i, hi, rfl⟩ := List.mem_map.mp hc
    obtain ⟨hi, hbit⟩ := mem_setBits.mp hi
    have hdiv : (w * 32 / 32 * 32 + i) / 32 = w := by omega
    have hmod : (w * 32 / 32 * 32 + i) % 32 = i := by omega
    have hw : w * 32 / 32 = w := by omega
    have hne := (h.binBits (w * 32 / 32 * 32 + i)).mp (by rw [hdiv, hmod, ← hw]; exact hbit)
    have hlt : w * 32 / 32 * 32 + i < gs.numBins := by
      by_contra hge
      exact hne (h.outside _ (Nat.le_of_not_lt hge))
    rw [decide_eq_true_eq]
    split_ifs <;> omega
  dsimp only [searchedBins]
  rw [List.takeWhile_eq_self_iff.mpr hall]
  have hw : w * 32 / 32 = w := by omega
  rw [hw]
  constructor
  · intro hb
    obtain ⟨i, hi, rfl⟩ := List.mem_map.mp hb
    obtain ⟨hi, hbit⟩ := mem_setBits.mp hi
    have hdiv : (w * 32 + i) / 32 = w := by omega
    have hmod : (w * 32 + i) % 32 = i := by omega
    exact ⟨hdiv, (h.binBits _).mp (by rw [hdiv, hmod]; exact hbit)⟩
  · rintro ⟨rfl, hne⟩
    refine List.mem_map.mpr ⟨b % 32, mem_setBits.mpr ⟨Nat.mod_lt _ (by decide), ?_⟩, by omega⟩
    exact (h.binBits b).mpr hne

theorem groupBit_of_bin (h : CalendarInv gs) {b : ℕ} (hb : b < 32768) (hne : gs.binHeads b ≠ []) :
    (gs.groupBitfield (b / 32 / 32)).getLsbD (b / 32 % 32) = true := by
  refine (h.groupBits (b / 32) (by omega)).mpr ((ne_zero_iff _).mpr ?_)
  exact ⟨b % 32, Nat.mod_lt _ (by decide), (h.binBits b).mpr hne⟩

theorem mem_visitedBins (h : CalendarInv gs) {b : ℕ} :
    b ∈ visitedBins gs ↔ b < 32768 ∧ gs.binHeads b ≠ [] := by
  simp only [visitedBins, List.mem_flatMap, List.mem_range, mem_setBits, mem_searchedBins h]
  constructor
  · rintro ⟨gword, hg, groupBit, ⟨hbit, -⟩, hb, hne⟩
    exact ⟨by omega, hne⟩
  · rintro ⟨hb, hne⟩
    exact ⟨b / 32 / 32, by omega, b / 32 % 32,
      ⟨Nat.mod_lt _ (by decide), groupBit_of_bin h hb hne⟩, by omega, hne⟩

theorem mem_rescannedBins (h : CalendarInv gs) {b : ℕ} :
    b ∈ rescannedBins gs ↔ b < 32768 ∧ gs.binHeads b ≠ [] := by
  simp only [rescannedBins, List.mem_flatMap, List.mem_range, mem_setBits]
  constructor
  · rintro ⟨gword, hg, groupBit, ⟨hbit, -⟩, hb⟩
    split_ifs at hb
    · obtain ⟨bitPos, hpos, hb⟩ := List.mem_flatMap.mp hb
      split_ifs at hb
      · obtain ⟨hpos, hset⟩ := mem_setBits.mp hpos
        rw [List.mem_singleton] at hb
        have hdiv : b / 32 = gword * 32 + groupBit := by omega
        have hmod : b % 32 = bitPos := by omega
        exact ⟨by omega, (h.binBits b).mp (by rw [hdiv, hmod]; exact hset)⟩
      · cases hb
    · cases hb
  · rintro ⟨hb, hne⟩
    have hlt : b < gs.numBins := by
      by_contra hge
      exact hne (h.outside _ (Nat.le_of_not_lt hge))
    have hwords := h.words
    have hword : b / 32 / 32 * 32 + b / 32 % 32 = b / 32 := by omega
    refine ⟨b / 32 / 32, by omega, b / 32 % 32,
      ⟨Nat.mod_lt _ (by decide), groupBit_of_bin h hb hne⟩, ?_⟩
    rw [hword, if_pos (by omega)]
    refine List.mem_flatMap.mpr ⟨b % 32, mem_setBits.mpr ⟨Nat.mod_lt _ (by decide), ?_⟩, ?_⟩
    · exact (h.binBits b).mpr hne
    · have hbin : b / 32 * 32 + b % 32 = b := by omega
      rw [hbin, if_pos hlt]
      exact List.mem_singleton.mpr rfl

/-! ## The search -/

theorem eligibleInBin_some (h : CalendarInv gs) {vt b : ℕ} (hs : eligibleInBin gs vt b = some s) :
    s ∈ gs.binHeads b ∧ s.startTime ≤ vt ∧
      ∀ q ∈ gs.binHeads b, q.startTime ≤ vt → s.finishTime ≤ q.finishTime := by
  have hp := List.find?_some hs
  refine ⟨List.mem_of_find?_eq_some hs, by simpa using hp, fun q hq hqvt => ?_⟩
  rcases find?_first (h.ordered b) hs q hq (by simpa using hqvt) with rfl | hle
  · exact le_rfl
  · rw [sessionLess_false] at hle
    omega

theorem eligibleInBin_none {vt b : ℕ} (hnone : eligibleInBin gs vt b = none) :
    ∀ q ∈ gs.binHeads b, vt < q.startTime := by
  intro q hq
  simpa using List.find?_eq_none.mp hnone q hq

theorem findEligible_best (gs : GroupScheduler α) (vt : ℕ) :
    ∃ key, Best SessionState.finishTime uint64Max ((visitedBins gs).map (eligibleInBin gs vt))
      (findEligibleMinBitfield gs vt, key) := by
  rw [findEligibleMinBitfield_eq]
  exact ⟨_, best_foldl _ _ _⟩

/-- What the search returns is queued, eligible and not saturated. -/
theorem findEligible_some (h : CalendarInv gs) {vt : ℕ}
    (hs : findEligibleMinBitfield gs vt = some s) :
    s ∈ gs.queued ∧ s.startTime ≤ vt ∧ s.finishTime < uint64Max := by
  obtain ⟨key, hbest⟩ := findEligible_best gs vt
  obtain ⟨hmem, -, hlt⟩ := hbest.some_mem s hs
  obtain ⟨b, hb, hbin⟩ := List.mem_map.mp hmem
  obtain ⟨hin, hvt, -⟩ := eligibleInBin_some h hbin
  have hown := h.ownBin b s hin
  exact ⟨h.mem_queued.mpr (hown ▸ hin), hvt, hlt⟩

/-- What the search returns is the first eligible session of its bin. -/
theorem findEligible_inBin (h : CalendarInv gs) {vt : ℕ}
    (hs : findEligibleMinBitfield gs vt = some s) : eligibleInBin gs vt s.binIndex = some s := by
  obtain ⟨key, hbest⟩ := findEligible_best gs vt
  obtain ⟨hmem, -, -⟩ := hbest.some_mem s hs
  obtain ⟨b, -, hbin⟩ := List.mem_map.mp hmem
  rw [h.ownBin b s (eligibleInBin_some h hbin).1]
  exact hbin

/-- A bound on the first eligible session of a bin that is visited bounds all of them. -/
theorem findEligible_least (h : CalendarInv gs) {vt key : ℕ} {found : Option (SessionState α)}
    (hbest : Best SessionState.finishTime uint64Max
      ((visitedBins gs).map (eligibleInBin gs vt)) (found, key))
    {q : SessionState α} (hq : q ∈ gs.queued) (hbin : q.binIndex < 32768) (hvt : q.startTime ≤ vt) :
    key ≤ q.finishTime := by
  have hin := h.mem_queued.mp hq
  have hvisit : q.binIndex ∈ visitedBins gs :=
    (mem_visitedBins h).mpr ⟨hbin, List.ne_nil_of_mem hin⟩
  cases he : eligibleInBin gs vt q.binIndex with
  | none =>
    have := eligibleInBin_none he q hin
    omega
  | some c =>
    have hc := hbest.least c (he ▸ List.mem_map_of_mem hvisit)
    exact hc.trans ((eligibleInBin_some h he).2.2 q hin hvt)

theorem CalendarInv.bin_lt (h : CalendarInv gs) (hn : gs.numBins ≤ 32768) {q : SessionState α}
    (hq : q ∈ gs.queued) : q.binIndex < 32768 :=
  (h.lt_numBins (h.mem_queued.mp hq)).trans_le hn

theorem findEligible_some_least (h : CalendarInv gs) (hn : gs.numBins ≤ 32768) {vt : ℕ}
    (hs : findEligibleMinBitfield gs vt = some s) :
    ∀ q ∈ gs.queued, q.startTime ≤ vt → s.finishTime ≤ q.finishTime := by
  obtain ⟨key, hbest⟩ := findEligible_best gs vt
  intro q hq hvt
  exact (hbest.some_mem s hs).2.1 ▸ findEligible_least h hbest hq (h.bin_lt hn hq) hvt

/-- The search finds a session exactly when some eligible one in a bin that is visited is
not saturated. -/
theorem findEligible_isSome_visited (h : CalendarInv gs) {vt : ℕ} :
    (findEligibleMinBitfield gs vt).isSome = true ↔
      ∃ q ∈ gs.queued, q.binIndex < 32768 ∧ q.startTime ≤ vt ∧ q.finishTime < uint64Max := by
  obtain ⟨key, hbest⟩ := findEligible_best gs vt
  cases hf : findEligibleMinBitfield gs vt with
  | none =>
    refine iff_of_false (by simp) ?_
    intro hex
    obtain ⟨q, hq, hbin, hvt, hlt⟩ := hex
    have hkey : key = uint64Max := hbest.none_bound hf
    have := findEligible_least h hbest hq hbin hvt
    omega
  | some s =>
    obtain ⟨hmem, -, -⟩ := hbest.some_mem s hf
    obtain ⟨b, hb, hfound⟩ := List.mem_map.mp hmem
    have hown := h.ownBin b s (eligibleInBin_some h hfound).1
    obtain ⟨hq, hvt, hlt⟩ := findEligible_some h hf
    exact iff_of_true rfl ⟨s, hq, hown ▸ ((mem_visitedBins h).mp hb).1, hvt, hlt⟩

/-- The search finds a session exactly when some eligible one is not saturated. -/
theorem findEligible_isSome_iff (h : CalendarInv gs) (hn : gs.numBins ≤ 32768) {vt : ℕ} :
    (findEligibleMinBitfield gs vt).isSome = true ↔
      ∃ q ∈ gs.queued, q.startTime ≤ vt ∧ q.finishTime < uint64Max := by
  rw [findEligible_isSome_visited h]
  constructor
  · intro hex
    obtain ⟨q, hq, -, hfits⟩ := hex
    exact ⟨q, hq, hfits⟩
  · intro hex
    obtain ⟨q, hq, hfits⟩ := hex
    exact ⟨q, hq, h.bin_lt hn hq, hfits⟩

theorem findEligible_none (h : CalendarInv gs) (hn : gs.numBins ≤ 32768) {vt : ℕ}
    (hnone : findEligibleMinBitfield gs vt = none) :
    ∀ q ∈ gs.queued, q.startTime ≤ vt → uint64Max ≤ q.finishTime := by
  intro q hq hvt
  by_contra hlt
  have hsome := (findEligible_isSome_iff h hn).mpr ⟨q, hq, hvt, Nat.lt_of_not_le hlt⟩
  rw [hnone] at hsome
  cases hsome

/-! ## The rescan -/

theorem mem_rescanned (h : CalendarInv gs) (hn : gs.numBins ≤ 32768) :
    s ∈ (rescannedBins gs).flatMap gs.binHeads ↔ s ∈ gs.queued := by
  rw [List.mem_flatMap, h.mem_queued]
  constructor
  · rintro ⟨b, -, hs⟩
    rwa [h.ownBin b s hs]
  · intro hs
    have := h.lt_numBins hs
    exact ⟨_, (mem_rescannedBins h).mpr ⟨by omega, List.ne_nil_of_mem hs⟩, hs⟩

/-- `m` is the least start time of a queue, and the empty value of the cache for
an empty queue. -/
structure IsMinStart (q : Multiset (SessionState α)) (m : ℕ) : Prop where
  le : ∀ s ∈ q, m ≤ s.startTime
  attained : m = uint64Max ∨ ∃ s ∈ q, s.startTime = m

theorem rescan_le (gs : GroupScheduler α) : rescanMinStartTime gs ≤ uint64Max := by
  rw [rescanMinStartTime_eq]
  exact (foldl_keepMin_le _ _ _).1

theorem rescan_isMinStart (h : CalendarInv gs) (hn : gs.numBins ≤ 32768) :
    IsMinStart gs.queued (rescanMinStartTime gs) := by
  rw [rescanMinStartTime_eq]
  obtain ⟨-, hall⟩ := foldl_keepMin_le SessionState.startTime uint64Max
    ((rescannedBins gs).flatMap gs.binHeads)
  refine ⟨fun s hs => hall s ((mem_rescanned h hn).mpr hs), ?_⟩
  rcases foldl_keepMin_mem SessionState.startTime uint64Max
    ((rescannedBins gs).flatMap gs.binHeads) with hbound | ⟨s, hs, hattained⟩
  · exact .inl hbound
  · exact .inr ⟨s, (mem_rescanned h hn).mp hs, hattained.symm⟩

/-- The removal of a session with the cached start time brings a rescan; any other
leaves the cache as it is. -/
theorem removed_minStartTime_cases (h : CalendarInv gs) (hn : gs.numBins ≤ 32768)
    (hs : s ∈ gs.queued) :
    (s.startTime = gs.minStartTime ∧ IsMinStart (removed gs s).queued (removed gs s).minStartTime ∧
      (removed gs s).minStartTime ≤ uint64Max) ∨
    (s.startTime ≠ gs.minStartTime ∧ (removed gs s).minStartTime = gs.minStartTime) := by
  rw [removed_minStartTime (h.lt_numBins (h.mem_queued.mp hs))]
  split_ifs with hleast
  · have hscan := rescan_isMinStart (h.unlink hs)
      ((congrArg Geometry.numBins unlinkSession_geometry).trans_le hn)
    have hqueue : (removed gs s).queued = (unlinkSession gs s).queued :=
      (Multiset.cons_inj_right s).mp ((removed_queued h hs).symm.trans (unlinkSession_queued h hs))
    rw [hqueue]
    exact .inl ⟨hleast, hscan, rescan_le _⟩
  · exact .inr ⟨hleast, rfl⟩

/-- The cache of the least start time stays exact when a session is removed. -/
theorem removed_isMinStart (h : CalendarInv gs) (hn : gs.numBins ≤ 32768) (hs : s ∈ gs.queued)
    (hmin : IsMinStart gs.queued gs.minStartTime) :
    IsMinStart (removed gs s).queued (removed gs s).minStartTime := by
  have hq := removed_queued h hs
  rcases removed_minStartTime_cases h hn hs with ⟨-, hscan, -⟩ | ⟨hne, hsame⟩
  · exact hscan
  · rw [hsame]
    constructor
    · intro t ht
      exact hmin.le t (hq ▸ Multiset.mem_cons_of_mem ht)
    · apply hmin.attained.imp_right
      rintro ⟨t, ht, hatt⟩
      rw [hq] at ht
      rcases Multiset.mem_cons.mp ht with rfl | ht
      · exact absurd hatt hne
      · exact ⟨t, ht, hatt⟩

/-- The cached least start time is the empty value or that of a queued session. -/
def CacheAttained (gs : GroupScheduler α) : Prop :=
  gs.minStartTime = uint64Max ∨ ∃ s ∈ gs.queued, s.startTime = gs.minStartTime

/-- A removal leaves the cache empty or attained. -/
theorem CacheAttained.removed (h : CalendarInv gs) (hn : gs.numBins ≤ 32768)
    (hs : s ∈ gs.queued) (hatt : CacheAttained gs) : CacheAttained (removed gs s) := by
  rcases removed_minStartTime_cases h hn hs with ⟨-, hscan, -⟩ | ⟨hne, hsame⟩
  · exact hscan.attained
  · unfold CacheAttained
    rw [hsame]
    apply hatt.imp_right
    rintro ⟨t, ht, heq⟩
    rw [removed_queued h hs] at ht
    rcases Multiset.mem_cons.mp ht with rfl | ht
    · exact absurd heq hne
    · exact ⟨t, ht, heq⟩

end Hwfq
