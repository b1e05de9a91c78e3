import Hwfq.SearchCoverage
import Hwfq.WorkConservation

/-!
# When a rebase is transparent

A rebase takes half of the virtual time off every time stamp and cuts the result
off at zero. Two finish times below the offset fall together, and a finish time
saturated at `UINT64_MAX` comes down to a value that the search can select. A
scheduler without either drains the same before and after; the two are related
step by step, the sessions of one being those of the other with the offset taken
off.
-/
namespace Hwfq
open GuardedRuns MinSearch Bins SetBits

variable {α : Type*} {gs gs' : GroupScheduler α} {mem : Allocator} {off : ℕ}

/-! ## The rebased image of a scheduler -/

/-- Nothing in the queue loses its place when `off` is taken off every stamp. -/
structure RebaseSafe (off : ℕ) (gs : GroupScheduler α) : Prop where
  apart : ∀ s ∈ gs.queued, ∀ t ∈ gs.queued, s.finishTime < t.finishTime → off < t.finishTime
  outOfReach : ∀ s ∈ gs.queued, s.finishTime = uint64Max →
    gs.minStartTime = uint64Max ∧ gs.virtualTime < s.startTime

/-- `gs'` is `gs` with `off` taken off its clock and its stamps. -/
structure Shifted (off : ℕ) (gs gs' : GroupScheduler α) : Prop where
  calendar : CalendarInv gs
  stamps : ∀ s ∈ gs.queued, s.startTime ≤ s.finishTime ∧ s.finishTime ≤ uint64Max
  bins : gs.numBins ≤ 32768
  attained : CacheAttained gs
  safe : RebaseSafe off gs
  heads : ∀ b, gs'.binHeads b = (gs.binHeads b).map (·.rebase off)
  binBits : gs'.binBitfield = gs.binBitfield
  groupBits : gs'.groupBitfield = gs.groupBitfield
  geometry : gs'.geometry = gs.geometry
  count : gs'.activeSessionCount = gs.activeSessionCount
  passed : off ≤ gs.virtualTime
  clock : gs'.virtualTime = gs.virtualTime - off
  cache : gs'.minStartTime = rebaseCached off gs.minStartTime

/-- The least start time of a queue is unique. -/
theorem IsMinStart.unique {q : Multiset (SessionState α)} {m n : ℕ} (hm : IsMinStart q m)
    (hn : IsMinStart q n) (hmax : m ≤ uint64Max) (hnax : n ≤ uint64Max) : m = n := by
  apply le_antisymm
  · rcases hn.attained with hempty | ⟨s, hs, hatt⟩
    · exact hempty ▸ hmax
    · exact hatt ▸ hm.le s hs
  · rcases hm.attained with hempty | ⟨s, hs, hatt⟩
    · exact hempty ▸ hnax
    · exact hatt ▸ hn.le s hs

theorem rebase_startTime_le_iff {t : ℕ} (ht : off ≤ t) (s : SessionState α) :
    (s.rebase off).startTime ≤ t - off ↔ s.startTime ≤ t := by
  simp only [SessionState.rebase, rebaseTime_eq_sub]
  omega

section Shifted
variable (h : Shifted off gs gs')
include h

theorem Shifted.heads_eq : gs'.binHeads = fun b => (gs.binHeads b).map (·.rebase off) :=
  funext h.heads

theorem Shifted.numBins : gs'.numBins = gs.numBins := congrArg Geometry.numBins h.geometry

theorem Shifted.queued : gs'.queued = gs.queued.map (·.rebase off) := by
  rw [GroupScheduler.queued, GroupScheduler.queued, h.numBins, h.heads_eq, contents_map]

theorem Shifted.calendar' : CalendarInv gs' := by
  have hreb := h.calendar.rebase off fun s hs => (h.stamps s hs).1
  apply hreb.congr
  · funext b
    rw [h.heads b, h.calendar.rebasedBy_binHeads off b]
  · exact h.binBits
  · exact h.groupBits
  · exact h.geometry

theorem Shifted.visitedBins_eq : visitedBins gs' = visitedBins gs := by
  have hn := h.numBins
  unfold visitedBins searchedBins
  rw [h.groupBits, h.binBits, hn]

theorem Shifted.eligibleInBin {t : ℕ} (ht : off ≤ t) (b : ℕ) :
    eligibleInBin gs' (t - off) b = (eligibleInBin gs t b).map (·.rebase off) := by
  unfold Hwfq.eligibleInBin
  rw [h.heads b, List.find?_map]
  congr 2
  funext s
  have hiff := rebase_startTime_le_iff ht s
  simp only [Function.comp_apply, gt_iff_lt, ← decide_not, not_lt, hiff]

/-- The search of the image finds the image of what the search finds. -/
theorem Shifted.findEligible {t : ℕ} (ht : off ≤ t)
    (hreach : ∀ s ∈ gs.queued, s.finishTime = uint64Max → t < s.startTime) :
    findEligibleMinBitfield gs' (t - off) =
      (findEligibleMinBitfield gs t).map (·.rebase off) := by
  have hcand : ∀ s, some s ∈ (visitedBins gs).map (Hwfq.eligibleInBin gs t) →
      s ∈ gs.queued ∧ s.startTime ≤ t := by
    intro s hs
    obtain ⟨b, -, hbin⟩ := List.mem_map.mp hs
    obtain ⟨hin, hstart, -⟩ := eligibleInBin_some h.calendar hbin
    exact ⟨h.calendar.bin_mem hin, hstart⟩
  have hmap : (visitedBins gs').map (Hwfq.eligibleInBin gs' (t - off)) =
      ((visitedBins gs).map (Hwfq.eligibleInBin gs t)).map (Option.map (·.rebase off)) := by
    rw [h.visitedBins_eq, List.map_map]
    apply List.map_congr_left
    intro b _
    exact h.eligibleInBin ht b
  rw [findEligibleMinBitfield_eq, findEligibleMinBitfield_eq, hmap]
  apply foldl_keepBest_map
  · intro s hs
    obtain ⟨hq, hstart⟩ := hcand s hs
    have hlt : s.finishTime < uint64Max := by
      apply lt_of_le_of_ne (h.stamps s hq).2
      intro hmax
      have hlate := hreach s hq hmax
      omega
    constructor
    · exact hlt
    · rw [rebase_finishTime]
      omega
  · intro a b ha hb
    have hab := h.safe.apart a (hcand a ha).1 b (hcand b hb).1
    rw [rebase_finishTime, rebase_finishTime]
    omega

theorem Shifted.minStartTime_le : gs.minStartTime ≤ uint64Max := by
  rcases h.attained with hempty | ⟨s, hs, hatt⟩
  · exact hempty.le
  · have hst := h.stamps s hs
    omega

/-- Both clocks make the same jump. -/
theorem Shifted.dequeueTime : dequeueTime gs' = dequeueTime gs - off ∧ off ≤ dequeueTime gs ∧
    ∀ s ∈ gs.queued, s.finishTime = uint64Max → dequeueTime gs < s.startTime := by
  have hpassed := h.passed
  have hle := h.minStartTime_le
  have hfind := h.findEligible hpassed fun s hs hmax => (h.safe.outOfReach s hs hmax).2
  refine ⟨?_, h.passed.trans (virtualTime_le_dequeueTime gs), ?_⟩
  · unfold Hwfq.dequeueTime
    rw [h.clock, hfind]
    cases findEligibleMinBitfield gs gs.virtualTime with
    | some s => rfl
    | none =>
      have hjump : (gs'.minStartTime ≠ uint64Max ∧ gs'.minStartTime > gs.virtualTime - off) ↔
          gs.minStartTime ≠ uint64Max ∧ gs.minStartTime > gs.virtualTime := by
        rw [h.cache, rebaseCached, rebaseTime_eq_sub]
        split_ifs <;> omega
      simp only [Option.map_none, hjump]
      split_ifs with hc
      · rw [h.cache, rebaseCached, if_pos hc.1, rebaseTime_eq_sub]
      · rfl
  · intro s hs hmax
    obtain ⟨hempty, hlate⟩ := h.safe.outOfReach s hs hmax
    rcases dequeueTime_cases gs with heq | ⟨-, hne, -⟩
    · rwa [heq]
    · exact absurd hempty hne

/-- Taking a session out of both. -/
theorem Shifted.binListRemove (s : SessionState α) (b : ℕ) :
    binListRemove gs' s.binIndex (s.rebase off) b =
      (binListRemove gs s.binIndex s b).map (·.rebase off) := by
  unfold Hwfq.binListRemove
  by_cases hb : b = s.binIndex
  · subst hb
    rw [Function.update_self, Function.update_self, h.heads, List.eraseP_map]
    rfl
  · rw [Function.update_of_ne hb, Function.update_of_ne hb, h.heads]

theorem Shifted.dequeued_queued' {s : SessionState α} (hs : s ∈ gs.queued) :
    (dequeued gs' (s.rebase off)).queued = (dequeued gs s).queued.map (·.rebase off) := by
  have hs' : s.rebase off ∈ gs'.queued := by
    rw [h.queued]
    exact Multiset.mem_map_of_mem _ hs
  have hq := dequeued_queued h.calendar hs
  have hq' := dequeued_queued h.calendar' hs'
  rw [h.queued, hq, Multiset.map_cons] at hq'
  exact ((Multiset.cons_inj_right _).mp hq').symm

/-- The cache follows a departure alike. A session cut off at zero can look like the
least one; then the least one is at zero as well. -/
theorem Shifted.dequeued_cache' {s : SessionState α} (hs : s ∈ gs.queued)
    (hlt : s.finishTime < uint64Max) :
    (dequeued gs' (s.rebase off)).minStartTime =
      rebaseCached off (dequeued gs s).minStartTime := by
  have hs' : s.rebase off ∈ gs'.queued := by
    rw [h.queued]
    exact Multiset.mem_map_of_mem _ hs
  have hstart := (h.stamps s hs).1
  have hle := h.minStartTime_le
  have hq := dequeued_queued h.calendar hs
  have hcache := h.cache
  have hcases := dequeued_minStartTime_cases h.calendar hs h.bins
  have hcases' := dequeued_minStartTime_cases h.calendar' hs' (h.numBins.trans_le h.bins)
  rw [h.dequeued_queued' hs, rebase_startTime] at hcases'
  by_cases hempty : gs.minStartTime = uint64Max
  · -- an empty cache stays empty on both sides
    have hsame : (dequeued gs s).minStartTime = gs.minStartTime := by
      rcases hcases with ⟨heq, -⟩ | ⟨-, hsame⟩
      · omega
      · exact hsame
    rw [hempty, rebaseCached, if_neg (by simp)] at hcache
    rw [hsame, hempty, rebaseCached, if_neg (by simp)]
    rcases hcases' with ⟨heq, -⟩ | ⟨-, hsame'⟩
    · omega
    · rw [hsame', hcache]
  rw [rebaseCached, if_pos hempty, rebaseTime_eq_sub] at hcache
  rcases hcases with ⟨heq, hscan, hbound⟩ | ⟨hne, hsame⟩
  · rcases hcases' with ⟨-, hscan', hbound'⟩ | ⟨hne', -⟩
    · have hlive : ∀ t ∈ (dequeued gs s).queued, (dequeued gs s).minStartTime < uint64Max := by
        intro t ht
        have htq : t ∈ gs.queued := hq ▸ Multiset.mem_cons_of_mem ht
        apply lt_of_le_of_ne hbound
        intro hmax
        have hge := hscan.le t ht
        have hst := h.stamps t htq
        exact hempty (h.safe.outOfReach t htq (by omega)).1
      exact hscan'.unique (hscan.rebase off hlive) hbound' (rebaseCached_le hbound)
    · omega
  · rw [hsame, rebaseCached, if_pos hempty, rebaseTime_eq_sub]
    rcases hcases' with ⟨heq', hscan', -⟩ | ⟨-, hsame'⟩
    · obtain ⟨t, ht, hatt⟩ := h.attained.resolve_left hempty
      rw [hq] at ht
      rcases Multiset.mem_cons.mp ht with rfl | ht
      · exact absurd hatt hne
      · have hge := hscan'.le _ (Multiset.mem_map_of_mem _ ht)
        rw [rebase_startTime, hatt] at hge
        omega
    · rw [hsame', hcache]

/-- One departure on both sides. -/
theorem Shifted.dequeued {s : SessionState α} (hs : s ∈ gs.queued)
    (hlt : s.finishTime < uint64Max) :
    Shifted off (dequeued gs s) (dequeued gs' (s.rebase off)) := by
  have hs' : s.rebase off ∈ gs'.queued := by
    rw [h.queued]
    exact Multiset.mem_map_of_mem _ hs
  have hb := h.calendar.lt_numBins (h.calendar.mem_queued.mp hs)
  have hb' := h.calendar'.lt_numBins (h.calendar'.mem_queued.mp hs')
  have hq := dequeued_queued h.calendar hs
  have hsub : ∀ t ∈ (Hwfq.dequeued gs s).queued, t ∈ gs.queued := fun t ht =>
    hq ▸ Multiset.mem_cons_of_mem ht
  obtain ⟨hbins, hbits, hgroups⟩ :=
    @removed_calendar _ (gs.retimed (Hwfq.dequeueTime gs) s.finishTime) s hb
  obtain ⟨hbins', hbits', hgroups'⟩ :=
    @removed_calendar _ (gs'.retimed (Hwfq.dequeueTime gs') (s.rebase off).finishTime)
      (s.rebase off) hb'
  have hlist : Hwfq.binListRemove gs' s.binIndex (s.rebase off) s.binIndex = [] ↔
      Hwfq.binListRemove gs s.binIndex s s.binIndex = [] := by
    rw [h.binListRemove, List.map_eq_nil_iff]
  obtain ⟨htime, hpassed, hreach⟩ := h.dequeueTime
  constructor
  · exact h.calendar.dequeue hs
  · intro t ht
    exact h.stamps t (hsub t ht)
  · exact (congrArg Geometry.numBins (dequeued_geometry s)).trans_le h.bins
  · exact h.attained.dequeued h.calendar hs h.bins
  · constructor
    · intro t ht u hu
      exact h.safe.apart t (hsub t ht) u (hsub u hu)
    · intro t ht hmax
      obtain ⟨hempty, -⟩ := h.safe.outOfReach t (hsub t ht) hmax
      have hstart := (h.stamps s hs).1
      rw [dequeued_virtualTime]
      constructor
      · rcases dequeued_minStartTime_cases h.calendar hs h.bins with ⟨heq, -⟩ | ⟨-, hsame⟩
        · omega
        · rw [hsame, hempty]
      · exact hreach t (hsub t ht) hmax
  · intro b
    have hdeq : (Hwfq.dequeued gs s).binHeads b = _ := congrFun (hbins.trans unlinkSession_binHeads) b
    have hdeq' : (Hwfq.dequeued gs' (s.rebase off)).binHeads b = _ :=
      congrFun (hbins'.trans unlinkSession_binHeads) b
    rw [hdeq, hdeq']
    exact h.binListRemove s b
  · have hdeq : (Hwfq.dequeued gs s).binBitfield = _ := hbits.trans unlinkSession_binBitfield
    have hdeq' : (Hwfq.dequeued gs' (s.rebase off)).binBitfield = _ :=
      hbits'.trans unlinkSession_binBitfield
    rw [hdeq, hdeq']
    refine if_congr hlist ?_ h.binBits
    exact congrArg (clearBinBit · s.binIndex) h.binBits
  · have hdeq : (Hwfq.dequeued gs s).groupBitfield = _ := hgroups.trans unlinkSession_groupBitfield
    have hdeq' : (Hwfq.dequeued gs' (s.rebase off)).groupBitfield = _ :=
      hgroups'.trans unlinkSession_groupBitfield
    have hsize : gs'.binBitfieldSize = gs.binBitfieldSize :=
      congrArg Geometry.binBitfieldSize h.geometry
    rw [hdeq, hdeq']
    refine if_congr (and_congr hlist (and_congr ?_ (and_congr_left' ?_))) ?_ h.groupBits
    · exact iff_of_eq (congrArg (s.binIndex / 32 < ·) hsize)
    · exact iff_of_eq (congrArg (fun w => clearBinBit w s.binIndex (s.binIndex / 32) = 0#32)
        h.binBits)
    · exact congrArg (fun w : ℕ → BitVec 32 => Function.update w (s.binIndex / 32 / 32)
        (clear (w (s.binIndex / 32 / 32)) (s.binIndex / 32 % 32))) h.groupBits
  · rw [dequeued_geometry, dequeued_geometry, h.geometry]
  · rw [dequeued_activeSessionCount, dequeued_activeSessionCount, h.count]
  · rw [dequeued_virtualTime]
    exact hpassed
  · rw [dequeued_virtualTime, dequeued_virtualTime]
    exact htime
  · exact h.dequeued_cache' hs hlt

/-- A dequeue returns the image of what it returns before the rebase. -/
theorem Shifted.dequeue :
    (groupSchedulerDequeue gs').1 = (groupSchedulerDequeue gs).1.map (·.rebase off) ∧
      Shifted off (groupSchedulerDequeue gs).2 (groupSchedulerDequeue gs').2 := by
  obtain ⟨htime, hpassed, hreach⟩ := h.dequeueTime
  have hfind := h.findEligible hpassed hreach
  rw [← htime] at hfind
  have hcount := h.count
  rcases dequeue_cases h.calendar with ⟨hzero, heq⟩ | ⟨hpos, hnone, heq⟩ | ⟨hpos, s, hsome, heq⟩
  · rcases dequeue_cases h.calendar' with ⟨-, heq'⟩ | ⟨hpos', -⟩ | ⟨hpos', -⟩
    · rw [heq, heq']
      exact ⟨rfl, h⟩
    · omega
    · omega
  · rw [hnone] at hfind
    rcases dequeue_cases h.calendar' with ⟨hzero', -⟩ | ⟨-, -, heq'⟩ | ⟨-, s', hsome', -⟩
    · omega
    · rw [heq, heq']
      refine ⟨rfl, { h with passed := hpassed, clock := htime, calendar := ?_, safe := ?_ }⟩
      · exact h.calendar.congr rfl rfl rfl rfl
      · exact ⟨h.safe.apart, fun t ht hmax => ⟨(h.safe.outOfReach t ht hmax).1, hreach t ht hmax⟩⟩
    · rw [hfind] at hsome'
      cases hsome'
  · rw [hsome, Option.map_some] at hfind
    rcases dequeue_cases h.calendar' with ⟨hzero', -⟩ | ⟨-, hnone', -⟩ | ⟨-, s', hsome', heq'⟩
    · omega
    · rw [hfind] at hnone'
      cases hnone'
    · rw [hfind] at hsome'
      cases hsome'
      obtain ⟨hs, -, hlt⟩ := findEligible_some h.calendar hsome
      rw [heq, heq']
      exact ⟨rfl, h.dequeued hs hlt⟩

end Shifted

/-! ## Draining -/

/-- The objects that `n` dequeues return. -/
def drained (gs : GroupScheduler α) (n : ℕ) : List (Option Addr) :=
  outputs (fun gs (_ : Unit) => (groupSchedulerDequeue gs).2)
    (fun gs _ => (groupSchedulerDequeue gs).1.map (·.addr)) gs (List.replicate n ())

theorem drained_succ (gs : GroupScheduler α) (n : ℕ) :
    drained gs (n + 1) =
      (groupSchedulerDequeue gs).1.map (·.addr) :: drained (groupSchedulerDequeue gs).2 n := rfl

theorem Shifted.drained (h : Shifted off gs gs') (n : ℕ) : drained gs' n = drained gs n := by
  apply outputs_related (R := Shifted off) ?_ h
  intro gs gs' _ h
  obtain ⟨hout, hnext⟩ := h.dequeue
  constructor
  · rw [hout, Option.map_map]
    rfl
  · exact hnext

/-- No drain returns a saturated session. -/
theorem drained_unsaturated (h : CalendarInv gs) {n : ℕ} {a : Addr}
    (ha : some a ∈ drained gs n) : ∃ s ∈ gs.queued, s.addr = a ∧ s.finishTime < uint64Max := by
  induction n generalizing gs with
  | zero => cases ha
  | succ n ih =>
    rw [drained_succ] at ha
    rcases dequeue_cases h with ⟨-, heq⟩ | ⟨-, -, heq⟩ | ⟨-, s, hfind, heq⟩
    · rw [heq] at ha
      rcases List.mem_cons.mp ha with hnone | ha
      · cases hnone
      · exact ih h ha
    · rw [heq] at ha
      rcases List.mem_cons.mp ha with hnone | ha
      · cases hnone
      · exact @ih (gs.at (dequeueTime gs)) (h.congr rfl rfl rfl rfl) ha
    · obtain ⟨hs, -, hlt⟩ := findEligible_some h hfind
      rw [heq] at ha
      rcases List.mem_cons.mp ha with hhead | ha
      · cases hhead
        exact ⟨s, hs, rfl, hlt⟩
      · obtain ⟨t, ht, haddr, htlt⟩ := ih (h.dequeue hs) ha
        refine ⟨t, ?_, haddr, htlt⟩
        rw [dequeued_queued h hs]
        exact Multiset.mem_cons_of_mem ht

/-- A queue without saturated sessions whose counter is honest. -/
structure Live (gs : GroupScheduler α) : Prop where
  calendar : CalendarInv gs
  bins : gs.numBins ≤ 32768
  attained : CacheAttained gs
  stamps : ∀ s ∈ gs.queued, s.startTime ≤ s.finishTime ∧ s.finishTime < uint64Max
  count : gs.activeSessionCount = gs.queued.card
  few : gs.queued.card ≤ uint32Max

/-- The clock gets to `s`: it has started, or the cache lets the clock jump. -/
def InSight (gs : GroupScheduler α) (s : SessionState α) : Prop :=
  s ∈ gs.queued ∧ (gs.minStartTime ≠ uint64Max ∨ s.startTime ≤ gs.virtualTime)

section Live
variable {s : SessionState α} (h : Live gs)
include h

theorem Live.dequeued {x : SessionState α} (hx : x ∈ gs.queued) : Live (dequeued gs x) := by
  have hq := dequeued_queued h.calendar hx
  have hcard := congrArg Multiset.card hq
  rw [Multiset.card_cons] at hcard
  have hcount := h.count
  have hfew := h.few
  constructor
  · exact h.calendar.dequeue hx
  · exact (congrArg Geometry.numBins (dequeued_geometry x)).trans_le h.bins
  · exact h.attained.dequeued h.calendar hx h.bins
  · intro t ht
    exact h.stamps t (hq ▸ Multiset.mem_cons_of_mem ht)
  · rw [dequeued_activeSessionCount, hcount, subU32, if_pos (by omega)]
    omega
  · omega

/-- While a session is in sight the scheduler returns one, and it stays in sight until
it is returned itself. -/
theorem Live.next (hs : InSight gs s) :
    ∃ x ∈ gs.queued, groupSchedulerDequeue gs = (some x, Hwfq.dequeued gs x) ∧
      (s = x ∨ InSight (Hwfq.dequeued gs x) s) := by
  obtain ⟨hin, hsight⟩ := hs
  have hpos := Multiset.card_pos_iff_exists_mem.mpr ⟨s, hin⟩
  have hcount := h.count
  have hst := h.stamps s hin
  rcases dequeue_cases h.calendar with ⟨hzero, -⟩ | ⟨-, hnone, -⟩ | ⟨-, x, hfind, heq⟩
  · omega
  · exfalso
    have hlate : ∀ q ∈ gs.queued, dequeueTime gs < q.startTime := by
      intro q hq
      by_contra hle
      have hmax := findEligible_none h.calendar h.bins hnone q hq (Nat.le_of_not_lt hle)
      have hq := h.stamps q hq
      omega
    have hsub := virtualTime_le_dequeueTime gs
    have hlates := hlate s hin
    have hne := hsight.resolve_right (by omega)
    obtain ⟨q, hq, hatt⟩ := h.attained.resolve_left hne
    have hlateq := hlate q hq
    have hbefore : findEligibleMinBitfield gs gs.virtualTime = none := by
      cases hf : findEligibleMinBitfield gs gs.virtualTime with
      | none => rfl
      | some y =>
        obtain ⟨hy, hstart, -⟩ := findEligible_some h.calendar hf
        have := hlate y hy
        omega
    have hjump : dequeueTime gs = gs.minStartTime := by
      simp only [dequeueTime, hbefore]
      rw [if_pos ⟨hne, by omega⟩]
    omega
  · obtain ⟨hx, -, -⟩ := findEligible_some h.calendar hfind
    refine ⟨x, hx, heq, ?_⟩
    have hq := dequeued_queued h.calendar hx
    rw [hq] at hin
    rcases Multiset.mem_cons.mp hin with rfl | hin
    · exact .inl rfl
    · refine .inr ⟨hin, ?_⟩
      rw [dequeued_virtualTime]
      have hsub := virtualTime_le_dequeueTime gs
      rcases dequeued_minStartTime_cases h.calendar hx h.bins with ⟨-, hscan, -⟩ | ⟨-, hsame⟩
      · have hle := hscan.le s hin
        left
        omega
      · rw [hsame]
        apply hsight.imp_right
        intro hstart
        omega

theorem Live.drained (hs : InSight gs s) : ∃ n, some s.addr ∈ drained gs n := by
  induction hcard : gs.queued.card generalizing gs with
  | zero =>
    rw [Multiset.card_eq_zero] at hcard
    have hin := hs.1
    simp [hcard] at hin
  | succ k ih =>
    obtain ⟨x, hx, heq, hnext⟩ := h.next hs
    rcases hnext with rfl | hsight
    · refine ⟨1, ?_⟩
      rw [drained_succ, heq]
      exact List.mem_cons_self
    · have hq := congrArg Multiset.card (dequeued_queued h.calendar hx)
      rw [Multiset.card_cons] at hq
      obtain ⟨n, hn⟩ := ih (h.dequeued hx) hsight (by omega)
      refine ⟨n + 1, ?_⟩
      rw [drained_succ, heq]
      exact List.mem_cons_of_mem _ hn

end Live

/-! ## Every operation -/

/-- One operation on a group scheduler, an explicit rebase included. -/
inductive GroupOperation (α : Type*) where
  | call (call : CalendarCall α)
  | rebaseIfNeeded

def GroupState.operate (st : GroupState α) : GroupOperation α → GroupState α
  | .call c => st.calendarStep c
  | .rebaseIfNeeded => { st with gs := groupSchedulerRebaseIfNeeded st.gs }

theorem CacheAttained.of_queueView (h : CacheAttained gs) (hq : gs'.queueView = gs.queueView) :
    CacheAttained gs' := by
  have hmin : gs'.minStartTime = gs.minStartTime := congrArg QueueView.minStartTime hq
  unfold CacheAttained
  rw [hmin, queued_of_queueView hq]
  exact h

theorem CacheAttained.rebased (h : CacheAttained gs) (off : ℕ) :
    CacheAttained (rebasedBy off gs) := by
  unfold CacheAttained
  rw [rebasedBy_queued]
  change rebaseCached off gs.minStartTime = _ ∨
    ∃ s : SessionState α, s ∈ _ ∧ s.startTime = rebaseCached off gs.minStartTime
  rcases h with hempty | ⟨s, hs, hatt⟩
  · left
    rw [hempty, rebaseCached, if_neg (by simp)]
  · by_cases hempty : gs.minStartTime = uint64Max
    · left
      rw [hempty, rebaseCached, if_neg (by simp)]
    · right
      refine ⟨s.rebase off, Multiset.mem_map_of_mem _ hs, ?_⟩
      rw [rebaseCached, if_pos hempty, ← hatt]
      rfl

/-- What every state of a scheduler with the default number of groups has. -/
structure Rebasable (st : GroupState α) : Prop where
  inv : GroupInv st.mem st.gs
  bins : st.gs.numBins ≤ 32768
  attained : CacheAttained st.gs

theorem CacheAttained.calendarStep {st : GroupState α} (h : Rebasable st) (c : CalendarCall α) :
    CacheAttained (st.calendarStep c).gs := by
  obtain ⟨hinv, hbins, hatt⟩ := h
  cases hinv.calendarEffect c with
  | absent _ after =>
    rw [after]
    exact hatt
  | removed _ queued after =>
    rw [after]
    exact hatt.removed hinv.calendar hbins queued
  | group effect =>
    cases effect with
    | configured view => exact hatt.of_queueView view
    | removed view => exact hatt.of_queueView view
    | refused _ _ same =>
      rw [same]
      exact hatt
    | enqueued _ hadm _ after =>
      rw [after]
      exact CacheAttained.enqueued _ (hadm.fits _ _ _) hatt
    | missed _ _ _ after =>
      rw [after]
      exact hatt
    | dequeued _ found _ after =>
      rw [after]
      exact hatt.dequeued hinv.calendar (findEligible_some hinv.calendar found).1 hbins
    | @updated w after =>
      rw [after]
      rcases updateVirtualTime_cases st.gs w.toNat with ⟨-, heq⟩ | ⟨-, heq⟩
      · rw [heq]
        exact hatt
      · rw [heq]
        exact @CacheAttained.rebased _ (st.gs.at _) hatt _

theorem Rebasable.operate {st : GroupState α} (h : Rebasable st) (op : GroupOperation α) :
    Rebasable (st.operate op) := by
  cases op with
  | call c =>
    constructor
    · exact h.inv.calendarStep c
    · exact (congrArg Geometry.numBins (GroupState.calendarStep_geometry h.inv c)).trans_le h.bins
    · exact CacheAttained.calendarStep h c
  | rebaseIfNeeded =>
    have hclock := h.inv.clock
    rcases rebaseIfNeeded_cases st.gs with ⟨-, heq⟩ | ⟨-, heq⟩
    · simp only [GroupState.operate, heq]
      exact h
    · simp only [GroupState.operate, heq]
      constructor
      · apply @GroupInv.rebased _ st.gs st.mem h.inv st.gs.virtualTime
        omega
      · exact h.bins
      · exact h.attained.rebased _

theorem Fresh.rebasable {binsPerGroup totalCapacity maxEntries : ℕ} {st : GroupState α}
    (h : Fresh 16 binsPerGroup totalCapacity maxEntries st) (hbins : binsPerGroup ≤ 2048) :
    Rebasable st :=
  ⟨h.inv, numBins_le_of_default h hbins, .inl h.minStartTime⟩

/-! ## Transparency -/

/-- The rebased scheduler `gs'` holds the sessions of `gs` in the same order and hands
them out in the same sequence. -/
structure TransparentRebase (gs gs' : GroupScheduler α) : Prop where
  sessions : gs'.queued.map (·.addr) = gs.queued.map (·.addr)
  eligible : ∀ s ∈ gs.queued, ∀ s' ∈ gs'.queued, s'.addr = s.addr →
    (s'.startTime ≤ gs'.virtualTime ↔ s.startTime ≤ gs.virtualTime)
  order : ∀ s ∈ gs.queued, ∀ t ∈ gs.queued, ∀ s' ∈ gs'.queued, ∀ t' ∈ gs'.queued,
    s'.addr = s.addr → t'.addr = t.addr →
    (s'.finishTime < t'.finishTime ↔ s.finishTime < t.finishTime)
  drain : ∀ n, drained gs' n = drained gs n

/-- The session of the rebased queue at an address is the image of the one before. -/
theorem rebasedBy_session (h : CalendarInv gs) {s s' : SessionState α} (hs : s ∈ gs.queued)
    (hs' : s' ∈ (rebasedBy off gs).queued) (haddr : s'.addr = s.addr) : s' = s.rebase off := by
  rw [rebasedBy_queued] at hs'
  obtain ⟨t, ht, rfl⟩ := Multiset.mem_map.mp hs'
  rw [Multiset.inj_on_of_nodup_map h.addrs t ht s hs haddr]

section Transparency
variable {st : GroupState α} (h : Rebasable st) {t : ℕ}
include h

theorem Rebasable.shifted (hsafe : RebaseSafe (t / 2) (st.gs.at t)) :
    Shifted (t / 2) (st.gs.at t) (rebasedBy (t / 2) (st.gs.at t)) := by
  have hcal : CalendarInv (st.gs.at t) := h.inv.calendar.congr rfl rfl rfl rfl
  constructor
  · exact hcal
  · exact h.inv.stamps
  · exact h.bins
  · exact h.attained
  · exact hsafe
  · exact hcal.rebasedBy_binHeads (t / 2)
  · rfl
  · rfl
  · rfl
  · rfl
  · exact Nat.div_le_self t 2
  · rfl
  · rfl

theorem Rebasable.transparent (hsafe : RebaseSafe (t / 2) (st.gs.at t)) :
    TransparentRebase (st.gs.at t) (rebasedBy (t / 2) (st.gs.at t)) := by
  have hshift := h.shifted hsafe
  constructor
  · rw [rebasedBy_queued, Multiset.map_map]
    rfl
  · intro s hs s' hs' haddr
    rw [rebasedBy_session hshift.calendar hs hs' haddr]
    exact rebase_startTime_le_iff (Nat.div_le_self t 2) s
  · intro s hs u hu s' hs' u' hu' haddr haddr'
    rw [rebasedBy_session hshift.calendar hs hs' haddr,
      rebasedBy_session hshift.calendar hu hu' haddr', rebase_finishTime, rebase_finishTime]
    have hsu := hsafe.apart s hs u hu
    omega
  · exact hshift.drained

theorem Rebasable.live (ht : rebaseThreshold ≤ t) (hfew : st.gs.queued.card ≤ uint32Max) :
    Live (rebasedBy (t / 2) (st.gs.at t)) := by
  have hcal : CalendarInv (st.gs.at t) := h.inv.calendar.congr rfl rfl rfl rfl
  have hq : (rebasedBy (t / 2) (st.gs.at t)).queued = st.gs.queued.map (·.rebase (t / 2)) :=
    @rebasedBy_queued _ (st.gs.at t) (t / 2)
  have hpos : 0 < t / 2 := by
    unfold rebaseThreshold uint64Max at ht
    omega
  constructor
  · exact hcal.rebase _ fun s hs => (h.inv.stamps s hs).1
  · exact h.bins
  · exact @CacheAttained.rebased _ (st.gs.at t) h.attained _
  · intro s hs
    rw [hq] at hs
    obtain ⟨u, hu, rfl⟩ := Multiset.mem_map.mp hs
    have hst := h.inv.stamps u hu
    rw [rebase_startTime, rebase_finishTime]
    have hone := one_lt_uint64Max
    omega
  · rw [hq, Multiset.card_map]
    exact h.inv.count.trans (u32_of_le hfew)
  · rw [hq, Multiset.card_map]
    exact hfew

/-- A transparent rebase cuts no distinction off and brings no saturated session into
reach. -/
theorem Rebasable.safe (ht : rebaseThreshold ≤ t) (hfew : st.gs.queued.card ≤ uint32Max)
    (htrans : TransparentRebase (st.gs.at t) (rebasedBy (t / 2) (st.gs.at t))) :
    RebaseSafe (t / 2) (st.gs.at t) := by
  have hcal : CalendarInv (st.gs.at t) := h.inv.calendar.congr rfl rfl rfl rfl
  have himage : ∀ s ∈ (st.gs.at t).queued,
      s.rebase (t / 2) ∈ (rebasedBy (t / 2) (st.gs.at t)).queued := by
    intro s hs
    rw [rebasedBy_queued]
    exact Multiset.mem_map_of_mem _ hs
  constructor
  · intro s hs u hu hlt
    have hord := (htrans.order s hs u hu _ (himage s hs) _ (himage u hu) rfl rfl).mpr hlt
    rw [rebase_finishTime, rebase_finishTime] at hord
    omega
  · intro s hs hmax
    by_contra hnot
    have hsight : InSight (rebasedBy (t / 2) (st.gs.at t)) (s.rebase (t / 2)) := by
      refine ⟨himage s hs, ?_⟩
      by_cases hempty : st.gs.minStartTime = uint64Max
      · right
        rw [rebase_startTime]
        have hstart : ¬ t < s.startTime := fun hlate => hnot ⟨hempty, hlate⟩
        exact Nat.sub_le_sub_right (Nat.le_of_not_lt hstart) (t / 2)
      · left
        change rebaseCached (t / 2) st.gs.minStartTime ≠ uint64Max
        have hcache := h.inv.cache
        rw [rebaseCached, if_pos hempty, rebaseTime_eq_sub]
        omega
    obtain ⟨n, hn⟩ := (h.live ht hfew).drained hsight
    rw [htrans.drain n] at hn
    obtain ⟨u, hu, haddr, hlt⟩ := drained_unsaturated hcal hn
    have heq := Multiset.inj_on_of_nodup_map hcal.addrs u hu s hs haddr
    rw [heq] at hlt
    omega

end Transparency

/-- In every state of every run of operations, at rest or inside an update, the rebase is
transparent as long as no finish time below another one is cut off together with it and
no saturated session is in reach; with an honest session counter it is transparent in no
other state. -/
theorem rebase_transparent_iff {binsPerGroup totalCapacity maxEntries : ℕ} {st₀ : GroupState α}
    (hfresh : Fresh 16 binsPerGroup totalCapacity maxEntries st₀) (hbins : binsPerGroup ≤ 2048)
    (ops : List (GroupOperation α)) {t : ℕ} :
    let gs := (run GroupState.operate st₀ ops).gs
    (t = gs.virtualTime ∨ ∃ w : UInt64, t = advancedVirtualTime gs w.toNat) →
    rebaseThreshold ≤ t →
      (RebaseSafe (t / 2) (gs.at t) →
        TransparentRebase (gs.at t) (groupSchedulerRebaseIfNeeded (gs.at t))) ∧
      (gs.queued.card ≤ uint32Max →
        TransparentRebase (gs.at t) (groupSchedulerRebaseIfNeeded (gs.at t)) →
        RebaseSafe (t / 2) (gs.at t)) := by
  intro gs _ hthreshold
  have hrun : Rebasable (run GroupState.operate st₀ ops) :=
    run_invariant_all (fun _ op hst => hst.operate op) (hfresh.rebasable hbins) ops
  have hreb : groupSchedulerRebaseIfNeeded (gs.at t) = rebasedBy (t / 2) (gs.at t) := by
    rcases rebaseIfNeeded_cases (gs.at t) with ⟨hlt, -⟩ | ⟨-, heq⟩
    · exact absurd hthreshold (Nat.not_le.mpr hlt)
    · exact heq
  rw [hreb]
  constructor
  · intro hsafe
    exact hrun.transparent hsafe
  · intro hfew htrans
    exact hrun.safe hthreshold hfew htrans

theorem newGroup_twoBins_isSome : (newGroup ℕ 16 2 7 2 2).isSome = true := by decide +kernel

/-- Sixteen groups of two bins, capacity 7 and two entries to configure. -/
def twoBinGroup : GroupState ℕ := (newGroup ℕ 16 2 7 2 2).get newGroup_twoBins_isSome

theorem twoBinGroup_fresh : Fresh 16 2 7 2 twoBinGroup :=
  newGroup_fresh (Option.some_get newGroup_twoBins_isSome).symm

/-- The largest work that is not cut off in fixed point. -/
def longWork : UInt64 := 17592186044415

/-- The clock runs for three long updates and two sessions arrive after them. -/
def lateSessions : List (GroupOperation ℕ) :=
  [.configureEntry 0 (.rate 6), .configureEntry 1 (.rate 1), .updateVirtualTime longWork,
    .updateVirtualTime longWork, .updateVirtualTime longWork, .enqueue 0 2 (some 1) false,
    .enqueue 1 1 (some 2) false].map fun c => .call (.group c)

theorem rebase_transparent_late :
    let gs := (run GroupState.operate twoBinGroup lateSessions).gs
    TransparentRebase (gs.at (advancedVirtualTime gs longWork.toNat))
      (groupSchedulerRebaseIfNeeded (gs.at (advancedVirtualTime gs longWork.toNat))) := by
  intro gs
  have hlist : ∀ s ∈ (List.range gs.numBins).flatMap gs.binHeads,
      advancedVirtualTime gs longWork.toNat / 2 < s.finishTime ∧ s.finishTime < uint64Max := by
    decide +kernel
  have hall : ∀ s ∈ gs.queued,
      advancedVirtualTime gs longWork.toNat / 2 < s.finishTime ∧ s.finishTime < uint64Max := by
    rw [queued_eq_flatMap]
    exact hlist
  apply (rebase_transparent_iff twoBinGroup_fresh (by decide) lateSessions
    (.inr ⟨longWork, rfl⟩) (by decide +kernel)).1
  constructor
  · intro s _ t ht _
    exact (hall t ht).1
  · intro s hs hmax
    exact absurd hmax (hall s hs).2.ne

/-- Two sessions arrive first and the clock runs over both. -/
def earlySessions : List (GroupOperation ℕ) :=
  [.configureEntry 0 (.rate 6), .configureEntry 1 (.rate 1), .enqueue 0 4 (some 1) false,
    .enqueue 1 1 (some 2) false, .updateVirtualTime longWork, .updateVirtualTime longWork,
    .updateVirtualTime longWork].map fun c => .call (.group c)

/-- Both finish times are cut off at zero by the next update, and the session that
finishes later is returned first because its bin is searched first. -/
theorem not_rebase_transparent :
    ¬ ∀ (binsPerGroup totalCapacity maxEntries : ℕ) (st₀ : GroupState ℕ),
      Fresh 16 binsPerGroup totalCapacity maxEntries st₀ → binsPerGroup ≤ 2048 →
      ∀ (ops : List (GroupOperation ℕ)) (t : ℕ),
        (t = (run GroupState.operate st₀ ops).gs.virtualTime ∨ ∃ w : UInt64,
          t = advancedVirtualTime (run GroupState.operate st₀ ops).gs w.toNat) →
        rebaseThreshold ≤ t →
        TransparentRebase ((run GroupState.operate st₀ ops).gs.at t)
          (groupSchedulerRebaseIfNeeded ((run GroupState.operate st₀ ops).gs.at t)) := by
  intro h
  have htrans := h 2 7 2 twoBinGroup twoBinGroup_fresh (by decide) earlySessions _
    (.inr ⟨longWork, rfl⟩) (by decide +kernel)
  have hdrain := htrans.drain 1
  revert hdrain
  decide +kernel

end Hwfq
