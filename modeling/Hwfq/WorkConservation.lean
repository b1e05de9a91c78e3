import Hwfq.GroupRuns

/-!
# Work conservation of one group scheduler

The search starts from the sentinel `UINT64_MAX` with a strict comparison, so a
session whose finish time is saturated is never selected. As long as no accepted
tag reaches the sentinel and the session counter does not wrap, a scheduler with
queued sessions always has one to return and draining returns all of them.
-/
namespace Hwfq
open GuardedRuns MinSearch Bins

variable {α : Type*} {gs : GroupScheduler α} {mem : Allocator}

/-- No queued session finishes at the sentinel of the search. -/
def Unsaturated (gs : GroupScheduler α) : Prop := ∀ s ∈ gs.queued, s.finishTime < uint64Max

/-- Where nothing is saturated, the search after the jump finds a session. -/
theorem findEligible_dequeueTime (h : CalendarInv gs) (hn : gs.numBins ≤ 32768)
    (hcache : ExactCache gs) (hunsat : Unsaturated gs)
    (hstamps : ∀ s ∈ gs.queued, s.startTime ≤ s.finishTime) {s : SessionState α}
    (hs : s ∈ gs.queued) : (findEligibleMinBitfield gs (dequeueTime gs)).isSome = true := by
  rw [findEligible_isSome_iff h hn]
  cases hfind : findEligibleMinBitfield gs gs.virtualTime with
  | some t =>
    have ht : dequeueTime gs = gs.virtualTime := by simp [dequeueTime, hfind]
    rw [ht, ← findEligible_isSome_iff h hn, hfind]
    rfl
  | none =>
    have hlate : ∀ q ∈ gs.queued, gs.virtualTime < q.startTime := by
      intro q hq
      by_contra hle
      have := findEligible_none h hn hfind q hq (Nat.le_of_not_lt hle)
      have := hunsat q hq
      omega
    have hstart := (hstamps s hs).trans (hunsat s hs).le
    have hmin := hcache.lt_max hs hstart
    rcases hcache.least.attained with hempty | ⟨t, ht, hatt⟩
    · omega
    · have hlt := hlate t ht
      have hjump : dequeueTime gs = gs.minStartTime := by
        simp only [dequeueTime, hfind]
        rw [if_pos ⟨hmin.ne, hatt ▸ hlt⟩]
      exact ⟨t, ht, by omega, hunsat t ht⟩

/-- With an honest counter and nothing saturated, the queue is served whenever it is
not empty. -/
theorem Searchable.dequeue_isSome_iff {st : GroupState α} (h : Searchable st)
    (hunsat : Unsaturated st.gs) :
    (groupSchedulerDequeue st.gs).1.isSome = true ↔ st.gs.activeSessionCount > 0 := by
  rcases dequeue_cases h.inv.calendar with ⟨hzero, heq⟩ | ⟨hpos, hnone, heq⟩ | ⟨hpos, s, -, heq⟩
  · simp [heq, hzero]
  · have hcard : st.gs.queued ≠ 0 := by
      intro hempty
      have hcount := h.inv.count
      rw [hempty] at hcount
      exact hpos (hcount.trans (u32_of_le (Nat.zero_le _)))
    obtain ⟨s, hs⟩ := Multiset.exists_mem_of_ne_zero hcard
    have hsome := findEligible_dequeueTime h.inv.calendar h.bins h.cache hunsat
      (fun q hq => (h.inv.stamps q hq).1) hs
    rw [hnone] at hsome
    cases hsome
  · rw [heq]
    exact iff_of_true rfl (Nat.pos_of_ne_zero hpos)

/-- Draining a queue without saturated sessions returns each of them once. -/
theorem Searchable.drain {st : GroupState α} (h : Searchable st) (hunsat : Unsaturated st.gs)
    {n : ℕ} (hcard : st.gs.queued.card = n) (hfew : n ≤ uint32Max) :
    ∃ l : List (SessionState α),
      outputs GroupState.step GroupState.returned st (List.replicate n .dequeue) = l.map some ∧
      (l : Multiset (SessionState α)) = st.gs.queued ∧
      (GuardedRuns.run GroupState.step st (List.replicate n .dequeue)).gs.queued = 0 := by
  induction n generalizing st with
  | zero =>
    have hempty := Multiset.card_eq_zero.mp hcard
    exact ⟨[], rfl, hempty.symm, hempty⟩
  | succ n ih =>
    have hcount : st.gs.activeSessionCount = n + 1 := by
      rw [h.inv.count, hcard, u32_of_le hfew]
    have hsome := (h.dequeue_isSome_iff hunsat).mpr (by omega)
    rcases dequeue_cases h.inv.calendar with ⟨hzero, -⟩ | ⟨-, -, heq⟩ | ⟨-, s, hfind, heq⟩
    · omega
    · rw [heq] at hsome
      cases hsome
    have hs := (findEligible_some h.inv.calendar hfind).1
    have hq := dequeued_queued h.inv.calendar hs
    have hgs : (st.step .dequeue).gs = dequeued st.gs s := congrArg Prod.snd heq
    have hstep := h.step .dequeue
    obtain ⟨l, hout, hl, hend⟩ := ih hstep
      (fun q hqq => hunsat q (hq ▸ Multiset.mem_cons_of_mem (hgs ▸ hqq)))
      (by
        rw [hgs]
        have := congrArg Multiset.card hq
        rw [Multiset.card_cons, hcard] at this
        omega)
      (by omega)
    refine ⟨s :: l, ?_, ?_, hend⟩
    · rw [List.replicate_succ, outputs, hout, List.map_cons]
      exact congrArg (· :: l.map some) (congrArg Prod.fst heq)
    · rw [hq, ← Multiset.cons_coe, hl, hgs]

/-! ## Runs that stay below the sentinel -/

/-- What a call must leave room for: the finish time of a session it would accept
stays below the sentinel, and the session counter below its largest value. -/
def BelowSentinel (st : GroupState α) : GroupCall α → Prop
  | .enqueue id w _ _ =>
      (∀ entry, groupSchedulerFindEntry st.gs id.toNat = some entry →
        max st.gs.virtualTime entry.lastFinishTime +
          serviceIntervalOf w.toNat (entryRate st.gs entry) < uint64Max) ∧
      st.gs.activeSessionCount < uint32Max
  | _ => True

/-- What runs below the sentinel keep true. -/
structure Drainable (st : GroupState α) : Prop where
  search : Searchable st
  unsaturated : Unsaturated st.gs
  few : st.gs.queued.card ≤ uint32Max

theorem Drainable.step {st : GroupState α} (h : Drainable st) {c : GroupCall α}
    (hc : BelowSentinel st c) : Drainable (st.step c) := by
  have hinv := h.search.inv
  suffices hkept : Unsaturated (st.step c).gs ∧ (st.step c).gs.queued.card ≤ uint32Max from
    ⟨h.search.step c, hkept.1, hkept.2⟩
  cases hinv.stepEffect c with
  | configured view =>
    have hq := queued_of_queueView view
    exact ⟨fun s hs => h.unsaturated s (hq ▸ hs), hq ▸ h.few⟩
  | removed view =>
    have hq := queued_of_queueView view
    exact ⟨fun s hs => h.unsaturated s (hq ▸ hs), hq ▸ h.few⟩
  | refused _ _ same => exact ⟨same ▸ h.unsaturated, same ▸ h.few⟩
  | @enqueued id w ud cf entry _ hadm _ after =>
    obtain ⟨hroom, hcount⟩ := hc
    have hq := hadm.queued st.mem.next ud cf
    have hcard := hinv.count
    rw [u32_of_le h.few] at hcard
    rw [after]
    constructor
    · intro s hs
      rw [hq] at hs
      rcases Multiset.mem_cons.mp hs with rfl | hs
      · have htag := hroom entry hadm.found
        have hstart := newSession_startTime st.gs entry st.mem.next id.toNat w.toNat ud cf
        have hint : (newSession st.gs entry st.mem.next id.toNat w.toNat ud cf).serviceInterval =
          serviceIntervalOf w.toNat (entryRate st.gs entry) := rfl
        dsimp only
        rw [newSession_finishTime]
        split_ifs <;> omega
      · exact h.unsaturated s hs
    · rw [hq, Multiset.card_cons]
      omega
  | missed _ _ _ after =>
    rw [after]
    exact ⟨h.unsaturated, h.few⟩
  | dequeued _ found _ after =>
    have hq := dequeued_queued hinv.calendar (findEligible_some hinv.calendar found).1
    have hcard := congrArg Multiset.card hq
    have hfew := h.few
    rw [Multiset.card_cons] at hcard
    rw [after]
    constructor
    · intro s hs
      exact h.unsaturated s (hq ▸ Multiset.mem_cons_of_mem hs)
    · omega
  | updated after =>
    rw [after]
    constructor
    · intro s hs
      rw [updateVirtualTime_queued] at hs
      obtain ⟨t, ht, rfl⟩ := Multiset.mem_map.mp hs
      have := h.unsaturated t ht
      simp only [SessionState.rebase, rebaseTime_eq_sub]
      omega
    · rw [updateVirtualTime_queued, Multiset.card_map]
      exact h.few

theorem numBins_le_of_default {binsPerGroup totalCapacity maxEntries : ℕ} {st : GroupState α}
    (h : Fresh 16 binsPerGroup totalCapacity maxEntries st) (hbins : binsPerGroup ≤ 2048) :
    st.gs.numBins ≤ 32768 := by
  rw [h.numBins]
  unfold u32
  omega

theorem Fresh.drainable {numGroups binsPerGroup totalCapacity maxEntries : ℕ} {st : GroupState α}
    (h : Fresh numGroups binsPerGroup totalCapacity maxEntries st) (hn : st.gs.numBins ≤ 32768) :
    Drainable st :=
  ⟨h.searchable hn, fun s hs => by simp [h.queued] at hs, by simp [h.queued]⟩

/-- Work conservation in every state of every run that stays below the sentinel. -/
theorem work_conserving_below_sentinel {binsPerGroup totalCapacity maxEntries : ℕ}
    {st₀ : GroupState α} (hfresh : Fresh 16 binsPerGroup totalCapacity maxEntries st₀)
    (hbins : binsPerGroup ≤ 2048) (calls : List (GroupCall α))
    (hbelow : Along GroupState.step BelowSentinel st₀ calls) :
    ((groupSchedulerDequeue (run GroupState.step st₀ calls).gs).1.isSome = true ↔
      (run GroupState.step st₀ calls).gs.activeSessionCount > 0) ∧
    ∃ l : List (SessionState α),
      outputs GroupState.step GroupState.returned (run GroupState.step st₀ calls)
        (List.replicate (run GroupState.step st₀ calls).gs.queued.card .dequeue) = l.map some ∧
      (l : Multiset (SessionState α)) = (run GroupState.step st₀ calls).gs.queued ∧
      (run GroupState.step (run GroupState.step st₀ calls)
        (List.replicate (run GroupState.step st₀ calls).gs.queued.card .dequeue)).gs.queued = 0 := by
  have hdrain : Drainable (run GroupState.step st₀ calls) :=
    run_invariant (fun _ _ hst hc => hst.step hc)
      (hfresh.drainable (numBins_le_of_default hfresh hbins)) hbelow
  exact ⟨hdrain.search.dequeue_isSome_iff hdrain.unsaturated,
    hdrain.search.drain hdrain.unsaturated rfl hdrain.few⟩

theorem work_conserving_two_entries :
    (groupSchedulerDequeue (run GroupState.step defaultGroup twoEntryCalls).gs).1.isSome = true :=
  (work_conserving_below_sentinel defaultGroup_fresh (by decide) twoEntryCalls
    ⟨trivial, trivial, ⟨by decide +kernel, by decide +kernel⟩,
      ⟨by decide +kernel, by decide +kernel⟩, trivial⟩).1.mpr (by decide +kernel)

/-- One session of 2^44 work units at rate 1: its finish time is the sentinel. -/
def saturatingCalls : List (GroupCall ℕ) :=
  [.configureEntry 0 (.rate 1), .enqueue 0 17592186044416 (some 1) false]

/-- The scheduler counts that session and never returns it. -/
theorem not_work_conserving :
    ¬ ∀ (binsPerGroup totalCapacity maxEntries : ℕ) (st₀ : GroupState ℕ),
      Fresh 16 binsPerGroup totalCapacity maxEntries st₀ → binsPerGroup ≤ 2048 →
      ∀ calls : List (GroupCall ℕ),
        ((groupSchedulerDequeue (run GroupState.step st₀ calls).gs).1.isSome = true ↔
          (run GroupState.step st₀ calls).gs.activeSessionCount > 0) := by
  intro h
  have hiff := h 2048 100 2 defaultGroup defaultGroup_fresh le_rfl saturatingCalls
  have hcount : (run GroupState.step defaultGroup saturatingCalls).gs.activeSessionCount > 0 := by
    decide +kernel
  have hnone : (groupSchedulerDequeue
      (run GroupState.step defaultGroup saturatingCalls).gs).1.isSome = false := by decide +kernel
  have hsome := hiff.mpr hcount
  rw [hnone] at hsome
  cases hsome

end Hwfq
