import Hwfq.SessionRemoval

/-!
# What the search covers

The group bitfield has 32 words of 32 bits and each bit stands for a word of 32
bins, so the search and the rescan reach the bins below 32768. A session in any
bin above is queued and never looked at. The bins of a geometry end below that
bound when there are at most 32768 of them, and with at most 2048 bins in a group
no session is put into a higher one.
-/
namespace Hwfq
open GuardedRuns SetBits

variable {α : Type*} {gs : GroupScheduler α} {s : SessionState α}

/-- Both walks through the bitfields look into the bin of a session. -/
def Visited (gs : GroupScheduler α) (s : SessionState α) : Prop :=
  s.binIndex ∈ visitedBins gs ∧ s.binIndex ∈ rescannedBins gs

theorem CalendarInv.visited_iff (h : CalendarInv gs) (hs : s ∈ gs.queued) :
    Visited gs s ↔ s.binIndex < 32768 := by
  have hne : gs.binHeads s.binIndex ≠ [] := List.ne_nil_of_mem (h.mem_queued.mp hs)
  rw [Visited, mem_visitedBins h, mem_rescannedBins h]
  constructor
  · intro hboth
    exact hboth.1.1
  · intro hlt
    exact ⟨⟨hlt, hne⟩, hlt, hne⟩

/-! ## Geometries whose bins are all reached -/

theorem groupIndex_le (serviceInterval baseInterval : ℕ) :
    calculateGroupIndexFromInterval serviceInterval baseInterval ≤ 15 := by
  unfold calculateGroupIndexFromInterval
  dsimp only
  split_ifs <;> omega

theorem binIndex_lt {binsPerGroup : ℕ} (hpos : 0 < binsPerGroup)
    (finishTime groupIndex baseInterval : ℕ) :
    calculateBinIndexFromFinishTime finishTime groupIndex binsPerGroup baseInterval <
      binsPerGroup := by
  unfold calculateBinIndexFromFinishTime
  dsimp only
  split_ifs <;> omega

/-- A new session of a group of at most 2048 bins lands within reach. -/
theorem newSessionBin_lt (hpos : 0 < gs.binsPerGroup) (hbins : gs.binsPerGroup ≤ 2048)
    (entry : EntryConfig) (w : ℕ) : newSessionBin gs entry w < 32768 := by
  have hgroup := groupIndex_le (newSession gs entry 0 0 w none false).serviceInterval
    gs.baseInterval
  have hbin := binIndex_lt hpos (newSession gs entry 0 0 w none false).finishTime
    (newSession gs entry 0 0 w none false).groupIndex gs.baseInterval
  have hmul : (newSession gs entry 0 0 w none false).groupIndex * gs.binsPerGroup ≤ 15 * 2048 :=
    Nat.mul_le_mul hgroup hbins
  unfold newSessionBin sessionBin u32
  omega

/-- Every queued session sits below bin 32768. -/
structure WithinReach (st : GroupState α) : Prop where
  inv : GroupInv st.mem st.gs
  binsPos : 0 < st.gs.binsPerGroup
  binsLe : st.gs.binsPerGroup ≤ 2048
  below : ∀ s ∈ st.gs.queued, s.binIndex < 32768

/-- The queue after a call holds old sessions, up to a rebase, and a new one at most. -/
theorem calendarStep_binIndex {st : GroupState α} (h : GroupInv st.mem st.gs)
    (c : CalendarCall α) (hs : s ∈ (st.calendarStep c).gs.queued) :
    (∃ t ∈ st.gs.queued, s.binIndex = t.binIndex) ∨
      ∃ entry w, s.binIndex = newSessionBin st.gs entry w := by
  rcases (h.calendarEffect c).session h.calendar hs with
    ⟨t, ht, off, rfl⟩ | ⟨id, w, ud, cf, entry, -, -, rfl⟩
  · exact .inl ⟨t, ht, rfl⟩
  · exact .inr ⟨entry, w.toNat, rfl⟩

theorem WithinReach.step {st : GroupState α} (h : WithinReach st) (c : CalendarCall α) :
    WithinReach (st.calendarStep c) := by
  have hgeo := GroupState.calendarStep_geometry h.inv c
  have hbins : (st.calendarStep c).gs.binsPerGroup = st.gs.binsPerGroup :=
    congrArg Geometry.binsPerGroup hgeo
  constructor
  · exact h.inv.calendarStep c
  · exact hbins ▸ h.binsPos
  · exact hbins ▸ h.binsLe
  · intro s hs
    rcases calendarStep_binIndex h.inv c hs with ⟨t, ht, heq⟩ | ⟨entry, w, heq⟩
    · rw [heq]
      exact h.below t ht
    · rw [heq]
      exact newSessionBin_lt h.binsPos h.binsLe entry w

theorem Fresh.binsPerGroup {numGroups binsPerGroup totalCapacity maxEntries : ℕ}
    {st : GroupState α} (h : Fresh numGroups binsPerGroup totalCapacity maxEntries st) :
    st.gs.binsPerGroup = binsPerGroup := by
  obtain ⟨mem, entries, -, hinit⟩ := h.init
  have hgeo := (init_some hinit).2.2.2.2.2.2.2.2.2.2.1
  exact congrArg Geometry.binsPerGroup hgeo

theorem Fresh.binsPerGroup_pos {numGroups binsPerGroup totalCapacity maxEntries : ℕ}
    {st : GroupState α} (h : Fresh numGroups binsPerGroup totalCapacity maxEntries st) :
    0 < binsPerGroup := by
  obtain ⟨mem, entries, -, hinit⟩ := h.init
  rcases Nat.eq_zero_or_pos binsPerGroup with hzero | hpos
  · simp [groupSchedulerInitWithEntries, hzero] at hinit
  · exact hpos

/-- In every state of every run of every geometry, both walks visit a queued session
exactly when its bin is below 32768. They visit all of them when the geometry has at
most 32768 bins or at most 2048 bins in a group. -/
theorem session_visited_iff {numGroups binsPerGroup totalCapacity maxEntries : ℕ}
    {st₀ : GroupState α} (hfresh : Fresh numGroups binsPerGroup totalCapacity maxEntries st₀)
    (calls : List (CalendarCall α)) :
    let gs := (run GroupState.calendarStep st₀ calls).gs
    (∀ s ∈ gs.queued, s ∈ gs.binHeads s.binIndex ∧ (Visited gs s ↔ s.binIndex < 32768)) ∧
      (u32 (numGroups * binsPerGroup) ≤ 32768 ∨ binsPerGroup ≤ 2048 →
        ∀ s ∈ gs.queued, Visited gs s) := by
  have hinv := hfresh.calendarRun calls
  constructor
  · intro s hs
    exact ⟨hinv.calendar.mem_queued.mp hs, hinv.calendar.visited_iff hs⟩
  · intro hsmall s hs
    rw [hinv.calendar.visited_iff hs]
    rcases hsmall with hbins | hbins
    · have hgeo : (run GroupState.calendarStep st₀ calls).gs.geometry = st₀.gs.geometry := by
        have hrun : GroupInv (run GroupState.calendarStep st₀ calls).mem
            (run GroupState.calendarStep st₀ calls).gs ∧
            (run GroupState.calendarStep st₀ calls).gs.geometry = st₀.gs.geometry :=
          run_invariant_all
            (I := fun st : GroupState α => GroupInv st.mem st.gs ∧ st.gs.geometry = st₀.gs.geometry)
            (fun st c hst => ⟨hst.1.calendarStep c,
              (GroupState.calendarStep_geometry hst.1 c).trans hst.2⟩) ⟨hfresh.inv, rfl⟩ calls
        exact hrun.2
      have hn : (run GroupState.calendarStep st₀ calls).gs.numBins =
          u32 (numGroups * binsPerGroup) :=
        (congrArg Geometry.numBins hgeo).trans hfresh.numBins
      have hlt := hinv.calendar.lt_numBins (hinv.calendar.mem_queued.mp hs)
      omega
    · have hreach : WithinReach st₀ := by
        constructor
        · exact hfresh.inv
        · exact hfresh.binsPerGroup ▸ hfresh.binsPerGroup_pos
        · exact hfresh.binsPerGroup ▸ hbins
        · intro t ht
          simp [hfresh.queued] at ht
      exact (run_invariant_all (fun _ c hst => hst.step c) hreach calls).below s hs

theorem newGroup_wide_isSome : (newGroup ℕ 16 4096 100 2 2).isSome = true := by decide +kernel

/-- Sixteen groups of 4096 bins. -/
def wideGroup : GroupState ℕ := (newGroup ℕ 16 4096 100 2 2).get newGroup_wide_isSome

theorem wideGroup_fresh : Fresh 16 4096 100 2 wideGroup :=
  newGroup_fresh (Option.some_get newGroup_wide_isSome).symm

theorem session_visited_iff_wide :
    let gs := (run GroupState.calendarStep wideGroup
      [.group (.configureEntry 0 (.weight 1)), .group (.enqueue 0 1 (some 1) false)]).gs
    (∀ s ∈ gs.queued, s ∈ gs.binHeads s.binIndex ∧ (Visited gs s ↔ s.binIndex < 32768)) ∧
      (u32 (16 * 4096) ≤ 32768 ∨ 4096 ≤ 2048 → ∀ s ∈ gs.queued, Visited gs s) :=
  session_visited_iff wideGroup_fresh _

/-- A session of the last group, in bin 61440. -/
def strandingCalls : List (CalendarCall ℕ) :=
  [.group (.configureEntry 0 (.rate 1)), .group (.enqueue 0 1000 (some 1) false)]

/-- It is queued, no walk visits it and dequeue finds nothing. -/
theorem stranded_session :
    Fresh 16 4096 100 2 wideGroup ∧
      let gs := (run GroupState.calendarStep wideGroup strandingCalls).gs
      (∃ s ∈ gs.queued, ¬ Visited gs s) ∧ gs.activeSessionCount = 1 ∧
        (groupSchedulerDequeue gs).1.isSome = false := by
  refine ⟨wideGroup_fresh, ?_, by decide +kernel, by decide +kernel⟩
  have hinv := wideGroup_fresh.calendarRun strandingCalls
  have hbin : ∃ s ∈ ((run GroupState.calendarStep wideGroup strandingCalls).gs.binHeads
      61440).head?, s.binIndex = 61440 := by
    decide +kernel
  obtain ⟨s, hs, hbin⟩ := hbin
  have hqueued : s ∈ (run GroupState.calendarStep wideGroup strandingCalls).gs.queued :=
    hinv.calendar.mem_queued.mpr (hbin ▸ List.mem_of_head? hs)
  refine ⟨s, hqueued, fun hvisit => ?_⟩
  have hlt := (hinv.calendar.visited_iff hqueued).mp hvisit
  omega

end Hwfq
