import Hwfq.SessionRemoval

/-!
# The cached minima of one group scheduler

The cached least start time is written by insertion, scanned for again by removal and moved
by a rebase; it is exact in every run. The session with the least finish time and that finish
time are cached too. Removal only clears this pair and the search overwrites half of it, so it
is exact as long as no session is taken from in front of another.
-/
namespace Hwfq
open GuardedRuns

variable {α : Type*} {gs : GroupScheduler α} {mem : Allocator}

/-! ## The least start time -/

/-- In every state of every run `min_start_time` is the least start time of the queue, and
`UINT64_MAX` for an empty queue. -/
theorem min_start_time_exact {numGroups binsPerGroup totalCapacity maxEntries : ℕ}
    {st₀ : GroupState α} (hfresh : Fresh numGroups binsPerGroup totalCapacity maxEntries st₀)
    (hbins : st₀.gs.numBins ≤ 32768) (calls : List (GroupCall α)) :
    let gs := (run GroupState.step st₀ calls).gs
    (gs.queued = 0 → gs.minStartTime = uint64Max) ∧
      (gs.queued ≠ 0 → IsLeast {t | ∃ s ∈ gs.queued, s.startTime = t} gs.minStartTime) := by
  have hrun := (hfresh.searchable hbins).run calls
  constructor
  · intro hempty
    rcases hrun.cache.least.attained with hmax | ⟨s, hs, -⟩
    · exact hmax
    · rw [hempty] at hs
      cases hs
  · intro hqueued
    obtain ⟨s, hs⟩ := Multiset.exists_mem_of_ne_zero hqueued
    have hstamps := hrun.inv.stamps s hs
    have hlt := hrun.cache.lt_max hs (hstamps.1.trans hstamps.2)
    constructor
    · exact hrun.cache.least.attained.resolve_left hlt.ne
    · rintro t ⟨q, hq, rfl⟩
      exact hrun.cache.least.le q hq

theorem min_start_time_exact_default :
    let gs := (run GroupState.step defaultGroup twoEntryCalls).gs
    (gs.queued = 0 → gs.minStartTime = uint64Max) ∧
      (gs.queued ≠ 0 → IsLeast {t | ∃ s ∈ gs.queued, s.startTime = t} gs.minStartTime) :=
  min_start_time_exact defaultGroup_fresh (by decide +kernel) twoEntryCalls

/-! ## The pair of the least finish time -/

/-- `who` is the address of a session of `q` with the least finish time and `f` is that time;
the address is null exactly for an empty queue, and so is the time `UINT64_MAX`. -/
structure MinPair (q : Multiset (SessionState α)) (who : Option Addr) (f : ℕ) : Prop where
  null_iff : who = none ↔ q = 0
  max_iff : f = uint64Max ↔ q = 0
  least : ∀ a, who = some a →
    ∃ s ∈ q, s.addr = a ∧ s.finishTime = f ∧ ∀ t ∈ q, s.finishTime ≤ t.finishTime

def MinFinishExact (gs : GroupScheduler α) : Prop :=
  MinPair gs.queued gs.minSession gs.minFinishTime

section Pair
variable {q : Multiset (SessionState α)} {s : SessionState α} {who : Option Addr} {f : ℕ}

theorem MinPair.empty : MinPair (0 : Multiset (SessionState α)) none uint64Max where
  null_iff := iff_of_true rfl rfl
  max_iff := iff_of_true rfl rfl
  least _ ha := nomatch ha

/-- The pair of a queue that is not empty names one of its sessions. -/
theorem MinPair.named (h : MinPair q who f) (hq : q ≠ 0) :
    ∃ s ∈ q, who = some s.addr ∧ s.finishTime = f ∧ ∀ t ∈ q, s.finishTime ≤ t.finishTime := by
  cases hwho : who with
  | none => exact absurd (h.null_iff.mp hwho) hq
  | some a =>
    obtain ⟨s, hs, rfl, hf, hleast⟩ := h.least a hwho
    exact ⟨s, hs, rfl, hf, hleast⟩

/-- A pair that names a session of the queue is exact when the time is not the empty value. -/
theorem MinPair.of_named (hs : s ∈ q) (hlt : s.finishTime < uint64Max)
    (hleast : ∀ t ∈ q, s.finishTime ≤ t.finishTime) :
    MinPair q (some s.addr) s.finishTime := by
  have hq : q ≠ 0 := by
    rintro rfl
    cases hs
  constructor
  · exact iff_of_false (by simp) hq
  · exact iff_of_false hlt.ne hq
  · intro a ha
    exact ⟨s, hs, Option.some.inj ha, rfl, hleast⟩

theorem MinPair.lt_max (h : MinPair q who f) (hstamps : ∀ t ∈ q, t.finishTime ≤ uint64Max)
    (hq : q ≠ 0) : f < uint64Max := by
  obtain ⟨s, hs, -, rfl, -⟩ := h.named hq
  exact (hstamps s hs).lt_of_ne fun hmax => hq (h.max_iff.mp hmax)

/-- Insertion keeps the pair exact, but for a saturated session in an empty queue. -/
theorem MinPair.insert_iff (h : MinPair q who f) (hstamps : ∀ t ∈ q, t.finishTime ≤ uint64Max) :
    MinPair (s ::ₘ q) (if s.finishTime < f then some s.addr else who)
        (if s.finishTime < f then s.finishTime else f) ↔
      q ≠ 0 ∨ s.finishTime < uint64Max := by
  by_cases hq : q = 0
  · have hf := h.max_iff.mpr hq
    have hwho := h.null_iff.mpr hq
    subst hq hf hwho
    split_ifs with hlt
    · refine iff_of_true (MinPair.of_named (Multiset.mem_cons_self s 0) hlt ?_) (.inr hlt)
      intro t ht
      rw [Multiset.cons_zero, Multiset.mem_singleton] at ht
      exact ht ▸ le_rfl
    · refine iff_of_false (fun hpair => ?_) (by simp [hlt])
      exact Multiset.cons_ne_zero (hpair.null_iff.mp rfl)
  · have hmax := h.lt_max hstamps hq
    obtain ⟨t, ht, rfl, rfl, hleast⟩ := h.named hq
    refine iff_of_true ?_ (.inl hq)
    split_ifs with hlt
    · apply MinPair.of_named (Multiset.mem_cons_self s q) (hlt.trans hmax)
      intro r hr
      rcases Multiset.mem_cons.mp hr with rfl | hr
      · exact le_rfl
      · exact hlt.le.trans (hleast r hr)
    · apply MinPair.of_named (Multiset.mem_cons_of_mem ht) hmax
      intro r hr
      rcases Multiset.mem_cons.mp hr with rfl | hr
      · exact Nat.le_of_not_lt hlt
      · exact hleast r hr

/-- Removal keeps the pair exact when the queue gets empty, or when it takes another session
than the cached one and the time written before is still the cached one. -/
theorem MinPair.remove_iff (h : MinPair (s ::ₘ q) who f)
    (hstamps : ∀ t ∈ s ::ₘ q, t.finishTime ≤ uint64Max)
    (haddrs : ((s ::ₘ q).map (·.addr)).Nodup) (f' : ℕ) :
    MinPair q (if who = some s.addr then none else who)
        (if who = some s.addr then uint64Max else f') ↔
      q = 0 ∨ who ≠ some s.addr ∧ f' = f := by
  have hinj := Multiset.inj_on_of_nodup_map haddrs
  have hmax := h.lt_max hstamps Multiset.cons_ne_zero
  obtain ⟨t, ht, rfl, rfl, hleast⟩ := h.named Multiset.cons_ne_zero
  split_ifs with hsame
  · constructor
    · exact fun hpair => .inl (hpair.null_iff.mp rfl)
    · rintro (rfl | ⟨hne, -⟩)
      · exact MinPair.empty
      · exact absurd hsame hne
  · have htq : t ∈ q := by
      rcases Multiset.mem_cons.mp ht with rfl | htq
      · exact absurd rfl hsame
      · exact htq
    constructor
    · intro hpair
      obtain ⟨r, hr, haddr, hf, -⟩ := hpair.least t.addr rfl
      obtain rfl : r = t := hinj r (Multiset.mem_cons_of_mem hr) t ht haddr
      exact .inr ⟨hsame, hf.symm⟩
    · rintro (rfl | ⟨-, rfl⟩)
      · cases htq
      · exact MinPair.of_named htq hmax fun r hr => hleast r (Multiset.mem_cons_of_mem hr)

/-- A rebase keeps the pair exact: no time gets larger and the order stays. -/
theorem MinPair.rebase (h : MinPair q who f) (hstamps : ∀ t ∈ q, t.finishTime ≤ uint64Max)
    (off : ℕ) : MinPair (q.map (·.rebase off)) who (rebaseCached off f) := by
  by_cases hq : q = 0
  · have hf := h.max_iff.mpr hq
    have hwho := h.null_iff.mpr hq
    subst hq hf hwho
    rw [Multiset.map_zero, rebaseCached, if_neg (by simp)]
    exact MinPair.empty
  · have hmax := h.lt_max hstamps hq
    obtain ⟨s, hs, rfl, rfl, hleast⟩ := h.named hq
    rw [rebaseCached, if_pos hmax.ne]
    apply MinPair.of_named (s := s.rebase off) (Multiset.mem_map_of_mem _ hs)
    · simp only [SessionState.rebase, rebaseTime_eq_sub]
      omega
    · intro r hr
      obtain ⟨t, ht, rfl⟩ := Multiset.mem_map.mp hr
      have hle := hleast t ht
      simp only [SessionState.rebase, rebaseTime_eq_sub]
      omega

end Pair

/-! ## What the operations write -/

section Writes
variable {s : SessionState α}

theorem inserted_minPair (hbin : sessionBin gs s < gs.numBins) :
    (inserted gs s).minSession =
        (if s.finishTime < gs.minFinishTime then some s.addr else gs.minSession) ∧
      (inserted gs s).minFinishTime =
        if s.finishTime < gs.minFinishTime then s.finishTime else gs.minFinishTime := by
  rw [inserted, calendarInsertSession, if_neg (Nat.not_le.mpr hbin)]
  exact ⟨rfl, rfl⟩

theorem unlinkSession_minPair (gs : GroupScheduler α) (s : SessionState α) :
    (unlinkSession gs s).minSession = gs.minSession ∧
      (unlinkSession gs s).minFinishTime = gs.minFinishTime := by
  dsimp only [unlinkSession]
  split_ifs <;> exact ⟨rfl, rfl⟩

theorem removed_minPair (hbin : s.binIndex < gs.numBins) :
    (removed gs s).minSession = (if gs.minSession = some s.addr then none else gs.minSession) ∧
      (removed gs s).minFinishTime =
        if gs.minSession = some s.addr then uint64Max else gs.minFinishTime := by
  obtain ⟨hsession, htime⟩ := unlinkSession_minPair gs s
  dsimp only [removed, calendarRemoveSession]
  rw [if_neg (Nat.not_le.mpr hbin), hsession]
  split_ifs <;> first | exact ⟨rfl, rfl⟩ | exact ⟨hsession, htime⟩

theorem updateVirtualTime_minPair (gs : GroupScheduler α) (w : ℕ) :
    (groupSchedulerUpdateVirtualTime gs w).minSession = gs.minSession ∧
      (groupSchedulerUpdateVirtualTime gs w).minFinishTime =
        rebaseCached (updateOffset gs w) gs.minFinishTime := by
  rcases updateVirtualTime_cases gs w with ⟨hlt, heq⟩ | ⟨hge, heq⟩
  · rw [heq, updateOffset, rebaseOffsetAt, if_pos hlt, rebaseCached_zero]
    exact ⟨rfl, rfl⟩
  · rw [heq, updateOffset, rebaseOffsetAt, if_neg (Nat.not_lt.mpr hge)]
    exact ⟨rfl, rfl⟩

theorem Fresh.minFinishExact {numGroups binsPerGroup totalCapacity maxEntries : ℕ}
    {st : GroupState α} (h : Fresh numGroups binsPerGroup totalCapacity maxEntries st) :
    MinFinishExact st.gs := by
  have hqueue := h.queued
  obtain ⟨mem, entries, -, hinit⟩ := h.init
  have hpair : st.gs.minSession = none ∧ st.gs.minFinishTime = uint64Max := by
    unfold groupSchedulerInitWithEntries at hinit
    dsimp only at hinit
    split at hinit
    · cases hinit
    split at hinit
    · cases hinit
    split at hinit
    · cases hinit
    split at hinit
    · cases hinit
    · obtain ⟨hgs, -⟩ := Prod.mk.inj hinit
      rw [← Option.some.inj hgs]
      exact ⟨rfl, rfl⟩
  rw [MinFinishExact, hqueue, hpair.1, hpair.2]
  exact MinPair.empty

end Writes

/-! ## Runs -/

/-- The calls that leave an exact pair exact. Only enqueue, dequeue and the removal of a session
can spoil it. -/
def KeepsMinFinish (st : GroupState α) : CalendarCall α → Prop
  | .group (.enqueue id w _ _) => st.mem.ok 0 = true → ∀ entry,
      Admissible st.gs id.toNat w.toNat entry → st.gs.queued ≠ 0 ∨
        max st.gs.virtualTime entry.lastFinishTime +
          serviceIntervalOf w.toNat (entryRate st.gs entry) < uint64Max
  | .group .dequeue => ∀ s, st.gs.activeSessionCount ≠ 0 →
      findEligibleMinBitfield st.gs (dequeueTime st.gs) = some s →
      st.gs.queued = {s} ∨ st.gs.minSession ≠ some s.addr ∧ s.finishTime = st.gs.minFinishTime
  | .removeSession addr => ∀ s, st.gs.sessionAt addr = some s →
      st.gs.queued = {s} ∨ st.gs.minSession ≠ some s.addr
  | _ => True

theorem GroupInv.finish_le (h : GroupInv mem gs) : ∀ s ∈ gs.queued, s.finishTime ≤ uint64Max :=
  fun s hs => (h.stamps s hs).2

theorem MinFinishExact.of_queueView {gs' : GroupScheduler α} (h : MinFinishExact gs)
    (hq : gs'.queueView = gs.queueView) : MinFinishExact gs' := by
  rw [MinFinishExact, queued_of_queueView hq,
    show gs'.minSession = _ from congrArg QueueView.minSession hq,
    show gs'.minFinishTime = _ from congrArg QueueView.minFinishTime hq]
  exact h

section Steps
variable (hinv : GroupInv mem gs) (h : MinFinishExact gs)
include hinv h

theorem MinFinishExact.enqueued_iff {id w : ℕ} {entry : EntryConfig}
    (hadm : Admissible gs id w entry) (addr : Addr) (ud : Option α) (cf : Bool) :
    MinFinishExact (enqueued gs id (newSession gs entry addr id w ud cf)) ↔ gs.queued ≠ 0 ∨
      max gs.virtualTime entry.lastFinishTime + serviceIntervalOf w (entryRate gs entry) <
        uint64Max := by
  have hbin := hadm.fits addr ud cf
  obtain ⟨hsession, htime⟩ := inserted_minPair hbin
  have hfinish := newSession_finishTime gs entry addr id w ud cf
  rw [newSession_startTime] at hfinish
  have hinterval : (newSession gs entry addr id w ud cf).serviceInterval =
      serviceIntervalOf w (entryRate gs entry) := rfl
  rw [hinterval] at hfinish
  have hlt : (newSession gs entry addr id w ud cf).finishTime < uint64Max ↔
      max gs.virtualTime entry.lastFinishTime + serviceIntervalOf w (entryRate gs entry) <
        uint64Max := by
    rw [hfinish]
    split_ifs <;> omega
  rw [← hlt, MinFinishExact, enqueued_queued id hbin,
    show (enqueued gs id _).minSession = _ from hsession,
    show (enqueued gs id _).minFinishTime = _ from htime]
  exact MinPair.insert_iff (s := { newSession gs entry addr id w ud cf with
    binIndex := sessionBin gs (newSession gs entry addr id w ud cf) }) h hinv.finish_le

theorem MinFinishExact.dequeued_iff {s : SessionState α} (hs : s ∈ gs.queued) :
    MinFinishExact (dequeued gs s) ↔
      gs.queued = {s} ∨ gs.minSession ≠ some s.addr ∧ s.finishTime = gs.minFinishTime := by
  have hqueue := dequeued_queued hinv.calendar hs
  have hbin := hinv.calendar.lt_numBins (hinv.calendar.mem_queued.mp hs)
  obtain ⟨hsession, htime⟩ :=
    @removed_minPair _ (gs.retimed (dequeueTime gs) s.finishTime) s hbin
  have haddrs := hinv.calendar.addrs
  have hstamps := hinv.finish_le
  unfold MinFinishExact at h ⊢
  rw [show (dequeued gs s).minSession = _ from hsession,
    show (dequeued gs s).minFinishTime = _ from htime]
  rw [hqueue] at h haddrs hstamps ⊢
  rw [← Multiset.cons_zero s, Multiset.cons_inj_right]
  exact h.remove_iff hstamps haddrs s.finishTime

theorem MinFinishExact.sessionRemoved_iff {s : SessionState α} (hs : s ∈ gs.queued) :
    MinFinishExact (sessionRemoved gs s) ↔ gs.queued = {s} ∨ gs.minSession ≠ some s.addr := by
  have hqueue := sessionRemoved_queued hinv.calendar hs
  have hbin := hinv.calendar.lt_numBins (hinv.calendar.mem_queued.mp hs)
  obtain ⟨hsession, htime⟩ := removed_minPair hbin
  have haddrs := hinv.calendar.addrs
  have hstamps := hinv.finish_le
  unfold MinFinishExact at h ⊢
  rw [show (sessionRemoved gs s).minSession = _ from hsession,
    show (sessionRemoved gs s).minFinishTime = _ from htime]
  rw [hqueue] at h haddrs hstamps ⊢
  rw [← Multiset.cons_zero s, Multiset.cons_inj_right, h.remove_iff hstamps haddrs, and_iff_left rfl]

theorem MinFinishExact.update (w : ℕ) : MinFinishExact (groupSchedulerUpdateVirtualTime gs w) := by
  obtain ⟨hsession, htime⟩ := updateVirtualTime_minPair gs w
  rw [MinFinishExact, updateVirtualTime_queued, hsession, htime]
  exact MinPair.rebase h hinv.finish_le _

end Steps

/-- A call meets the condition exactly when the pair is exact after it. -/
theorem keepsMinFinish_iff {st : GroupState α} (hinv : GroupInv st.mem st.gs)
    (h : MinFinishExact st.gs) (c : CalendarCall α) :
    KeepsMinFinish st c ↔ MinFinishExact (st.calendarStep c).gs := by
  cases hinv.calendarEffect c with
  | absent none after =>
    rw [after]
    refine iff_of_true ?_ h
    intro s hs
    rw [none] at hs
    cases hs
  | @removed addr s found queued after =>
    rw [after, h.sessionRemoved_iff hinv queued]
    constructor
    · intro hkeeps
      exact hkeeps s found
    · intro hcond t ht
      obtain rfl : s = t := Option.some.inj (found.symm.trans ht)
      exact hcond
  | group effect =>
    cases effect with
    | configured view => exact iff_of_true trivial (h.of_queueView view)
    | removed view => exact iff_of_true trivial (h.of_queueView view)
    | refused reason _ same =>
      rw [same]
      refine iff_of_true ?_ h
      intro hmem entry hadm
      rcases reason with hno | hno
      · rw [hmem] at hno
        cases hno
      · exact absurd ⟨entry, hadm⟩ hno
    | @enqueued _ _ _ _ entry granted hadm _ after =>
      rw [after, h.enqueued_iff hinv hadm]
      constructor
      · intro hkeeps
        exact hkeeps granted entry hadm
      · intro hcond _ e he
        obtain rfl : e = entry := Option.some.inj (he.found.symm.trans hadm.found)
        exact hcond
    | missed nothing _ _ after =>
      rw [after]
      refine iff_of_true ?_ h
      intro s hcount hfind
      rcases nothing with hzero | hnone
      · exact absurd hzero hcount
      · rw [hnone] at hfind
        cases hfind
    | @dequeued s busy found _ after =>
      rw [after, h.dequeued_iff hinv (findEligible_some hinv.calendar found).1]
      constructor
      · intro hkeeps
        exact hkeeps s busy found
      · intro hcond t _ ht
        obtain rfl : s = t := Option.some.inj (found.symm.trans ht)
        exact hcond
    | updated after =>
      rw [after]
      exact iff_of_true trivial (h.update hinv _)

/-- Along a run the cached pair is exact in every state exactly when every call meets its
condition: enqueue does not put a saturated session into an empty queue, dequeue and the
removal of a session do not take the cached session from in front of another, and dequeue
takes no session with another finish time than the cached one. -/
theorem min_finish_exact_iff {numGroups binsPerGroup totalCapacity maxEntries : ℕ}
    {st₀ : GroupState α} (hfresh : Fresh numGroups binsPerGroup totalCapacity maxEntries st₀)
    (calls : List (CalendarCall α)) :
    Along GroupState.calendarStep KeepsMinFinish st₀ calls ↔
      ∀ done, done <+: calls → MinFinishExact (run GroupState.calendarStep st₀ done).gs :=
  along_iff_states (I := fun st : GroupState α => GroupInv st.mem st.gs)
    (P := fun st => MinFinishExact st.gs) (fun _ c hinv => hinv.calendarStep c)
    (fun _ c hinv h => keepsMinFinish_iff hinv h c)
    hfresh.inv hfresh.minFinishExact calls

/-- The session of an entry comes and goes alone. -/
def loneSession : List (CalendarCall ℕ) :=
  [.group (.configureEntry 0 (.weight 1)), .group (.enqueue 0 5 (some 1) false), .group .dequeue]

theorem min_finish_exact_iff_default :
    Along GroupState.calendarStep KeepsMinFinish defaultGroup loneSession ↔
      ∀ done, done <+: loneSession →
        MinFinishExact (run GroupState.calendarStep defaultGroup done).gs :=
  min_finish_exact_iff defaultGroup_fresh loneSession

/-- One of two queued sessions is served. -/
def servedFirst : List (CalendarCall ℕ) :=
  twoEntryCalls.map .group ++ [.group .dequeue]

/-- The pair is empty with a session still queued. -/
theorem not_min_finish_exact :
    let gs := (run GroupState.calendarStep defaultGroup servedFirst).gs
    gs.activeSessionCount = 1 ∧ gs.minSession = none ∧ gs.minFinishTime = uint64Max ∧
      ¬ MinFinishExact gs := by
  have hinv := defaultGroup_fresh.calendarRun servedFirst
  have hvalues : (run GroupState.calendarStep defaultGroup servedFirst).gs.activeSessionCount = 1 ∧
      (run GroupState.calendarStep defaultGroup servedFirst).gs.minSession = none ∧
      (run GroupState.calendarStep defaultGroup servedFirst).gs.minFinishTime = uint64Max := by
    decide +kernel
  refine ⟨hvalues.1, hvalues.2.1, hvalues.2.2, ?_⟩
  intro hexact
  have hcount := hinv.count
  rw [hexact.null_iff.mp hvalues.2.1, hvalues.1] at hcount
  simp [u32] at hcount

end Hwfq
