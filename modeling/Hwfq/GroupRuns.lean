import Hwfq.EntryPool
import Hwfq.GroupInvariant
import Hwfq.GuardedRuns

/-!
# Runs of one group scheduler

A group scheduler as a machine: its state is the scheduler with the allocator
behind it, its inputs are the calls of `hwfq_group_scheduler.c`. Every run from a
fresh scheduler keeps the invariant. With at most 32768 bins the cached least
start time is exact as well, saturated time stamps and rebases included, and the
selection is the WF2Q+ rule over the whole queue.
-/
namespace Hwfq
open GuardedRuns MinSearch Bins

variable {α : Type*} {gs : GroupScheduler α} {mem : Allocator}

/-- One call on a group scheduler. -/
inductive GroupCall (α : Type*) where
  | configureEntry (entryId : UInt32) (allocation : Allocation)
  | removeEntry (entryId : UInt32)
  | enqueue (entryId : UInt32) (workSize : UInt64) (userData : Option α) (cleanupFn : Bool)
  | dequeue
  | updateVirtualTime (workCompleted : UInt64)

structure GroupState (α : Type*) where
  mem : Allocator
  gs : GroupScheduler α

def GroupState.step (st : GroupState α) : GroupCall α → GroupState α
  | .configureEntry id a => { st with gs := (groupSchedulerConfigureEntry st.gs id.toNat a).2 }
  | .removeEntry id => { st with gs := (groupSchedulerRemoveEntry st.gs id.toNat).2 }
  | .enqueue id w ud cf =>
      let r := groupSchedulerEnqueue st.mem st.gs id.toNat w.toNat ud cf
      ⟨r.mem, r.gs⟩
  | .dequeue => { st with gs := (groupSchedulerDequeue st.gs).2 }
  | .updateVirtualTime w => { st with gs := groupSchedulerUpdateVirtualTime st.gs w.toNat }

/-- The session a call returns. -/
def GroupState.returned (st : GroupState α) : GroupCall α → Option (SessionState α)
  | .dequeue => (groupSchedulerDequeue st.gs).1
  | _ => none

/-- No slot of the store is configured yet. -/
def Unconfigured (entries : ChunkedEntries) : Prop :=
  ∀ id e, hwfqChunkedGet entries id = some e → e.configured = false

/-- `st` is a scheduler that `group_scheduler_init_with_entries` has just returned. -/
structure Fresh (numGroups binsPerGroup totalCapacity maxEntries : ℕ) (st : GroupState α) :
    Prop where
  init : ∃ mem entries, Unconfigured entries ∧
    groupSchedulerInitWithEntries α mem numGroups binsPerGroup totalCapacity maxEntries entries =
      (some st.gs, st.mem)

/-! ## A fresh scheduler -/

theorem hwfqAlloc_size {size : ℕ} {p : Addr} {mem' : Allocator}
    (h : hwfqAlloc mem size = (some p, mem')) : size ≠ 0 := by
  rintro rfl
  simp [hwfqAlloc] at h

/-- What a successful construction returns. -/
theorem init_some {numGroups binsPerGroup totalCapacity maxEntries : ℕ} {entries : ChunkedEntries}
    {mem' : Allocator} (h : groupSchedulerInitWithEntries α mem numGroups binsPerGroup totalCapacity
      maxEntries entries = (some gs, mem')) :
    (∀ b, gs.binHeads b = []) ∧ (∀ w, gs.binBitfield w = 0#32) ∧
      (∀ w, gs.groupBitfield w = 0#32) ∧ gs.entries = entries ∧ gs.configuredEntries = [] ∧
      gs.allocatedRateCapacity = 0 ∧ gs.totalWeight = 0 ∧ gs.virtualTime = 0 ∧
      gs.activeSessionCount = 0 ∧ gs.minStartTime = uint64Max ∧
      gs.geometry = ⟨numGroups, binsPerGroup, u32 (numGroups * binsPerGroup),
        u32 (u32 (numGroups * binsPerGroup) + 31) / 32, 1⟩ ∧
      u32 (u32 (numGroups * binsPerGroup) + 31) / 32 ≠ 0 ∧
      gs.totalCapacity = totalCapacity ∧ gs.maxEntries = maxEntries := by
  unfold groupSchedulerInitWithEntries at h
  split_ifs at h with hargs
  · cases h
  dsimp only at h
  split at h
  · cases h
  split at h
  · cases h
  · rename_i hwords
    split at h
    · cases h
    · cases h
      exact ⟨fun _ => rfl, fun _ => rfl, fun _ => rfl, rfl, rfl, rfl, rfl, rfl, rfl, rfl, rfl,
        hwfqAlloc_size hwords, rfl, rfl⟩

/-- A bit array that could be allocated has room for every bin: the sizes at which
its length wraps ask for no memory at all. -/
theorem words_of_alloc {n : ℕ} (h : u32 (u32 n + 31) / 32 ≠ 0) :
    u32 n ≤ u32 (u32 n + 31) / 32 * 32 := by
  unfold u32 at *
  omega

theorem activeEntry_of_unconfigured (h : Unconfigured gs.entries) (id : ℕ) :
    activeEntry gs id = none := by
  rw [activeEntry_none_iff, groupSchedulerFindEntry, Option.filter_eq_none_iff]
  intro e he
  simp [h id e he]

section Init
variable {numGroups binsPerGroup totalCapacity maxEntries : ℕ} {st : GroupState α}
  (h : Fresh numGroups binsPerGroup totalCapacity maxEntries st)
include h

theorem Fresh.numBins : st.gs.numBins = u32 (numGroups * binsPerGroup) := by
  obtain ⟨mem, entries, -, hinit⟩ := h.init
  exact congrArg Geometry.numBins (init_some hinit).2.2.2.2.2.2.2.2.2.2.1

theorem Fresh.virtualTime : st.gs.virtualTime = 0 := by
  obtain ⟨mem, entries, -, hinit⟩ := h.init
  exact (init_some hinit).2.2.2.2.2.2.2.1

theorem Fresh.minStartTime : st.gs.minStartTime = uint64Max := by
  obtain ⟨mem, entries, -, hinit⟩ := h.init
  exact (init_some hinit).2.2.2.2.2.2.2.2.2.1

theorem Fresh.queued : st.gs.queued = 0 := by
  obtain ⟨mem, entries, -, hinit⟩ := h.init
  exact contents_eq_zero fun b _ => (init_some hinit).1 b

theorem Fresh.activeEntry (id : ℕ) : activeEntry st.gs id = none := by
  obtain ⟨mem, entries, hun, hinit⟩ := h.init
  have hent := (init_some hinit).2.2.2.1
  exact activeEntry_of_unconfigured (hent ▸ hun) id

theorem Fresh.inv : GroupInv st.mem st.gs := by
  obtain ⟨mem, entries, hun, hinit⟩ := h.init
  obtain ⟨hbins, hbits, hgroups, hent, hlist, hrate, hweight, hvt, hcount, hmin, hgeo, hwords, -, -⟩ :=
    init_some hinit
  have hn : st.gs.numBins = u32 (numGroups * binsPerGroup) := h.numBins
  have hsize : st.gs.binBitfieldSize = u32 (u32 (numGroups * binsPerGroup) + 31) / 32 :=
    congrArg Geometry.binBitfieldSize hgeo
  have hqueue := h.queued
  exact
    { calendar := CalendarInv.of_empty hbins hbits hgroups (by
        rw [hn, hsize]
        exact words_of_alloc hwords)
      fresh := fun s hs => by simp [hqueue] at hs
      stamps := fun s hs => by simp [hqueue] at hs
      clock := hvt.trans_lt (Nat.zero_lt_one.trans one_lt_uint64Max)
      cache := hmin.le
      tags := fun id e he => by simp [h.activeEntry] at he
      sums := ⟨hrate.trans_le (Nat.zero_le _), hweight.trans_le (Nat.zero_le _)⟩
      nodup := hlist ▸ List.nodup_nil
      listed := fun id => by simp [hlist, h.activeEntry]
      count := by
        rw [hcount, hqueue]
        unfold u32
        rfl }

end Init

/-! ## Making a fresh scheduler -/

/-- Hand out the next `n` ids of a store. -/
def allocEntries (mem : Allocator) (ce : ChunkedEntries) : ℕ → Allocator × ChunkedEntries
  | 0 => (mem, ce)
  | n + 1 =>
      let r := hwfqChunkedEntriesAlloc mem ce
      allocEntries r.2.1 r.2.2 n

theorem Unconfigured.alloc {ce : ChunkedEntries} {live : Finset ℕ} (hpool : PoolInv ce live)
    (h : Unconfigured ce) (mem : Allocator) :
    Unconfigured (hwfqChunkedEntriesAlloc mem ce).2.2 := by
  obtain ⟨-, ⟨-, -, -, hext⟩ | ⟨id, -, -, -, -, hout⟩⟩ := hpool.alloc mem
  · intro j e he
    rcases hext j with heq | ⟨-, hzero⟩
    · exact h j e (heq ▸ he)
    · rw [hzero] at he
      cases he
      rfl
  · intro j e he
    by_cases hj : j = id
    · obtain ⟨e', he', hidle, -⟩ := hout.given
      rw [hj, he'] at he
      cases he
      exact hidle
    · rcases hout.others j hj with heq | ⟨-, hzero⟩
      · exact h j e (heq ▸ he)
      · rw [hzero] at he
        cases he
        rfl

theorem Unconfigured.allocEntries {ce : ChunkedEntries} {live : Finset ℕ} (hpool : PoolInv ce live)
    (h : Unconfigured ce) (mem : Allocator) (n : ℕ) : Unconfigured (allocEntries mem ce n).2 := by
  induction n generalizing mem ce live with
  | zero => exact h
  | succ n ih =>
    obtain ⟨-, ⟨-, -, hinv, -⟩ | ⟨id, -, -, -, hinv, -⟩⟩ := hpool.alloc mem
    · exact ih hinv (h.alloc hpool mem) _
    · exact ih hinv (h.alloc hpool mem) _

/-- A scheduler over a new store with `n` ids handed out, made with memory to spare. -/
def newGroup (α : Type*) (numGroups binsPerGroup totalCapacity maxEntries n : ℕ) :
    Option (GroupState α) :=
  let store := allocEntries ⟨fun _ => true, 1⟩ (hwfqChunkedEntriesInit maxEntries) n
  let made := groupSchedulerInitWithEntries α store.1 numGroups binsPerGroup totalCapacity
    maxEntries store.2
  made.1.map fun gs => ⟨made.2, gs⟩

theorem newGroup_fresh {numGroups binsPerGroup totalCapacity maxEntries n : ℕ} {st : GroupState α}
    (h : newGroup α numGroups binsPerGroup totalCapacity maxEntries n = some st) :
    Fresh numGroups binsPerGroup totalCapacity maxEntries st := by
  obtain ⟨gs, hgs, rfl⟩ := Option.map_eq_some_iff.mp h
  have hnone : Unconfigured (hwfqChunkedEntriesInit maxEntries) := fun j e he => by
    simp [hwfqChunkedGet, hwfqChunkedEntriesInit] at he
  exact ⟨_, _, hnone.allocEntries (PoolInv.init maxEntries) _ n, Prod.ext hgs rfl⟩

/-! ## Steps and runs -/

theorem GroupInv.step {st : GroupState α} (h : GroupInv st.mem st.gs) (c : GroupCall α) :
    GroupInv (st.step c).mem (st.step c).gs := by
  cases c with
  | configureEntry id a => exact h.configure _ a
  | removeEntry id => exact h.removeEntry _
  | enqueue id w ud cf => exact h.enqueue _ _ ud cf
  | dequeue => exact h.dequeue
  | updateVirtualTime w => exact h.update _

/-- What one call does to the scheduler of state `st`, `st'` being the state after it. -/
inductive GroupEffect (st st' : GroupState α) : GroupCall α → Prop
  | configured {id a} (view : st'.gs.queueView = st.gs.queueView) (mem : st'.mem = st.mem) :
      GroupEffect st st' (.configureEntry id a)
  | removed {id} (view : st'.gs.queueView = st.gs.queueView) (mem : st'.mem = st.mem) :
      GroupEffect st st' (.removeEntry id)
  | refused {id w ud cf}
      (reason : st.mem.ok 0 = false ∨ ¬ ∃ entry, Admissible st.gs id.toNat w.toNat entry)
      (session : (groupSchedulerEnqueue st.mem st.gs id.toNat w.toNat ud cf).session = none)
      (same : st'.gs = st.gs) (next : st.mem.next ≤ st'.mem.next) :
      GroupEffect st st' (.enqueue id w ud cf)
  | enqueued {id w ud cf entry} (granted : st.mem.ok 0 = true)
      (admissible : Admissible st.gs id.toNat w.toNat entry)
      (session : (groupSchedulerEnqueue st.mem st.gs id.toNat w.toNat ud cf).session =
        some st.mem.next)
      (after : st'.gs =
        enqueued st.gs id.toNat (newSession st.gs entry st.mem.next id.toNat w.toNat ud cf))
      (next : st'.mem.next = st.mem.next + 1) : GroupEffect st st' (.enqueue id w ud cf)
  | missed {t} (nothing : st.gs.activeSessionCount = 0 ∨
        findEligibleMinBitfield st.gs (dequeueTime st.gs) = none)
      (later : st.gs.virtualTime ≤ t) (returned : (groupSchedulerDequeue st.gs).1 = none)
      (after : st'.gs = st.gs.at t) (mem : st'.mem = st.mem) : GroupEffect st st' .dequeue
  | dequeued {s} (busy : st.gs.activeSessionCount ≠ 0)
      (found : findEligibleMinBitfield st.gs (dequeueTime st.gs) = some s)
      (returned : (groupSchedulerDequeue st.gs).1 = some s)
      (after : st'.gs = dequeued st.gs s) (mem : st'.mem = st.mem) : GroupEffect st st' .dequeue
  | updated {w} (after : st'.gs = groupSchedulerUpdateVirtualTime st.gs w.toNat)
      (mem : st'.mem = st.mem) : GroupEffect st st' (.updateVirtualTime w)

theorem GroupInv.stepEffect {st : GroupState α} (h : GroupInv st.mem st.gs) (c : GroupCall α) :
    GroupEffect st (st.step c) c := by
  cases c with
  | configureEntry id a => exact .configured (configureEntry_queueView h.sums _ a) rfl
  | removeEntry id => exact .removed (removeEntry_queueView _ _) rfl
  | enqueue id w ud cf =>
    rcases enqueue_cases st.mem st.gs id.toNat w.toNat ud cf with
      ⟨-, heq, hsession, hnext, hreason⟩ | ⟨-, hsession, hnext, hgranted, entry, hadm, heq⟩
    · exact .refused hreason hsession heq hnext
    · exact .enqueued hgranted hadm hsession heq hnext
  | dequeue =>
    rcases dequeue_cases h.calendar with ⟨hzero, heq⟩ | ⟨-, hnone, heq⟩ | ⟨hbusy, s, hfind, heq⟩
    · have hafter : (st.step .dequeue).gs = st.gs.at st.gs.virtualTime := congrArg Prod.snd heq
      exact .missed (.inl hzero) le_rfl (congrArg Prod.fst heq) hafter rfl
    · exact .missed (.inr hnone) (virtualTime_le_dequeueTime st.gs) (congrArg Prod.fst heq)
        (congrArg Prod.snd heq) rfl
    · exact .dequeued hbusy hfind (congrArg Prod.fst heq) (congrArg Prod.snd heq) rfl
  | updateVirtualTime w => exact .updated rfl rfl

theorem GroupState.step_geometry {st : GroupState α} (h : GroupInv st.mem st.gs) (c : GroupCall α) :
    (st.step c).gs.geometry = st.gs.geometry := by
  cases h.stepEffect c with
  | configured view => exact congrArg QueueView.geometry view
  | removed view => exact congrArg QueueView.geometry view
  | refused _ _ same => rw [same]
  | enqueued _ _ _ after => rw [after, enqueued_geometry]
  | missed _ _ _ after =>
    rw [after]
    rfl
  | dequeued _ _ _ after => rw [after, dequeued_geometry]
  | updated after => rw [after, updateVirtualTime_geometry]

/-! ## The exact cache -/

/-- The cached least start time is exact. A saturated start time can only stand
behind a session that starts earlier and finishes at `UINT64_MAX`; such a session
is never selected, so the empty value of the cache never meets a queued session. -/
structure ExactCache (gs : GroupScheduler α) : Prop where
  least : IsMinStart gs.queued gs.minStartTime
  saturated : ((∃ s ∈ gs.queued, s.startTime = uint64Max) ∨
      ∃ id e, activeEntry gs id = some e ∧ e.lastFinishTime = uint64Max) →
    ∃ s ∈ gs.queued, s.startTime < uint64Max ∧ s.finishTime = uint64Max

/-- Only an empty queue has the empty value in its cache. -/
theorem ExactCache.lt_max (h : ExactCache gs) {s : SessionState α} (hs : s ∈ gs.queued)
    (hstart : s.startTime ≤ uint64Max) : gs.minStartTime < uint64Max := by
  rcases hstart.lt_or_eq with hlt | heq
  · exact (h.least.le s hs).trans_lt hlt
  · obtain ⟨t, ht, hlt, -⟩ := h.saturated (.inl ⟨s, hs, heq⟩)
    exact (h.least.le t ht).trans_lt hlt

theorem ExactCache.of_queueView {gs' : GroupScheduler α} (h : ExactCache gs)
    (hq : gs'.queueView = gs.queueView)
    (htags : ∀ id e, activeEntry gs' id = some e → e.lastFinishTime = uint64Max →
      ∃ id e, activeEntry gs id = some e ∧ e.lastFinishTime = uint64Max) : ExactCache gs' where
  least := by
    rw [queued_of_queueView hq, show gs'.minStartTime = _ from congrArg QueueView.minStartTime hq]
    exact h.least
  saturated hsat := by
    rw [queued_of_queueView hq] at hsat ⊢
    refine h.saturated (hsat.imp_right ?_)
    rintro ⟨id, e, he, hmax⟩
    exact htags id e he hmax

theorem Fresh.exactCache {numGroups binsPerGroup totalCapacity maxEntries : ℕ} {st : GroupState α}
    (h : Fresh numGroups binsPerGroup totalCapacity maxEntries st) : ExactCache st.gs where
  least := ⟨fun s hs => by simp [h.queued] at hs, .inl h.minStartTime⟩
  saturated hsat := by
    rcases hsat with ⟨s, hs, -⟩ | ⟨id, e, he, -⟩
    · simp [h.queued] at hs
    · simp [h.activeEntry] at he

theorem ExactCache.configure (hinv : GroupInv mem gs) (h : ExactCache gs) (id : ℕ)
    (a : Allocation) : ExactCache (groupSchedulerConfigureEntry gs id a).2 := by
  refine h.of_queueView (configureEntry_queueView hinv.sums id a) fun j e he hmax => ?_
  rcases configureEntry_cases hinv.sums id a with ⟨heq, -⟩ | ⟨heq, -⟩ | ⟨-, -, entry, hget, hcase⟩
  · exact ⟨j, e, by rwa [heq] at he, hmax⟩
  · exact ⟨j, e, by rwa [heq] at he, hmax⟩
  · rcases hcase with ⟨heq, -⟩ | ⟨heq, -⟩
    · exact ⟨j, e, by rwa [heq] at he, hmax⟩
    · rw [heq, commitEntry_activeEntry a (by rwa [releasedFor_entries])] at he
      split_ifs at he with hj
      · cases he
        have := one_lt_uint64Max
        simp only [configuredAs] at hmax
        omega
      · refine ⟨j, e, ?_, hmax⟩
        rwa [activeEntry, releasedFor_entries] at he

theorem ExactCache.removeEntry (h : ExactCache gs) (id : ℕ) :
    ExactCache (groupSchedulerRemoveEntry gs id).2 := by
  refine h.of_queueView (removeEntry_queueView gs id) fun j e he hmax => ⟨j, e, ?_, hmax⟩
  rcases removeEntry_cases gs id with ⟨heq, -⟩ | ⟨heq, -⟩ | ⟨hid, -, entry, hfind, -⟩
  · rwa [heq] at he
  · rwa [heq] at he
  · rw [removeEntry_activeEntry hfind hid] at he
    split_ifs at he
    exact he

theorem ExactCache.enqueue (hinv : GroupInv mem gs) (h : ExactCache gs) (id w : ℕ)
    (ud : Option α) (cf : Bool) : ExactCache (groupSchedulerEnqueue mem gs id w ud cf).gs := by
  rcases enqueue_cases mem gs id w ud cf with ⟨-, heq, -⟩ | ⟨-, -, -, -, entry, hadm, heq⟩
  · rwa [heq]
  rw [heq]
  have hbin := hadm.fits mem.next ud cf
  have hq := hadm.queued mem.next ud cf
  have hact := enqueued_activeEntry gs (newSession gs entry mem.next id w ud cf) id
  have hstamps := newSession_stamps hinv hadm.found mem.next w ud cf
  have hstart := newSession_startTime gs entry mem.next id w ud cf
  constructor
  · constructor
    · rw [enqueued_minStartTime id hbin, hq]
      intro s hs
      rcases Multiset.mem_cons.mp hs with rfl | hs
      · exact min_le_left _ _
      · exact (min_le_right _ _).trans (h.least.le s hs)
    · exact CacheAttained.enqueued id hbin h.least.attained
  · rw [hq]
    intro hsat
    by_cases hold : (∃ s ∈ gs.queued, s.startTime = uint64Max) ∨
        ∃ id e, activeEntry gs id = some e ∧ e.lastFinishTime = uint64Max
    · obtain ⟨s, hs, hwit⟩ := h.saturated hold
      exact ⟨s, Multiset.mem_cons_of_mem hs, hwit⟩
    -- nothing was saturated before, so the new session is the one that starts in time
    have hclock := hinv.clock
    have hlast : entry.core.lastFinishTime ≠ uint64Max := fun hmax =>
      hold (.inr ⟨id, entry.core, activeEntry_of_find hadm.found, hmax⟩)
    have hle := hinv.tags id entry.core (activeEntry_of_find hadm.found)
    have hcore : entry.core.lastFinishTime = entry.lastFinishTime := rfl
    refine ⟨_, Multiset.mem_cons_self _ _, by dsimp only; omega, ?_⟩
    rcases hsat with ⟨s, hs, hmax⟩ | ⟨j, e, he, hmax⟩
    · rcases Multiset.mem_cons.mp hs with rfl | hs
      · dsimp only at hmax
        omega
      · exact absurd (.inl ⟨s, hs, hmax⟩) hold
    · rw [hact] at he
      split_ifs at he
      · obtain ⟨e', -, rfl⟩ := Option.map_eq_some_iff.mp he
        exact hmax
      · exact absurd (.inr ⟨j, e, he, hmax⟩) hold

/-- A session that leaves takes nothing along that the cache needs, unless it is saturated. -/
theorem ExactCache.without {gs' : GroupScheduler α} {s : SessionState α} (h : ExactCache gs)
    (hq : gs.queued = s ::ₘ gs'.queued) (hleast : IsMinStart gs'.queued gs'.minStartTime)
    (hact : ∀ id, activeEntry gs' id = activeEntry gs id) (hfin : s.finishTime < uint64Max) :
    ExactCache gs' := by
  refine ⟨hleast, fun hsat => ?_⟩
  have hold : (∃ s ∈ gs.queued, s.startTime = uint64Max) ∨
      ∃ id e, activeEntry gs id = some e ∧ e.lastFinishTime = uint64Max := by
    refine hsat.imp ?_ ?_
    · rintro ⟨t, ht, hmax⟩
      exact ⟨t, hq ▸ Multiset.mem_cons_of_mem ht, hmax⟩
    · rintro ⟨j, e, he, hmax⟩
      exact ⟨j, e, hact j ▸ he, hmax⟩
  obtain ⟨w, hw, hlt, hmax⟩ := h.saturated hold
  rw [hq] at hw
  rcases Multiset.mem_cons.mp hw with rfl | hw
  · omega
  · exact ⟨w, hw, hlt, hmax⟩

theorem ExactCache.dequeued (hinv : GroupInv mem gs) (hn : gs.numBins ≤ 32768) (h : ExactCache gs)
    {s : SessionState α} {t : ℕ} (hfind : findEligibleMinBitfield gs t = some s) :
    ExactCache (dequeued gs s) := by
  obtain ⟨hs, -, hfin⟩ := findEligible_some hinv.calendar hfind
  exact h.without (dequeued_queued hinv.calendar hs) (dequeued_isMinStart hinv.calendar hs hn h.least)
    (activeEntry_of_ledger (dequeued_ledger s)) hfin

theorem ExactCache.dequeue (hinv : GroupInv mem gs) (hn : gs.numBins ≤ 32768) (h : ExactCache gs) :
    ExactCache (groupSchedulerDequeue gs).2 := by
  rcases dequeue_cases hinv.calendar with ⟨-, heq⟩ | ⟨-, -, heq⟩ | ⟨-, s, hfind, heq⟩
  · rwa [heq]
  · rw [heq]
    exact ⟨h.least, h.saturated⟩
  · rw [heq]
    exact h.dequeued hinv hn hfind

theorem IsMinStart.rebase {q : Multiset (SessionState α)} {m : ℕ} (h : IsMinStart q m)
    (off : ℕ) (hne : ∀ s ∈ q, m < uint64Max) :
    IsMinStart (q.map (·.rebase off)) (rebaseCached off m) := by
  unfold rebaseCached
  split_ifs with hm
  · constructor
    · intro s hs
      obtain ⟨t, ht, rfl⟩ := Multiset.mem_map.mp hs
      have := h.le t ht
      simp only [SessionState.rebase, rebaseTime_eq_sub]
      omega
    · rcases h.attained with hempty | ⟨t, ht, hatt⟩
      · exact absurd hempty hm
      · exact .inr ⟨_, Multiset.mem_map_of_mem _ ht, by rw [← hatt]; rfl⟩
  · rw [ne_eq, not_not] at hm
    refine ⟨fun s hs => ?_, .inl hm⟩
    obtain ⟨t, ht, rfl⟩ := Multiset.mem_map.mp hs
    exact absurd hm (hne t ht).ne

theorem ExactCache.update (hinv : GroupInv mem gs) (h : ExactCache gs) (w : ℕ) :
    ExactCache (groupSchedulerUpdateVirtualTime gs w) := by
  have hq := updateVirtualTime_queued gs w
  have hact := updateVirtualTime_activeEntry hinv.nodup hinv.listed w
  have hone := one_lt_uint64Max
  constructor
  · rw [hq, updateVirtualTime_minStartTime]
    refine h.least.rebase _ fun s hs => h.lt_max hs ?_
    have := hinv.stamps s hs
    omega
  · intro hsat
    rcases Nat.eq_zero_or_pos (updateOffset gs w) with hoff | hoff
    · simp only [hq, hact, hoff, SessionState.rebase_zero, Multiset.map_id', rebaseTime_eq_sub,
        Nat.sub_zero, Option.map_id'] at hsat ⊢
      exact h.saturated hsat
    · rcases hsat with ⟨s, hs, hmax⟩ | ⟨j, e, he, hmax⟩
      · rw [hq] at hs
        obtain ⟨t, ht, rfl⟩ := Multiset.mem_map.mp hs
        have := hinv.stamps t ht
        simp only [SessionState.rebase, rebaseTime_eq_sub] at hmax
        omega
      · rw [hact] at he
        obtain ⟨e', he', rfl⟩ := Option.map_eq_some_iff.mp he
        have := hinv.tags j e' he'
        simp only [rebaseTime_eq_sub] at hmax
        omega

theorem ExactCache.step {st : GroupState α} (hinv : GroupInv st.mem st.gs)
    (hn : st.gs.numBins ≤ 32768) (h : ExactCache st.gs) (c : GroupCall α) :
    ExactCache (st.step c).gs := by
  cases c with
  | configureEntry id a => exact h.configure hinv _ a
  | removeEntry id => exact h.removeEntry _
  | enqueue id w ud cf => exact h.enqueue hinv _ _ ud cf
  | dequeue => exact h.dequeue hinv hn
  | updateVirtualTime w => exact h.update hinv _

/-- What holds in every state of a scheduler whose bins the search can reach. -/
structure Searchable (st : GroupState α) : Prop where
  inv : GroupInv st.mem st.gs
  bins : st.gs.numBins ≤ 32768
  cache : ExactCache st.gs

theorem Searchable.step {st : GroupState α} (h : Searchable st) (c : GroupCall α) :
    Searchable (st.step c) :=
  ⟨h.inv.step c, (congrArg Geometry.numBins (GroupState.step_geometry h.inv c)).trans_le h.bins,
    h.cache.step h.inv h.bins c⟩

theorem Fresh.searchable {numGroups binsPerGroup totalCapacity maxEntries : ℕ} {st : GroupState α}
    (h : Fresh numGroups binsPerGroup totalCapacity maxEntries st)
    (hn : st.gs.numBins ≤ 32768) : Searchable st :=
  ⟨h.inv, hn, h.exactCache⟩

theorem Searchable.run {st : GroupState α} (h : Searchable st) (calls : List (GroupCall α)) :
    Searchable (run GroupState.step st calls) :=
  run_invariant_all (fun _ c hst => hst.step c) h calls

/-! ## The selection rule -/

/-- One choice of a scheduler with an exact cache. -/
theorem Searchable.selection {st : GroupState α} (h : Searchable st) {s : SessionState α}
    {gs' : GroupScheduler α} (hdeq : groupSchedulerDequeue st.gs = (some s, gs')) :
    s ∈ st.gs.queued ∧ s.startTime ≤ gs'.virtualTime ∧
      (∀ q ∈ st.gs.queued, q.startTime ≤ gs'.virtualTime → s.finishTime ≤ q.finishTime) ∧
      st.gs.virtualTime ≤ gs'.virtualTime ∧
      (st.gs.virtualTime < gs'.virtualTime →
        (∀ q ∈ st.gs.queued, st.gs.virtualTime < q.startTime) ∧
          IsLeast {t | ∃ q ∈ st.gs.queued, q.startTime = t} gs'.virtualTime) := by
  rcases dequeue_cases h.inv.calendar with ⟨-, heq⟩ | ⟨-, -, heq⟩ | ⟨-, s', hfind, heq⟩
  · rw [heq] at hdeq
    cases hdeq
  · rw [heq] at hdeq
    cases hdeq
  rw [heq] at hdeq
  cases hdeq
  have hvt := @dequeued_virtualTime _ st.gs s
  rw [hvt]
  obtain ⟨hs, hstart, -⟩ := findEligible_some h.inv.calendar hfind
  refine ⟨hs, hstart, findEligible_some_least h.inv.calendar h.bins hfind,
    virtualTime_le_dequeueTime _, fun hlt => ?_⟩
  rcases dequeueTime_cases st.gs with hstay | ⟨hjump, hne, hlt', -⟩
  · omega
  · rw [hjump]
    refine ⟨fun q hq => hlt'.trans_le (h.cache.least.le q hq), ?_, ?_⟩
    · exact h.cache.least.attained.resolve_left hne
    · rintro t ⟨q, hq, rfl⟩
      exact h.cache.least.le q hq

/-- Every dequeue of every run follows the WF2Q+ rule over the whole queue: among
the sessions that have started by the virtual time `V'` of the choice it returns
one with the least finish time, and the clock jumps only over an empty stretch. -/
theorem dequeue_follows_wf2q {numGroups binsPerGroup totalCapacity maxEntries : ℕ}
    {st₀ : GroupState α} (hfresh : Fresh numGroups binsPerGroup totalCapacity maxEntries st₀)
    (hbins : st₀.gs.numBins ≤ 32768) (calls : List (GroupCall α)) {s : SessionState α}
    {gs' : GroupScheduler α}
    (hdeq : groupSchedulerDequeue (run GroupState.step st₀ calls).gs = (some s, gs')) :
    s ∈ (run GroupState.step st₀ calls).gs.queued ∧ s.startTime ≤ gs'.virtualTime ∧
      (∀ q ∈ (run GroupState.step st₀ calls).gs.queued,
        q.startTime ≤ gs'.virtualTime → s.finishTime ≤ q.finishTime) ∧
      (run GroupState.step st₀ calls).gs.virtualTime ≤ gs'.virtualTime ∧
      ((run GroupState.step st₀ calls).gs.virtualTime < gs'.virtualTime →
        (∀ q ∈ (run GroupState.step st₀ calls).gs.queued,
          (run GroupState.step st₀ calls).gs.virtualTime < q.startTime) ∧
        IsLeast {t | ∃ q ∈ (run GroupState.step st₀ calls).gs.queued, q.startTime = t}
          gs'.virtualTime) :=
  ((hfresh.searchable hbins).run calls).selection hdeq

theorem newGroup_default_isSome : (newGroup ℕ 16 2048 100 2 2).isSome = true := by decide +kernel

/-- Sixteen groups of 2048 bins, capacity 100 and two entries to configure. -/
def defaultGroup : GroupState ℕ := (newGroup ℕ 16 2048 100 2 2).get newGroup_default_isSome

theorem defaultGroup_fresh : Fresh 16 2048 100 2 defaultGroup :=
  newGroup_fresh (Option.some_get newGroup_default_isSome).symm

theorem newGroup_small_isSome : (newGroup ℕ 16 1 100 2 2).isSome = true := by decide +kernel

/-- Sixteen groups of one bin each, capacity 100 and two entries to configure. -/
def smallGroup : GroupState ℕ := (newGroup ℕ 16 1 100 2 2).get newGroup_small_isSome

theorem smallGroup_fresh : Fresh 16 1 100 2 smallGroup :=
  newGroup_fresh (Option.some_get newGroup_small_isSome).symm

/-- Two entries of equal weight with one session each, the second one smaller. -/
def twoEntryCalls : List (GroupCall ℕ) :=
  [.configureEntry 0 (.weight 1), .configureEntry 1 (.weight 1), .enqueue 0 5 (some 1) false,
    .enqueue 1 3 (some 2) false]

theorem dequeue_follows_wf2q_default :
    ∃ s gs', groupSchedulerDequeue (run GroupState.step defaultGroup twoEntryCalls).gs =
        (some s, gs') ∧ s.userData = some 2 ∧
      ∀ q ∈ (run GroupState.step defaultGroup twoEntryCalls).gs.queued,
        q.startTime ≤ gs'.virtualTime → s.finishTime ≤ q.finishTime := by
  have hret : ((groupSchedulerDequeue (run GroupState.step defaultGroup twoEntryCalls).gs).1.map
      (·.userData)) = some (some 2) := by decide +kernel
  obtain ⟨s, hs, hud⟩ := Option.map_eq_some_iff.mp hret
  have hdeq : groupSchedulerDequeue (run GroupState.step defaultGroup twoEntryCalls).gs =
      (some s, _) := Prod.ext hs rfl
  exact ⟨s, _, hdeq, hud,
    (dequeue_follows_wf2q defaultGroup_fresh (by decide +kernel) twoEntryCalls hdeq).2.2.1⟩

end Hwfq
