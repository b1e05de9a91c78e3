import Hwfq.VirtualClock

/-!
# The invariant of a group scheduler

What every operation of a group scheduler keeps true, for every geometry: the
calendar represents its queue, time stamps fit their type and are in order, the
list of configured entries is the set of configured entries, and the session
counter counts the queue modulo its width.
-/
namespace Hwfq
open SetBits MinSearch Bins

variable {α : Type*} {gs : GroupScheduler α} {mem : Allocator}

/-! ## Configured entries -/

/-- The configured entry of an id, without its cached rate. -/
def activeEntry (gs : GroupScheduler α) (id : ℕ) : Option EntryConfig :=
  ((hwfqChunkedGet gs.entries id).map EntryConfig.core).filter (·.configured)

theorem activeEntry_eq (gs : GroupScheduler α) (id : ℕ) :
    activeEntry gs id = (groupSchedulerFindEntry gs id).map EntryConfig.core := by
  rw [activeEntry, groupSchedulerFindEntry, Option.filter_map]
  rfl

theorem activeEntry_of_find {id : ℕ} {e : EntryConfig} (h : groupSchedulerFindEntry gs id = some e) :
    activeEntry gs id = some e.core := by
  rw [activeEntry_eq, h]
  rfl

theorem activeEntry_none_iff {id : ℕ} :
    activeEntry gs id = none ↔ groupSchedulerFindEntry gs id = none := by
  rw [activeEntry_eq, Option.map_eq_none_iff]

theorem activeEntry_of_ledger {gs' : GroupScheduler α} (h : gs'.ledger = gs.ledger) (id : ℕ) :
    activeEntry gs' id = activeEntry gs id := by
  have hent : gs'.entries = gs.entries := congrArg Ledger.entries h
  rw [activeEntry, hent, activeEntry]

theorem commitEntry_activeEntry {entry : EntryConfig} {id : ℕ} (a : Allocation)
    (hget : hwfqChunkedGet gs.entries id = some entry) (j : ℕ) :
    activeEntry (commitEntry gs entry id a) j =
      if j = id then some (configuredAs id a entry) else activeEntry gs j := by
  rw [activeEntry, commitEntry_core]
  split_ifs with hj
  · subst hj
    rw [hget]
    rfl
  · rfl

theorem removeEntry_activeEntry {entry : EntryConfig} {id : ℕ}
    (hfind : groupSchedulerFindEntry gs id = some entry) (hid : id < gs.maxEntries) (j : ℕ) :
    activeEntry (groupSchedulerRemoveEntry gs id).2 j = if j = id then none else activeEntry gs j := by
  rcases removeEntry_cases gs id with ⟨-, hbad⟩ | ⟨-, hnone⟩ | ⟨-, -, e, he, heq⟩
  · omega
  · rw [hfind] at hnone
    cases hnone
  · rw [heq, activeEntry, recalculate_core]
    simp only [GroupScheduler.writeEntry, release_entries, get_write]
    split_ifs
    · cases hwfqChunkedGet gs.entries j <;> rfl
    · rfl

theorem writeEntry_activeEntry (id : ℕ) (f : EntryConfig → EntryConfig)
    (hconf : ∀ e, (f e).configured = e.configured) (hcore : ∀ e, (f e).core = f e.core) (j : ℕ) :
    activeEntry (gs.writeEntry id f) j =
      if j = id then (activeEntry gs j).map f else activeEntry gs j := by
  simp only [activeEntry, GroupScheduler.writeEntry, get_write]
  split_ifs
  · cases hwfqChunkedGet gs.entries j with
    | none => rfl
    | some e =>
      simp only [Option.map_some, hcore, Option.filter_some, hconf]
      split_ifs <;> rfl
  · rfl

theorem enqueued_activeEntry (gs : GroupScheduler α) (s : SessionState α) (id j : ℕ) :
    activeEntry (enqueued gs id s) j =
      if j = id then (activeEntry gs j).map fun e => { e with lastFinishTime := s.finishTime }
      else activeEntry gs j := by
  rw [activeEntry_of_ledger (enqueued_ledger id gs s) j]
  exact writeEntry_activeEntry id (fun e => { e with lastFinishTime := s.finishTime })
    (fun _ => rfl) (fun _ => rfl) j

/-- A configuration sets no finish tag but to zero. -/
theorem configureEntry_active (hsums : SumsFit gs) {id : ℕ} {a : Allocation} {j : ℕ} {e : EntryConfig}
    (he : activeEntry (groupSchedulerConfigureEntry gs id a).2 j = some e) :
    e.lastFinishTime = 0 ∨ activeEntry gs j = some e := by
  rcases configureEntry_cases hsums id a with ⟨heq, -⟩ | ⟨heq, -⟩ | ⟨-, -, entry, hget, hcase⟩
  · rw [heq] at he
    exact .inr he
  · rw [heq] at he
    exact .inr he
  · rcases hcase with ⟨heq, -⟩ | ⟨heq, -⟩
    · rw [heq] at he
      exact .inr he
    · rw [heq, commitEntry_activeEntry a (by rwa [releasedFor_entries])] at he
      split_ifs at he with hj
      · cases he
        exact .inl rfl
      · rw [activeEntry, releasedFor_entries] at he
        exact .inr he

theorem rebasedBy_activeEntry (hids : gs.configuredEntries.Nodup)
    (hlisted : ∀ id, id ∈ gs.configuredEntries ↔ (activeEntry gs id).isSome = true) (off j : ℕ) :
    activeEntry (rebasedBy off gs) j =
      (activeEntry gs j).map fun e =>
        { e with lastFinishTime := rebaseTime off e.lastFinishTime } := by
  rw [activeEntry, rebasedBy_get off hids]
  split_ifs with hj
  · rw [activeEntry]
    cases hwfqChunkedGet gs.entries j with
    | none => rfl
    | some e =>
      simp only [Option.map_some, Option.filter_some, EntryConfig.core]
      split_ifs <;> rfl
  · rw [hlisted, Option.not_isSome_iff_eq_none] at hj
    rw [hj]
    exact hj

theorem updateVirtualTime_activeEntry (hids : gs.configuredEntries.Nodup)
    (hlisted : ∀ id, id ∈ gs.configuredEntries ↔ (activeEntry gs id).isSome = true) (w j : ℕ) :
    activeEntry (groupSchedulerUpdateVirtualTime gs w) j =
      (activeEntry gs j).map fun e =>
        { e with lastFinishTime := rebaseTime (updateOffset gs w) e.lastFinishTime } := by
  rcases updateVirtualTime_cases gs w with ⟨hlt, heq⟩ | ⟨hge, heq⟩
  · rw [heq, updateOffset, rebaseOffsetAt, if_pos hlt]
    simp [rebaseTime_eq_sub, activeEntry]
  · rw [heq, updateOffset, rebaseOffsetAt, if_neg (Nat.not_lt.mpr hge)]
    exact @rebasedBy_activeEntry _ (gs.at _) hids hlisted _ j

/-! ## The invariant -/

/-- What every operation keeps true of a scheduler and the allocator behind it. -/
structure GroupInv (mem : Allocator) (gs : GroupScheduler α) : Prop where
  calendar : CalendarInv gs
  fresh : ∀ s ∈ gs.queued, s.addr < mem.next
  stamps : ∀ s ∈ gs.queued, s.startTime ≤ s.finishTime ∧ s.finishTime ≤ uint64Max
  clock : gs.virtualTime < uint64Max
  cache : gs.minStartTime ≤ uint64Max
  tags : ∀ id e, activeEntry gs id = some e → e.lastFinishTime ≤ uint64Max
  sums : SumsFit gs
  nodup : gs.configuredEntries.Nodup
  listed : ∀ id, id ∈ gs.configuredEntries ↔ (activeEntry gs id).isSome = true
  count : gs.activeSessionCount = u32 gs.queued.card

theorem u32_succ (n : ℕ) : u32 (u32 n + 1) = u32 (n + 1) := by
  unfold u32
  omega

theorem subU32_one (n : ℕ) : subU32 (u32 (n + 1)) 1 = u32 n := by
  unfold subU32 u32
  split_ifs <;> omega

/-- Configuration and the statistics only have to account for the entries. -/
theorem GroupInv.of_queueView {gs' : GroupScheduler α} (h : GroupInv mem gs)
    (hq : gs'.queueView = gs.queueView)
    (htags : ∀ id e, activeEntry gs' id = some e → e.lastFinishTime ≤ uint64Max)
    (hsums : SumsFit gs') (hnodup : gs'.configuredEntries.Nodup)
    (hlisted : ∀ id, id ∈ gs'.configuredEntries ↔ (activeEntry gs' id).isSome = true) :
    GroupInv mem gs' where
  calendar := h.calendar.of_queueView hq
  fresh := by
    rw [queued_of_queueView hq]
    exact h.fresh
  stamps := by
    rw [queued_of_queueView hq]
    exact h.stamps
  clock := (congrArg QueueView.virtualTime hq).trans_lt h.clock
  cache := (congrArg QueueView.minStartTime hq).trans_le h.cache
  tags := htags
  sums := hsums
  nodup := hnodup
  listed := hlisted
  count := by
    rw [queued_of_queueView hq]
    exact (congrArg QueueView.activeSessionCount hq).trans h.count

theorem GroupInv.weaken {mem' : Allocator} (h : GroupInv mem gs) (hmem : mem.next ≤ mem'.next) :
    GroupInv mem' gs :=
  { h with fresh := fun s hs => (h.fresh s hs).trans_le hmem }

theorem GroupInv.commit (h : GroupInv mem gs) {entry : EntryConfig} {id : ℕ}
    (hget : hwfqChunkedGet gs.entries id = some entry) (a : Allocation) :
    GroupInv mem (commitEntry (releasedFor gs entry) entry id a) := by
  have hact : ∀ j, activeEntry (commitEntry (releasedFor gs entry) entry id a) j =
      if j = id then some (configuredAs id a entry) else activeEntry gs j := by
    intro j
    rw [commitEntry_activeEntry a (by rwa [releasedFor_entries]), activeEntry, releasedFor_entries,
      activeEntry]
  have hmem_iff : entry.configured = true ↔ id ∈ gs.configuredEntries := by
    rw [h.listed, activeEntry, hget]
    cases hc : entry.configured <;> simp [EntryConfig.core, hc]
  have hlist := @commitEntry_configuredEntries _ (releasedFor gs entry) entry id a
  rw [releasedFor_configuredEntries] at hlist
  refine h.of_queueView ((commitEntry_queueView _ _ _).trans (releasedFor_queueView entry))
    (fun j e he => ?_) ?_ ?_ fun j => ?_
  · rw [hact] at he
    split_ifs at he with hj
    · cases he
      exact Nat.zero_le _
    · exact h.tags j e he
  · have hres := (h.sums.releasedFor entry).reserve a
    obtain ⟨hrate, hweight, -, -⟩ := @commitEntry_totals _ (releasedFor gs entry) entry id a
    exact ⟨hrate.trans_le hres.rates, hweight.trans_le hres.weights⟩
  · rw [hlist]
    split_ifs with hc
    · exact h.nodup
    · exact List.nodup_cons.mpr ⟨fun hin => hc (hmem_iff.mpr hin), h.nodup⟩
  · rw [hlist, hact]
    by_cases hj : j = id
    · subst hj
      rw [if_pos rfl]
      split_ifs with hc
      · exact iff_of_true (hmem_iff.mp hc) rfl
      · exact iff_of_true List.mem_cons_self rfl
    · rw [if_neg hj, ← h.listed]
      split_ifs
      · rfl
      · simp [hj]

theorem GroupInv.configure (h : GroupInv mem gs) (id : ℕ) (a : Allocation) :
    GroupInv mem (groupSchedulerConfigureEntry gs id a).2 := by
  rcases configureEntry_cases h.sums id a with ⟨heq, -⟩ | ⟨heq, -⟩ | ⟨-, -, entry, hget, hcase⟩
  · rwa [heq]
  · rwa [heq]
  · rcases hcase with ⟨heq, -⟩ | ⟨heq, -⟩
    · rwa [heq]
    · rw [heq]
      exact h.commit hget a

theorem GroupInv.removeEntry (h : GroupInv mem gs) (id : ℕ) :
    GroupInv mem (groupSchedulerRemoveEntry gs id).2 := by
  rcases removeEntry_cases gs id with ⟨heq, -⟩ | ⟨heq, -⟩ | ⟨hid, -, entry, hfind, heq⟩
  · rwa [heq]
  · rwa [heq]
  · have hact := removeEntry_activeEntry hfind hid
    have hlist : (groupSchedulerRemoveEntry gs id).2.configuredEntries =
        gs.configuredEntries.erase id := by
      rw [heq]
      rfl
    refine h.of_queueView (removeEntry_queueView gs id) (fun j e he => ?_) ?_ ?_ fun j => ?_
    · rw [hact] at he
      split_ifs at he
      exact h.tags j e he
    · have hrel := h.sums.release entry.allocation
      rw [heq]
      exact ⟨hrel.rates, hrel.weights⟩
    · rw [hlist]
      exact h.nodup.erase id
    · rw [hlist, hact, h.nodup.mem_erase_iff]
      split_ifs with hj
      · simp [hj]
      · simp [hj, h.listed]

theorem newSession_stamps (h : GroupInv mem gs) {entry : EntryConfig} {id : ℕ}
    (hfind : groupSchedulerFindEntry gs id = some entry) (addr w : ℕ) (ud : Option α) (cf : Bool) :
    (newSession gs entry addr id w ud cf).startTime ≤
        (newSession gs entry addr id w ud cf).finishTime ∧
      (newSession gs entry addr id w ud cf).finishTime ≤ uint64Max := by
  have hlast : entry.lastFinishTime ≤ uint64Max := h.tags id entry.core (activeEntry_of_find hfind)
  have hclock := h.clock
  have hint : (newSession gs entry addr id w ud cf).serviceInterval ≤ uint64Max :=
    serviceIntervalOf_le _ _
  have hstart := newSession_startTime gs entry addr id w ud cf
  rw [newSession_finishTime]
  split_ifs <;> omega

/-- The next object is not queued yet. -/
theorem GroupInv.next_notMem (h : GroupInv mem gs) : mem.next ∉ gs.queued.map (·.addr) := by
  intro hin
  obtain ⟨t, ht, haddr⟩ := Multiset.mem_map.mp hin
  exact (h.fresh t ht).ne haddr

/-- What a new session needs of the state for the invariant to live on. -/
theorem GroupInv.enqueued (h : GroupInv mem gs) {entry : EntryConfig} {id w : ℕ}
    (hadm : Admissible gs id w entry) (ud : Option α) (cf : Bool) {mem' : Allocator}
    (hmem : mem'.next = mem.next + 1) :
    GroupInv mem' (enqueued gs id (newSession gs entry mem.next id w ud cf)) := by
  have hbin := hadm.fits mem.next ud cf
  have hq := hadm.queued mem.next ud cf
  have hact := enqueued_activeEntry gs (newSession gs entry mem.next id w ud cf) id
  have hstamps := newSession_stamps h hadm.found mem.next w ud cf
  have hledger := enqueued_ledger id gs (newSession gs entry mem.next id w ud cf)
  have hlist : (Hwfq.enqueued gs id (newSession gs entry mem.next id w ud cf)).configuredEntries =
      gs.configuredEntries := congrArg Ledger.configuredEntries hledger
  refine
    { calendar := h.calendar.enqueue id hbin h.next_notMem
      fresh := fun s hs => ?_
      stamps := fun s hs => ?_
      clock := (enqueued_virtualTime id).trans_lt h.clock
      cache := ?_
      tags := fun j e he => ?_
      sums := ⟨(congrArg Ledger.allocatedRateCapacity hledger).trans_le h.sums.rates,
        (congrArg Ledger.totalWeight hledger).trans_le h.sums.weights⟩
      nodup := hlist ▸ h.nodup
      listed := fun j => ?_
      count := ?_ }
  · rw [hmem]
    rw [hq] at hs
    rcases Multiset.mem_cons.mp hs with rfl | hs
    · exact Nat.lt_succ_self mem.next
    · exact (h.fresh s hs).trans (Nat.lt_succ_self _)
  · rw [hq] at hs
    rcases Multiset.mem_cons.mp hs with rfl | hs
    · exact hstamps
    · exact h.stamps s hs
  · rw [enqueued_minStartTime id hbin]
    exact (min_le_right _ _).trans h.cache
  · rw [hact] at he
    split_ifs at he
    · obtain ⟨e', -, rfl⟩ := Option.map_eq_some_iff.mp he
      exact hstamps.2
    · exact h.tags j e he
  · rw [hlist, hact, h.listed]
    split_ifs <;> simp
  · rw [hq, Multiset.card_cons, enqueued_activeSessionCount, h.count, u32_succ]

theorem GroupInv.enqueue (h : GroupInv mem gs) (id w : ℕ) (ud : Option α) (cf : Bool) :
    GroupInv (groupSchedulerEnqueue mem gs id w ud cf).mem
      (groupSchedulerEnqueue mem gs id w ud cf).gs := by
  rcases enqueue_cases mem gs id w ud cf with ⟨-, heq, -, hle, -⟩ | ⟨-, -, hmem, -, entry, hadm, heq⟩
  · rw [heq]
    exact h.weaken hle
  · rw [heq]
    exact h.enqueued hadm ud cf hmem

theorem GroupInv.dequeued (h : GroupInv mem gs) {s : SessionState α} (hs : s ∈ gs.queued)
    (hclock : dequeueTime gs < uint64Max) : GroupInv mem (dequeued gs s) := by
  have hq := dequeued_queued h.calendar hs
  have hsub : ∀ t ∈ (Hwfq.dequeued gs s).queued, t ∈ gs.queued := fun t ht =>
    hq ▸ Multiset.mem_cons_of_mem ht
  have hledger := @dequeued_ledger _ gs s
  have hlist : (Hwfq.dequeued gs s).configuredEntries = gs.configuredEntries :=
    congrArg Ledger.configuredEntries hledger
  have hact : ∀ j, activeEntry (Hwfq.dequeued gs s) j = activeEntry gs j :=
    activeEntry_of_ledger hledger
  exact
    { calendar := h.calendar.dequeue hs
      fresh := fun t ht => h.fresh t (hsub t ht)
      stamps := fun t ht => h.stamps t (hsub t ht)
      clock := (dequeued_virtualTime s).trans_lt hclock
      cache := dequeued_cache h.calendar hs h.cache
      tags := fun j e he => h.tags j e (hact j ▸ he)
      sums := ⟨(congrArg Ledger.allocatedRateCapacity hledger).trans_le h.sums.rates,
        (congrArg Ledger.totalWeight hledger).trans_le h.sums.weights⟩
      nodup := hlist ▸ h.nodup
      listed := fun j => by rw [hlist, hact, h.listed]
      count := by
        rw [dequeued_activeSessionCount, h.count, hq, Multiset.card_cons, subU32_one] }

/-- A jump never reaches the empty value of the cache. -/
theorem GroupInv.dequeueTime_lt (h : GroupInv mem gs) : dequeueTime gs < uint64Max := by
  have hclock := h.clock
  have hcache := h.cache
  rcases dequeueTime_cases gs with heq | ⟨heq, hne, -, -⟩ <;> omega

theorem GroupInv.jump (h : GroupInv mem gs) {t : ℕ} (ht : t < uint64Max) :
    GroupInv mem (gs.at t) :=
  { h with
    calendar := h.calendar.congr rfl rfl rfl rfl
    clock := ht
    sums := ⟨h.sums.rates, h.sums.weights⟩ }

theorem GroupInv.dequeue (h : GroupInv mem gs) : GroupInv mem (groupSchedulerDequeue gs).2 := by
  rcases dequeue_cases h.calendar with ⟨-, heq⟩ | ⟨-, -, heq⟩ | ⟨-, s, hfind, heq⟩
  · rwa [heq]
  · rw [heq]
    exact h.jump h.dequeueTime_lt
  · rw [heq]
    exact h.dequeued (findEligible_some h.calendar hfind).1 h.dequeueTime_lt

theorem rebaseCached_le {off t : ℕ} (ht : t ≤ uint64Max) : rebaseCached off t ≤ uint64Max := by
  unfold rebaseCached
  rw [rebaseTime_eq_sub]
  split_ifs <;> omega

/-- A rebase at any clock whose result is below the sentinel. -/
theorem GroupInv.rebased (h : GroupInv mem gs) {t off : ℕ} (ht : t - off < uint64Max) :
    GroupInv mem (rebasedBy off (gs.at t)) := by
  have hat : CalendarInv (gs.at t) := h.calendar.congr rfl rfl rfl rfl
  have hact := @rebasedBy_activeEntry _ (gs.at t) h.nodup h.listed off
  have hq : (rebasedBy off (gs.at t)).queued = gs.queued.map (·.rebase off) :=
    @rebasedBy_queued _ (gs.at t) off
  constructor
  · exact hat.rebase off fun s hs => (h.stamps s hs).1
  · intro s hs
    rw [hq] at hs
    obtain ⟨t, ht, rfl⟩ := Multiset.mem_map.mp hs
    exact h.fresh t ht
  · intro s hs
    rw [hq] at hs
    obtain ⟨t, ht, rfl⟩ := Multiset.mem_map.mp hs
    have hst := h.stamps t ht
    simp only [SessionState.rebase, rebaseTime_eq_sub]
    omega
  · exact ht
  · exact rebaseCached_le h.cache
  · intro j e he
    rw [hact] at he
    obtain ⟨e', he', rfl⟩ := Option.map_eq_some_iff.mp he
    have htag := h.tags j e' he'
    simp only [rebaseTime_eq_sub]
    omega
  · exact ⟨h.sums.rates, h.sums.weights⟩
  · exact h.nodup
  · intro j
    rw [hact, Option.isSome_map]
    exact h.listed j
  · rw [hq, Multiset.card_map]
    exact h.count

theorem GroupInv.update (h : GroupInv mem gs) (w : ℕ) :
    GroupInv mem (groupSchedulerUpdateVirtualTime gs w) := by
  have hone := one_lt_uint64Max
  have hle := advancedVirtualTime_le h.cache w
  rcases updateVirtualTime_cases gs w with ⟨hlt, heq⟩ | ⟨hge, heq⟩
  · rw [heq]
    apply h.jump
    unfold rebaseThreshold at hlt
    omega
  · rw [heq]
    apply h.rebased
    unfold rebaseThreshold at hge
    omega

end Hwfq
