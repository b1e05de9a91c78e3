import Hwfq.EffectiveRates
import Hwfq.FairService
import Hwfq.IdealQueue
import Hwfq.WorkCharges

/-!
# The group scheduler as an ideal queue

The clock of a group scheduler has 64 bits. A rebase takes half of it off every time stamp and
cuts off what it takes too much; a finish that leaves the range is capped, and a session that
is capped is never selected. As long as no finish is capped or cut off, the scheduler does what
the ideal queue does whose clock never ends: its stamps are those of the ideal queue with the
sum of the offsets taken off.
-/
namespace Hwfq
open GuardedRuns IdealQueue

variable {α : Type*} {gs gs' : GroupScheduler α} {mem : Allocator} {off cap : ℕ}
  {ideal : IdealQueue.State ℕ (SessionState α)}

/-- A session without its place in time and in the calendar. -/
def SessionState.untimed (s : SessionState α) : SessionState α :=
  { s with startTime := 0, finishTime := 0, binIndex := 0 }

/-- The packet `p` that a queued session stands for, `off` having been taken off its stamps. -/
structure Stands (off cap : ℕ) (s : SessionState α) (p : Packet ℕ (SessionState α)) : Prop where
  item : p.item = s.untimed
  flow : p.flow = s.entryId
  cost : p.cost = advanceAt cap (chargedWork s.workSize)
  start : s.startTime = p.start - off
  finish : p.finish = s.finishTime + off
  selectable : s.finishTime < uint64Max

/-- `off` has been taken off the clock and the stamps of the ideal queue. -/
structure Implements (off cap : ℕ) (gs : GroupScheduler α)
    (ideal : IdealQueue.State ℕ (SessionState α)) : Prop where
  capacity : gs.totalCapacity = cap
  clock : ideal.clock = gs.virtualTime + off
  queue : Multiset.Rel (Stands off cap) gs.queued ideal.queue
  tags : ∀ id e, activeEntry gs id = some e → e.lastFinishTime = ideal.last id - off
  few : gs.queued.card ≤ uint32Max

section Implements
variable (h : Implements off cap gs ideal)
include h

theorem Implements.packet_of {s : SessionState α} (hs : s ∈ gs.queued) :
    ∃ p ∈ ideal.queue, Stands off cap s p := Multiset.exists_mem_of_rel_of_mem h.queue hs

theorem Implements.session_of {p : Packet ℕ (SessionState α)} (hp : p ∈ ideal.queue) :
    ∃ s ∈ gs.queued, Stands off cap s p :=
  Multiset.exists_mem_of_rel_of_mem (Multiset.rel_flip.mpr h.queue) hp

theorem Implements.selectable {s : SessionState α} (hs : s ∈ gs.queued) :
    s.finishTime < uint64Max := by
  obtain ⟨p, -, hstands⟩ := h.packet_of hs
  exact hstands.selectable

theorem Implements.cost_of {p : Packet ℕ (SessionState α)} (hp : p ∈ ideal.queue) :
    p.cost = advanceAt cap (chargedWork p.item.workSize) := by
  obtain ⟨s, -, hstands⟩ := h.session_of hp
  rw [hstands.cost, hstands.item]
  rfl

theorem Implements.queue_eq_zero : ideal.queue = 0 ↔ gs.queued = 0 := by
  rw [← Multiset.card_eq_zero, ← Multiset.card_eq_zero, Multiset.card_eq_card_of_rel h.queue]

/-- With sessions waiting the cached least start is the start of one of them. -/
theorem Implements.least (hsearch : Searchable (⟨mem, gs⟩ : GroupState α))
    (hbusy : gs.queued ≠ 0) : ∃ s ∈ gs.queued, s.startTime = gs.minStartTime := by
  obtain ⟨s, hs⟩ := Multiset.exists_mem_of_ne_zero hbusy
  have hstamps := hsearch.inv.stamps s hs
  have hselectable := h.selectable hs
  have hle := hsearch.cache.least.le s hs
  apply hsearch.cache.least.attained.resolve_left
  omega

/-- A dequeue that finds nothing had nothing to find. -/
theorem Implements.idle (hsearch : Searchable (⟨mem, gs⟩ : GroupState α))
    (hnone : (groupSchedulerDequeue gs).1 = none) :
    gs.queued = 0 ∧ (groupSchedulerDequeue gs).2 = gs := by
  have hcount : gs.activeSessionCount = gs.queued.card :=
    hsearch.inv.count.trans (u32_of_le h.few)
  rcases dequeue_cases hsearch.inv.calendar with ⟨hzero, heq⟩ | ⟨hbusy, hfind, -⟩ | ⟨-, s, -, heq⟩
  · refine ⟨Multiset.card_eq_zero.mp (hcount.symm.trans hzero), ?_⟩
    rw [heq]
  · exfalso
    have hqueue : gs.queued ≠ 0 := by
      intro hempty
      rw [hempty, Multiset.card_zero] at hcount
      exact hbusy hcount
    obtain ⟨s, hs, hleast⟩ := h.least hsearch hqueue
    have hselectable := h.selectable hs
    have hstamps := hsearch.inv.stamps s hs
    have hreached : s.startTime ≤ dequeueTime gs := by
      unfold dequeueTime
      split
      · rename_i x hx
        rw [dequeueTime, hx] at hfind
        dsimp only at hfind
        rw [hfind] at hx
        cases hx
      · split_ifs <;> omega
    have := findEligible_none hsearch.inv.calendar hsearch.bins hfind s hs hreached
    omega
  · rw [heq] at hnone
    cases hnone

/-! ## Each call -/

theorem Implements.dequeued (hsearch : Searchable (⟨mem, gs⟩ : GroupState α)) {s : SessionState α}
    (hdeq : groupSchedulerDequeue gs = (some s, gs')) :
    ∃ ideal', IdealQueue.Step ideal (.take s.untimed) ideal' ∧ Implements off cap gs' ideal' := by
  obtain ⟨-, heligible, hleast, hstarted, hjump⟩ := hsearch.selection hdeq
  dsimp only at hleast hstarted hjump
  have hqueued : gs.queued = s ::ₘ gs'.queued := (dequeue_some hsearch.inv.calendar hdeq).2.2
  have hledger := dequeue_ledger gs
  rw [hdeq] at hledger
  have hrel := h.queue
  rw [hqueued, Multiset.rel_cons_left] at hrel
  obtain ⟨p, rest, hp, hrest, hsplit⟩ := hrel
  have hclock := h.clock
  have hstart := hp.start
  have hfinish := hp.finish
  have hreach : Reaches ideal 0 (gs'.virtualTime + off) := by
    constructor
    · omega
    · intro q hq
      obtain ⟨t, ht, hstands⟩ := h.session_of hq
      have hqstart := hstands.start
      rcases hstarted.lt_or_eq with hlt | heq
      · have := (hjump hlt).2.2 ⟨t, ht, rfl⟩
        omega
      · omega
    · intro _
      rcases hstarted.lt_or_eq with hlt | heq
      · obtain ⟨t, ht, htime⟩ := (hjump hlt).2.1
        obtain ⟨q, hq, hstands⟩ := h.packet_of ht
        have hqstart := hstands.start
        exact .inr ⟨q, hq, by omega⟩
      · exact .inl (by omega)
  have hstep := IdealQueue.Step.take hsplit hreach (by omega) (by
    intro q hq hqstart
    obtain ⟨t, ht, hstands⟩ := Multiset.exists_mem_of_rel_of_mem (Multiset.rel_flip.mpr hrest) hq
    have hstart' := hstands.start
    have hfinish' := hstands.finish
    have := hleast t (hqueued ▸ Multiset.mem_cons_of_mem ht) (by omega)
    omega)
  rw [hp.item] at hstep
  refine ⟨_, hstep, ?_⟩
  constructor
  · exact (congrArg Ledger.totalCapacity hledger).trans h.capacity
  · rfl
  · exact hrest
  · intro id e he
    rw [activeEntry_of_ledger hledger] at he
    exact h.tags id e he
  · have hcard := h.few
    rw [hqueued, Multiset.card_cons] at hcard
    omega

theorem Implements.updated (hsearch : Searchable (⟨mem, gs⟩ : GroupState α)) {w : ℕ}
    (hroom : gs.virtualTime + virtualTimeDelta gs w ≤ uint64Max)
    (huncut : ∀ s ∈ gs.queued, updateOffset gs w ≤ s.finishTime) :
    ∃ ideal', IdealQueue.Step ideal (.advance (virtualTimeDelta gs w)) ideal' ∧
      Implements (off + updateOffset gs w) cap (groupSchedulerUpdateVirtualTime gs w) ideal' := by
  have hclock := h.clock
  have hadvance : advancedVirtualTime gs w =
      max (gs.virtualTime + virtualTimeDelta gs w) gs.minStartTime := by
    rw [advancedVirtualTime_eq, if_neg (by omega)]
  have hoff : updateOffset gs w ≤ advancedVirtualTime gs w := rebaseOffsetAt_le _
  have hreach : Reaches ideal (virtualTimeDelta gs w) (advancedVirtualTime gs w + off) := by
    constructor
    · omega
    · intro q hq
      obtain ⟨s, hs, hstands⟩ := h.session_of hq
      have hstart := hstands.start
      have hle := hsearch.cache.least.le s hs
      dsimp only at hle
      omega
    · intro hbusy
      obtain ⟨s, hs, hmin⟩ := h.least hsearch fun hzero => hbusy (h.queue_eq_zero.mpr hzero)
      obtain ⟨q, hq, hstands⟩ := h.packet_of hs
      have hstart := hstands.start
      rcases Nat.lt_or_ge (gs.virtualTime + virtualTimeDelta gs w) gs.minStartTime with hlt | hge
      · exact .inr ⟨q, hq, by omega⟩
      · exact .inl (by omega)
  refine ⟨_, .advance hreach, ?_⟩
  constructor
  · exact (updateVirtualTime_totals gs w).2.2.2.2.trans h.capacity
  · rw [updateVirtualTime_virtualTime]
    dsimp only
    omega
  · rw [updateVirtualTime_queued, Multiset.rel_map_left]
    apply h.queue.mono
    intro s hs p _ hstands
    have hcut := huncut s hs
    constructor
    · exact hstands.item
    · exact hstands.flow
    · exact hstands.cost
    · rw [rebase_startTime, hstands.start]
      omega
    · rw [rebase_finishTime, hstands.finish]
      omega
    · have := hstands.selectable
      rw [rebase_finishTime]
      omega
  · intro id e he
    rw [updateVirtualTime_activeEntry hsearch.inv.nodup hsearch.inv.listed] at he
    obtain ⟨e₀, he₀, rfl⟩ := Option.map_eq_some_iff.mp he
    have := h.tags id e₀ he₀
    simp only [rebaseTime_eq_sub]
    omega
  · rw [updateVirtualTime_queued, Multiset.card_map]
    exact h.few

theorem Implements.enqueued {id w : ℕ} {entry : EntryConfig} (hadm : Admissible gs id w entry)
    (hroom : max gs.virtualTime entry.lastFinishTime +
      serviceIntervalOf w (entryRate gs entry) < uint64Max)
    (hfew : gs.queued.card < uint32Max) (addr : Addr) (ud : Option α) (cf : Bool) :
    ∃ ideal', IdealQueue.Step ideal
        (.arrive id (serviceIntervalOf w (entryRate gs entry)) (advanceAt cap (chargedWork w))
          (newSession gs entry addr id w ud cf).untimed) ideal' ∧
      Implements off cap (Hwfq.enqueued gs id (newSession gs entry addr id w ud cf)) ideal' := by
  have hstart := newSession_startTime gs entry addr id w ud cf
  have hfinish : (newSession gs entry addr id w ud cf).finishTime =
      (newSession gs entry addr id w ud cf).startTime +
        serviceIntervalOf w (entryRate gs entry) := by
    rw [newSession_finishTime, if_neg]
    · rfl
    · rw [hstart, show (newSession gs entry addr id w ud cf).serviceInterval =
        serviceIntervalOf w (entryRate gs entry) from rfl]
      omega
  have hclock := h.clock
  have htag : entry.lastFinishTime = ideal.last id - off :=
    h.tags id entry.core (activeEntry_of_find hadm.found)
  refine ⟨_, .arrive, ?_⟩
  constructor
  · exact (congrArg Ledger.totalCapacity (enqueued_ledger id gs _)).trans h.capacity
  · rw [enqueued_virtualTime]
    exact hclock
  · rw [hadm.queued addr ud cf]
    apply Multiset.Rel.cons _ h.queue
    constructor
    · rfl
    · rfl
    · rfl
    · dsimp only [IdealQueue.State.packet]
      omega
    · dsimp only [IdealQueue.State.packet]
      omega
    · dsimp only
      omega
  · intro j e he
    rw [enqueued_activeEntry] at he
    dsimp only [IdealQueue.State.packet]
    split_ifs at he with hj
    · obtain ⟨e₀, -, rfl⟩ := Option.map_eq_some_iff.mp he
      rw [hj, Function.update_self]
      dsimp only
      omega
    · rw [Function.update_of_ne hj]
      exact h.tags j e he
  · rw [hadm.queued addr ud cf, Multiset.card_cons]
    exact hfew

/-- What touches neither the queue nor the clock, and keeps or drops the tags. -/
theorem Implements.of_queueView (hview : gs'.queueView = gs.queueView)
    (hcap : gs'.totalCapacity = gs.totalCapacity) {last : ℕ → ℕ}
    (htags : ∀ id e, activeEntry gs' id = some e → e.lastFinishTime = last id - off) :
    Implements off cap gs' { ideal with last := last } := by
  have hqueued := queued_of_queueView hview
  constructor
  · exact hcap.trans h.capacity
  · rw [show gs'.virtualTime = gs.virtualTime from congrArg QueueView.virtualTime hview]
    exact h.clock
  · rw [hqueued]
    exact h.queue
  · exact htags
  · rw [hqueued]
    exact h.few

theorem Implements.removed (id : ℕ) :
    Implements off cap (groupSchedulerRemoveEntry gs id).2 ideal := by
  apply h.of_queueView (removeEntry_queueView gs id)
    (congrArg Bounds.totalCapacity (removeEntry_bounds gs id))
  intro j e he
  rcases removeEntry_cases gs id with ⟨heq, -⟩ | ⟨heq, -⟩ | ⟨hid, -, entry, hfind, -⟩
  · rw [heq] at he
    exact h.tags j e he
  · rw [heq] at he
    exact h.tags j e he
  · rw [removeEntry_activeEntry hfind hid] at he
    split_ifs at he
    exact h.tags j e he

/-- Only a configuration that succeeds sets a tag. -/
theorem Implements.configured (hinv : GroupInv mem gs) (id : ℕ) (a : Allocation) :
    Implements off cap (groupSchedulerConfigureEntry gs id a).2
      { ideal with
        last := if (groupSchedulerConfigureEntry gs id a).1 = .success then
          Function.update ideal.last id 0 else ideal.last } := by
  apply h.of_queueView (configureEntry_queueView hinv.sums id a)
    (congrArg Bounds.totalCapacity (configureEntry_bounds hinv.sums id a))
  intro j e he
  rcases configureEntry_cases hinv.sums id a with
    ⟨heq, -⟩ | ⟨heq, -⟩ | ⟨-, -, entry, hget, ⟨heq, -⟩ | ⟨heq, -⟩⟩
  · rw [heq] at he ⊢
    exact h.tags j e he
  · rw [heq] at he ⊢
    exact h.tags j e he
  · rw [heq] at he ⊢
    exact h.tags j e he
  · rw [heq, commitEntry_activeEntry a (by rwa [releasedFor_entries])] at he
    rw [heq, if_pos rfl]
    split_ifs at he with hj
    · cases he
      rw [hj, Function.update_self]
      exact (Nat.zero_sub off).symm
    · rw [activeEntry, releasedFor_entries] at he
      rw [Function.update_of_ne hj]
      exact h.tags j e he

end Implements

/-! ## Runs -/

/-- What a call asks of the ideal queue. -/
def GroupState.event (st : GroupState α) :
    GroupCall α → Option (Event ℕ (SessionState α))
  | .configureEntry id a =>
      if (groupSchedulerConfigureEntry st.gs id.toNat a).1 = .success then some (.clear id.toNat)
      else none
  | .removeEntry _ => none
  | .enqueue id w ud cf =>
      if (groupSchedulerEnqueue st.mem st.gs id.toNat w.toNat ud cf).session.isSome then
        (groupSchedulerFindEntry st.gs id.toNat).map fun entry =>
          .arrive id.toNat (serviceIntervalOf w.toNat (entryRate st.gs entry))
            (virtualTimeDelta st.gs w.toNat)
            (newSession st.gs entry st.mem.next id.toNat w.toNat ud cf).untimed
      else none
  | .dequeue => (groupSchedulerDequeue st.gs).1.map fun s => .take s.untimed
  | .updateVirtualTime w => some (.advance (virtualTimeDelta st.gs w.toNat))

/-- The events of a run of calls. -/
def events (st : GroupState α) (calls : List (GroupCall α)) :
    List (Event ℕ (SessionState α)) :=
  (outputs GroupState.step GroupState.event st calls).reduceOption

/-- No finish is capped or cut off by the call. -/
def InRange (st : GroupState α) : GroupCall α → Prop
  | .enqueue id w _ _ =>
      (∀ entry ∈ groupSchedulerFindEntry st.gs id.toNat,
        max st.gs.virtualTime entry.lastFinishTime +
          serviceIntervalOf w.toNat (entryRate st.gs entry) < uint64Max) ∧
      st.gs.queued.card < uint32Max
  | .updateVirtualTime w =>
      st.gs.virtualTime + virtualTimeDelta st.gs w.toNat ≤ uint64Max ∧
        ∀ s ∈ st.gs.queued, updateOffset st.gs w.toNat ≤ s.finishTime
  | _ => True

instance (st : GroupState α) (c : GroupCall α) : Decidable (InRange st c) :=
  match c with
  | .configureEntry _ _ => inferInstanceAs (Decidable True)
  | .removeEntry _ => inferInstanceAs (Decidable True)
  | .enqueue id w _ _ => inferInstanceAs (Decidable
      ((∀ entry ∈ groupSchedulerFindEntry st.gs id.toNat,
        max st.gs.virtualTime entry.lastFinishTime +
          serviceIntervalOf w.toNat (entryRate st.gs entry) < uint64Max) ∧
      st.gs.queued.card < uint32Max))
  | .dequeue => inferInstanceAs (Decidable True)
  | .updateVirtualTime w => inferInstanceAs (Decidable
      (st.gs.virtualTime + virtualTimeDelta st.gs w.toNat ≤ uint64Max ∧
        ∀ s ∈ st.gs.queued, updateOffset st.gs w.toNat ≤ s.finishTime))

theorem Implements.step {st : GroupState α} (h : Implements off cap st.gs ideal)
    (hsearch : Searchable st) {c : GroupCall α} (hc : InRange st c) :
    ∃ off' ideal', IdealQueue.Run IdealQueue.Step ideal (st.event c).toList ideal' ∧
      Implements off' cap (st.step c).gs ideal' := by
  have hinv := hsearch.inv
  cases c with
  | configureEntry id a =>
    refine ⟨off, _, ?_, h.configured hinv id.toNat a⟩
    dsimp only [GroupState.event]
    split_ifs
    · exact .single IdealQueue.Step.clear
    · exact .nil _
  | removeEntry id => exact ⟨off, ideal, .nil _, h.removed id.toNat⟩
  | enqueue id w ud cf =>
    rcases enqueue_cases st.mem st.gs id.toNat w.toNat ud cf with
      ⟨-, heq, hsession, -⟩ | ⟨-, hsession, -, -, entry, hadm, heq⟩
    · refine ⟨off, ideal, ?_, ?_⟩
      · rw [GroupState.event, hsession]
        exact .nil _
      · rw [GroupState.step, heq]
        exact h
    · obtain ⟨ideal', hstep, hnext⟩ :=
        h.enqueued hadm (hc.1 entry hadm.found) hc.2 st.mem.next ud cf
      refine ⟨off, ideal', ?_, ?_⟩
      · rw [GroupState.event, hsession, hadm.found, virtualTimeDelta_charged, h.capacity]
        exact .single hstep
      · rw [GroupState.step, heq]
        exact hnext
  | dequeue =>
    have hstate : (st.step .dequeue).gs = (groupSchedulerDequeue st.gs).2 := rfl
    rw [hstate, GroupState.event]
    cases hret : (groupSchedulerDequeue st.gs).1 with
    | none =>
      have hsame := (h.idle hsearch hret).2
      rw [hsame]
      exact ⟨off, ideal, .nil _, h⟩
    | some s =>
      obtain ⟨ideal', hstep, hnext⟩ := h.dequeued hsearch (Prod.ext hret rfl)
      exact ⟨off, ideal', .single hstep, hnext⟩
  | updateVirtualTime w =>
    obtain ⟨ideal', hstep, hnext⟩ := h.updated hsearch hc.1 hc.2
    exact ⟨_, ideal', .single hstep, hnext⟩

theorem Implements.run {st : GroupState α} (h : Implements off cap st.gs ideal)
    (hsearch : Searchable st) {calls : List (GroupCall α)}
    (hcalls : Along GroupState.step InRange st calls) :
    ∃ off' ideal', IdealQueue.Run IdealQueue.Step ideal (events st calls) ideal' ∧
      Implements off' cap (GuardedRuns.run GroupState.step st calls).gs ideal' := by
  induction calls generalizing st off ideal with
  | nil => exact ⟨off, ideal, .nil _, h⟩
  | cons c calls ih =>
    obtain ⟨off₁, ideal₁, hfirst, hnext⟩ := h.step hsearch hcalls.1
    obtain ⟨off', ideal', hrest, hlast⟩ := ih hnext (hsearch.step c) hcalls.2
    refine ⟨off', ideal', ?_, hlast⟩
    have hevents : events st (c :: calls) = (st.event c).toList ++ events (st.step c) calls := by
      unfold events
      rw [outputs_cons]
      cases st.event c <;> rfl
    rw [hevents]
    exact hfirst.append hrest

theorem Fresh.implements {numGroups binsPerGroup totalCapacity maxEntries : ℕ} {st : GroupState α}
    (h : Fresh numGroups binsPerGroup totalCapacity maxEntries st) :
    Implements 0 totalCapacity st.gs (IdealQueue.State.init ℕ (SessionState α)) := by
  constructor
  · exact h.booked.capacity
  · exact h.virtualTime.symm
  · rw [h.queued]
    exact Multiset.Rel.zero
  · intro id e he
    rw [h.activeEntry] at he
    cases he
  · rw [h.queued]
    exact Nat.zero_le _

/-- Every run of calls, of any length and through any number of rebases, in which no finish is
capped or cut off is a run of the ideal queue: it accepts the same sessions for the same
stretches of time and returns a session only where the ideal queue may return it. -/
theorem group_runs_ideally {numGroups binsPerGroup totalCapacity maxEntries : ℕ}
    {st₀ : GroupState α} (hfresh : Fresh numGroups binsPerGroup totalCapacity maxEntries st₀)
    (hbins : st₀.gs.numBins ≤ 32768) {calls : List (GroupCall α)}
    (hcalls : Along GroupState.step InRange st₀ calls) :
    ∃ off ideal, IdealQueue.Run IdealQueue.Step (IdealQueue.State.init ℕ (SessionState α))
        (events st₀ calls) ideal ∧
      Implements off totalCapacity (run GroupState.step st₀ calls).gs ideal :=
  hfresh.implements.run (hfresh.searchable hbins) hcalls

/-- Two entries are served in turn; the clock is rebased when the queue runs empty and again
after that. -/
def rebasedRun : List (GroupCall ℕ) :=
  [.configureEntry 0 (.rate 20), .configureEntry 1 (.weight 3), .enqueue 0 5 (some 1) false,
    .enqueue 1 9 (some 2) false, .dequeue, .updateVirtualTime 5, .dequeue, .updateVirtualTime 9,
    .enqueue 0 7 (some 3) false, .enqueue 1 2 (some 4) false, .dequeue, .updateVirtualTime 7,
    .dequeue]

theorem group_runs_ideally_rebased :
    ∃ off ideal, IdealQueue.Run IdealQueue.Step (IdealQueue.State.init ℕ (SessionState ℕ))
        (events smallGroup rebasedRun) ideal ∧
      Implements off 100 (run GroupState.step smallGroup rebasedRun).gs ideal :=
  group_runs_ideally smallGroup_fresh (by decide +kernel) (by decide +kernel)

end Hwfq
