import Hwfq.GroupRuns

/-!
# Removal of a queued session

`group_scheduler_remove_session` takes a session out of the middle of the queue.
With it the machine of one group scheduler has every call of its interface.
-/
namespace Hwfq
open GuardedRuns Bins

variable {α : Type*} {gs : GroupScheduler α} {mem : Allocator} {s : SessionState α}

/-- The session object is freed after the removal. -/
def groupSchedulerRemoveSession (gs : GroupScheduler α) (session : SessionState α) :
    Status × GroupScheduler α :=
  match calendarRemoveSession gs session with
  | (.success, gs) =>
      (.success, { gs with activeSessionCount := subU32 gs.activeSessionCount 1 })
  | (ret, gs) => (ret, gs)

/-- The queued object at an address. -/
def GroupScheduler.sessionAt (gs : GroupScheduler α) (addr : Addr) : Option (SessionState α) :=
  ((List.range gs.numBins).flatMap gs.binHeads).find? fun s => s.addr = addr

/-- One call on a group scheduler, the removal of a queued session included. -/
inductive CalendarCall (α : Type*) where
  | group (call : GroupCall α)
  | removeSession (addr : Addr)

/-- An address at which nothing is queued is no argument of a removal. -/
def GroupState.calendarStep (st : GroupState α) : CalendarCall α → GroupState α
  | .group c => st.step c
  | .removeSession addr =>
      match st.gs.sessionAt addr with
      | none => st
      | some s => { st with gs := (groupSchedulerRemoveSession st.gs s).2 }

/-- The session that a call takes out of the queue. -/
def GroupState.taken (st : GroupState α) : CalendarCall α → Option (SessionState α)
  | .group c => st.returned c
  | .removeSession addr => st.gs.sessionAt addr

/-! ## Finding an object -/

theorem queued_eq_flatMap (gs : GroupScheduler α) :
    gs.queued = ((List.range gs.numBins).flatMap gs.binHeads : Multiset (SessionState α)) := by
  rw [GroupScheduler.queued, contents]
  induction gs.numBins with
  | zero => rfl
  | succ n ih =>
    rw [Finset.sum_range_succ, ih, List.range_succ, List.flatMap_append, List.flatMap_singleton]
    exact Multiset.coe_add _ _

theorem sessionAt_some {addr : Addr} (h : gs.sessionAt addr = some s) :
    s ∈ gs.queued ∧ s.addr = addr := by
  rw [queued_eq_flatMap]
  constructor
  · exact List.mem_of_find?_eq_some h
  · have haddr := List.find?_some h
    simpa using haddr

/-- An object is found at its own address. -/
theorem CalendarInv.sessionAt (h : CalendarInv gs) (hs : s ∈ gs.queued) :
    gs.sessionAt s.addr = some s := by
  have hin : s ∈ (List.range gs.numBins).flatMap gs.binHeads := by
    rw [queued_eq_flatMap] at hs
    exact hs
  cases hfind : gs.sessionAt s.addr with
  | none =>
    have hnone := List.find?_eq_none.mp hfind s hin
    simp at hnone
  | some t =>
    obtain ⟨ht, haddr⟩ := sessionAt_some hfind
    have hinj := Multiset.inj_on_of_nodup_map h.addrs t ht s hs haddr
    rw [hinj]

/-! ## The invariant -/

/-- The scheduler after `s` was taken out by a removal. -/
def sessionRemoved (gs : GroupScheduler α) (s : SessionState α) : GroupScheduler α :=
  { removed gs s with activeSessionCount := subU32 gs.activeSessionCount 1 }

theorem removeSession_eq (h : CalendarInv gs) (hs : s ∈ gs.queued) :
    groupSchedulerRemoveSession gs s = (.success, sessionRemoved gs s) := by
  have hb := h.lt_numBins (h.mem_queued.mp hs)
  have hrem : calendarRemoveSession gs s = (.success, removed gs s) :=
    Prod.ext (calendarRemoveSession_status hb) rfl
  simp only [groupSchedulerRemoveSession, hrem, removed_activeSessionCount, sessionRemoved]

theorem sessionRemoved_queued (h : CalendarInv gs) (hs : s ∈ gs.queued) :
    gs.queued = s ::ₘ (sessionRemoved gs s).queued := removed_queued h hs

theorem GroupInv.removeSession (h : GroupInv mem gs) (hs : s ∈ gs.queued) :
    GroupInv mem (sessionRemoved gs s) := by
  have hq := sessionRemoved_queued h.calendar hs
  have hsub : ∀ t ∈ (sessionRemoved gs s).queued, t ∈ gs.queued := by
    intro t ht
    rw [hq]
    exact Multiset.mem_cons_of_mem ht
  have hledger : (sessionRemoved gs s).ledger = gs.ledger := @removed_ledger _ gs s
  have hlist : (sessionRemoved gs s).configuredEntries = gs.configuredEntries :=
    congrArg Ledger.configuredEntries hledger
  have hact : ∀ j, activeEntry (sessionRemoved gs s) j = activeEntry gs j :=
    activeEntry_of_ledger hledger
  have hclock : (sessionRemoved gs s).virtualTime = gs.virtualTime := @removed_virtualTime _ gs s
  have hcache : (sessionRemoved gs s).minStartTime ≤ uint64Max := by
    have hb := h.calendar.lt_numBins (h.calendar.mem_queued.mp hs)
    have hmin : (sessionRemoved gs s).minStartTime = _ := removed_minStartTime hb
    rw [hmin]
    split_ifs
    · exact rescan_le _
    · exact h.cache
  constructor
  · exact (h.calendar.remove hs).congr rfl rfl rfl rfl
  · intro t ht
    exact h.fresh t (hsub t ht)
  · intro t ht
    exact h.stamps t (hsub t ht)
  · exact hclock.trans_lt h.clock
  · exact hcache
  · intro j e he
    exact h.tags j e (hact j ▸ he)
  · exact ⟨(congrArg Ledger.allocatedRateCapacity hledger).trans_le h.sums.rates,
      (congrArg Ledger.totalWeight hledger).trans_le h.sums.weights⟩
  · exact hlist ▸ h.nodup
  · intro j
    rw [hlist, hact, h.listed]
  · have hcount : (sessionRemoved gs s).activeSessionCount = subU32 gs.activeSessionCount 1 := rfl
    rw [hcount, h.count, hq, Multiset.card_cons, subU32_one]

/-- What one call does, the removal of a queued session included. -/
inductive CalendarEffect (st st' : GroupState α) : CalendarCall α → Prop
  | group {c} (effect : GroupEffect st st' c) : CalendarEffect st st' (.group c)
  | absent {addr} (none : st.gs.sessionAt addr = none) (after : st' = st) :
      CalendarEffect st st' (.removeSession addr)
  | removed {addr s} (found : st.gs.sessionAt addr = some s) (queued : s ∈ st.gs.queued)
      (after : st' = { st with gs := sessionRemoved st.gs s }) :
      CalendarEffect st st' (.removeSession addr)

theorem GroupInv.calendarEffect {st : GroupState α} (h : GroupInv st.mem st.gs)
    (c : CalendarCall α) : CalendarEffect st (st.calendarStep c) c := by
  cases c with
  | group c => exact .group (h.stepEffect c)
  | removeSession addr =>
    cases hfind : st.gs.sessionAt addr with
    | none => exact .absent hfind (by simp only [GroupState.calendarStep, hfind])
    | some s =>
      obtain ⟨hs, -⟩ := sessionAt_some hfind
      refine .removed hfind hs ?_
      simp only [GroupState.calendarStep, hfind, removeSession_eq h.calendar hs]

theorem GroupInv.calendarStep {st : GroupState α} (h : GroupInv st.mem st.gs)
    (c : CalendarCall α) : GroupInv (st.calendarStep c).mem (st.calendarStep c).gs := by
  cases h.calendarEffect c with
  | @group c => exact h.step c
  | absent _ after =>
    rw [after]
    exact h
  | removed _ queued after =>
    rw [after]
    exact h.removeSession queued

theorem GroupState.calendarStep_geometry {st : GroupState α} (h : GroupInv st.mem st.gs)
    (c : CalendarCall α) : (st.calendarStep c).gs.geometry = st.gs.geometry := by
  cases h.calendarEffect c with
  | @group c => exact GroupState.step_geometry h c
  | absent _ after => rw [after]
  | @removed _ s _ _ after =>
    rw [after]
    exact @removed_geometry _ st.gs s

/-- A queued session was there before the call, up to a rebase, or the call has put it in. -/
theorem CalendarEffect.session {st st' : GroupState α} {c : CalendarCall α}
    (h : CalendarEffect st st' c) (hcal : CalendarInv st.gs) (hs : s ∈ st'.gs.queued) :
    (∃ t ∈ st.gs.queued, ∃ off, s = t.rebase off) ∨
      ∃ id w ud cf entry, c = .group (.enqueue id w ud cf) ∧
        (groupSchedulerEnqueue st.mem st.gs id.toNat w.toNat ud cf).session = some st.mem.next ∧
        s = { newSession st.gs entry st.mem.next id.toNat w.toNat ud cf with
          binIndex := newSessionBin st.gs entry w.toNat } := by
  have hold : s ∈ st.gs.queued → ∃ t ∈ st.gs.queued, ∃ off, s = t.rebase off := fun hs =>
    ⟨s, hs, 0, s.rebase_zero.symm⟩
  cases h with
  | absent _ after => exact .inl (hold (after ▸ hs))
  | removed _ queued after =>
    rw [after] at hs
    apply Or.inl
    apply hold
    rw [sessionRemoved_queued hcal queued]
    exact Multiset.mem_cons_of_mem hs
  | group effect =>
    cases effect with
    | configured view => exact .inl (hold (queued_of_queueView view ▸ hs))
    | removed view => exact .inl (hold (queued_of_queueView view ▸ hs))
    | refused _ _ same => exact .inl (hold (same ▸ hs))
    | @enqueued id w ud cf entry _ hadm session after =>
      rw [after, hadm.queued] at hs
      rcases Multiset.mem_cons.mp hs with rfl | hs
      · exact .inr ⟨id, w, ud, cf, entry, rfl, session, rfl⟩
      · exact .inl (hold hs)
    | missed _ _ _ after =>
      rw [after] at hs
      exact .inl (hold hs)
    | dequeued _ found _ after =>
      rw [after] at hs
      apply Or.inl
      apply hold
      rw [dequeued_queued hcal (findEligible_some hcal found).1]
      exact Multiset.mem_cons_of_mem hs
    | updated after =>
      rw [after, updateVirtualTime_queued] at hs
      obtain ⟨t, ht, rfl⟩ := Multiset.mem_map.mp hs
      exact .inl ⟨t, ht, _, rfl⟩

/-- The invariant holds in every state of every run of a fresh scheduler. -/
theorem Fresh.calendarRun {numGroups binsPerGroup totalCapacity maxEntries : ℕ}
    {st : GroupState α} (h : Fresh numGroups binsPerGroup totalCapacity maxEntries st)
    (calls : List (CalendarCall α)) :
    let st' := run GroupState.calendarStep st calls
    GroupInv st'.mem st'.gs :=
  run_invariant_all (I := fun st : GroupState α => GroupInv st.mem st.gs) (fun _ c hst => hst.calendarStep c)
    h.inv calls

end Hwfq
