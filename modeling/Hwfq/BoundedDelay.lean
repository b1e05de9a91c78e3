import Hwfq.BoundedLateness
import Hwfq.IdealScheduler

/-!
# The WF2Q+ delay bound of one group scheduler

Each entry reserves a share of the clock. While the charge of every session is within the
share of its entry, and the clock is charged for the sessions that were returned and for
nothing else, a session waits no longer than its own interval and one largest session after
the sessions of its entry that came before it. Sessions may arrive in any pattern, and the
clock may be rebased any number of times on the way.
-/
namespace Hwfq
open GuardedRuns IdealQueue

variable {α : Type*} {S : Shares ℕ} {most off cap : ℕ}
  {ideal ideal' : IdealQueue.State ℕ (SessionState α)}

/-- A group scheduler and what is still to be charged for the session it returned last. -/
structure Metered (α : Type*) where
  st : GroupState α
  due : ℕ

def Metered.step (m : Metered α) (c : GroupCall α) : Metered α where
  st := m.st.step c
  due := match c with
    | .dequeue =>
        match m.st.returned .dequeue with
        | some s => virtualTimeDelta m.st.gs s.workSize
        | none => m.due
    | .updateVirtualTime w => m.due - virtualTimeDelta m.st.gs w.toNat
    | _ => m.due

/-- The entry is not ahead of the clock. -/
def Settled (gs : GroupScheduler α) (id : ℕ) : Prop :=
  ∀ entry ∈ groupSchedulerFindEntry gs id, entry.lastFinishTime ≤ gs.virtualTime

/-- Sessions are accepted within the share of their entry and below the end of the clock, what
was returned is charged no more than once, and an entry is configured or removed only when it
is not ahead. -/
def ServesShares (S : Shares ℕ) (most : ℕ) (m : Metered α) : GroupCall α → Prop
  | .configureEntry id _ => Settled m.st.gs id.toNat
  | .removeEntry id => Settled m.st.gs id.toNat
  | .enqueue id w _ _ =>
      (∀ entry ∈ groupSchedulerFindEntry m.st.gs id.toNat,
        max m.st.gs.virtualTime entry.lastFinishTime +
            serviceIntervalOf w.toNat (entryRate m.st.gs entry) < uint64Max ∧
          Priced S most id.toNat (serviceIntervalOf w.toNat (entryRate m.st.gs entry))
            (virtualTimeDelta m.st.gs w.toNat)) ∧
      m.st.gs.queued.card < uint32Max
  | .dequeue => True
  | .updateVirtualTime w =>
      virtualTimeDelta m.st.gs w.toNat ≤ m.due ∧
        m.st.gs.virtualTime + virtualTimeDelta m.st.gs w.toNat ≤ uint64Max

/-- A packet arrives for a configured entry, with the address that is handed out next. -/
theorem GroupState.event_arrive {st : GroupState α} {c : GroupCall α} {id span cost : ℕ}
    {item : SessionState α} (he : st.event c = some (.arrive id span cost item)) :
    (activeEntry st.gs id).isSome = true ∧ item.addr = st.mem.next := by
  cases c with
  | enqueue i w ud cf =>
    dsimp only [GroupState.event] at he
    split_ifs at he
    obtain ⟨entry, hentry, heq⟩ := Option.map_eq_some_iff.mp he
    cases heq
    rw [activeEntry_of_find hentry]
    exact ⟨rfl, rfl⟩
  | configureEntry i a =>
    dsimp only [GroupState.event] at he
    split_ifs at he
    cases he
  | removeEntry i => cases he
  | dequeue =>
    obtain ⟨s, -, heq⟩ := Option.map_eq_some_iff.mp he
    cases heq
  | updateVirtualTime w => cases he

/-- Only a removal makes an entry unconfigured. -/
theorem GroupInv.active_step {st : GroupState α} (h : GroupInv st.mem st.gs) {c : GroupCall α}
    {id : ℕ} (hid : activeEntry (st.step c).gs id = none) :
    activeEntry st.gs id = none ∨ ∃ id', c = .removeEntry id' ∧ id'.toNat = id := by
  cases c with
  | configureEntry i a =>
    left
    have hstate : (st.step (.configureEntry i a)).gs =
        (groupSchedulerConfigureEntry st.gs i.toNat a).2 := rfl
    rw [hstate] at hid
    rcases configureEntry_cases h.sums i.toNat a with
      ⟨heq, -⟩ | ⟨heq, -⟩ | ⟨-, -, entry, hget, ⟨heq, -⟩ | ⟨heq, -⟩⟩
    · rwa [heq] at hid
    · rwa [heq] at hid
    · rwa [heq] at hid
    · rw [heq, commitEntry_activeEntry a (by rwa [releasedFor_entries])] at hid
      split_ifs at hid
      rwa [activeEntry, releasedFor_entries] at hid
  | removeEntry i =>
    have hstate : (st.step (.removeEntry i)).gs = (groupSchedulerRemoveEntry st.gs i.toNat).2 := rfl
    rw [hstate] at hid
    rcases removeEntry_cases st.gs i.toNat with ⟨heq, -⟩ | ⟨heq, -⟩ | ⟨hlt, -, entry, hfind, -⟩
    · rw [heq] at hid
      exact .inl hid
    · rw [heq] at hid
      exact .inl hid
    · rw [removeEntry_activeEntry hfind hlt] at hid
      split_ifs at hid with hi
      · exact .inr ⟨i, rfl, hi.symm⟩
      · exact .inl hid
  | enqueue i w ud cf =>
    left
    rcases enqueue_cases st.mem st.gs i.toNat w.toNat ud cf with
      ⟨-, heq, -⟩ | ⟨-, -, -, -, entry, -, heq⟩
    · rwa [GroupState.step, heq] at hid
    · rw [GroupState.step, heq, enqueued_activeEntry] at hid
      split_ifs at hid
      · exact Option.map_eq_none_iff.mp hid
      · exact hid
  | dequeue =>
    left
    rwa [GroupState.step, activeEntry_of_ledger (dequeue_ledger st.gs)] at hid
  | updateVirtualTime w =>
    left
    rw [GroupState.step, updateVirtualTime_activeEntry h.nodup h.listed] at hid
    exact Option.map_eq_none_iff.mp hid

/-- The scheduler does what the ideal queue does, and that one is punctual. -/
structure OnSchedule (S : Shares ℕ) (most off cap : ℕ) (m : Metered α)
    (ideal : IdealQueue.State ℕ (SessionState α)) : Prop where
  searchable : Searchable m.st
  implements : Implements off cap m.st.gs ideal
  punctual : Punctual S most ideal
  due : ideal.due = m.due
  settled : ∀ id, activeEntry m.st.gs id = none → ideal.last id ≤ ideal.clock

section OnSchedule
variable {m : Metered α} (h : OnSchedule S most off cap m ideal) {c : GroupCall α}
include h

/-- A session that waits is on time. -/
theorem OnSchedule.bound {s : SessionState α} (hs : s ∈ m.st.gs.queued) :
    m.st.gs.virtualTime + m.due + virtualTimeDelta m.st.gs s.workSize ≤ s.finishTime + most := by
  obtain ⟨p, hp, hstands⟩ := h.implements.packet_of hs
  have hbound := h.punctual.bound hp
  have hclock := h.implements.clock
  have hdue := h.due
  have hfinish := hstands.finish
  have hcost := hstands.cost
  rw [virtualTimeDelta_charged, h.implements.capacity, ← hcost]
  omega

/-- A clock that is on time leaves no finish behind by half of its range. -/
theorem OnSchedule.inRange (hmost : most < 2 ^ 62) (hc : ServesShares S most m c) :
    InRange m.st c := by
  cases c with
  | enqueue id w ud cf =>
    refine ⟨?_, hc.2⟩
    intro entry hentry
    exact (hc.1 entry hentry).1
  | updateVirtualTime w =>
    refine ⟨hc.2, ?_⟩
    intro s hs
    have hbound := h.bound hs
    have hdue := hc.1
    have hroom := hc.2
    have hle := h.searchable.cache.least.le s hs
    have hstamps := h.searchable.inv.stamps s hs
    have hadvance : advancedVirtualTime m.st.gs w.toNat =
        max (m.st.gs.virtualTime + virtualTimeDelta m.st.gs w.toNat) m.st.gs.minStartTime := by
      rw [advancedVirtualTime_eq, if_neg (by omega)]
    unfold updateOffset rebaseOffsetAt
    rw [hadvance]
    unfold rebaseThreshold uint64Max
    split_ifs <;> omega
  | _ => trivial

/-- What an entry has been served by is behind the clock when its tag is. -/
theorem OnSchedule.last_le {id : ℕ} (hid : Settled m.st.gs id) : ideal.last id ≤ ideal.clock := by
  cases hfind : groupSchedulerFindEntry m.st.gs id with
  | none => exact h.settled id (activeEntry_none_iff.mpr hfind)
  | some entry =>
    have htag := h.implements.tags id entry.core (activeEntry_of_find hfind)
    have hcore : entry.core.lastFinishTime = entry.lastFinishTime := rfl
    have hclock := h.implements.clock
    have := hid entry hfind
    omega

/-- The events of such a call are within the shares. -/
theorem OnSchedule.withinShare (hc : ServesShares S most m c) {e : Event ℕ (SessionState α)}
    (he : m.st.event c = some e) : WithinShare S most ideal e := by
  cases c with
  | configureEntry id a =>
    dsimp only [GroupState.event] at he
    split_ifs at he
    cases he
    exact h.last_le hc
  | removeEntry id => cases he
  | enqueue id w ud cf =>
    dsimp only [GroupState.event] at he
    split_ifs at he
    obtain ⟨entry, hentry, rfl⟩ := Option.map_eq_some_iff.mp he
    exact ⟨serviceIntervalOf_pos _ _, (hc.1 entry hentry).2⟩
  | dequeue =>
    obtain ⟨s, -, rfl⟩ := Option.map_eq_some_iff.mp he
    trivial
  | updateVirtualTime w =>
    cases he
    exact hc.1.trans_eq h.due.symm

/-- What is due after a call is due in the ideal queue as well. -/
theorem OnSchedule.due_step
    (hrun : IdealQueue.Run IdealQueue.Step ideal (m.st.event c).toList ideal') :
    ideal'.due = (m.step c).due := by
  have hdue := h.due
  cases he : m.st.event c with
  | none =>
    rw [he] at hrun
    cases hrun
    rw [hdue]
    cases c with
    | dequeue =>
      have hnone : m.st.returned .dequeue = none := Option.map_eq_none_iff.mp he
      simp only [Metered.step, hnone]
    | updateVirtualTime w => cases he
    | _ => rfl
  | some e =>
    rw [he] at hrun
    have hstep := hrun.step_of_single
    cases c with
    | configureEntry id a =>
      dsimp only [GroupState.event] at he
      split_ifs at he
      cases he
      cases hstep
      exact hdue
    | removeEntry id => cases he
    | enqueue id w ud cf =>
      dsimp only [GroupState.event] at he
      split_ifs at he
      obtain ⟨entry, -, rfl⟩ := Option.map_eq_some_iff.mp he
      cases hstep
      exact hdue
    | dequeue =>
      obtain ⟨s, hs, rfl⟩ := Option.map_eq_some_iff.mp he
      obtain ⟨p, rest, v, hitem, hqueue, -, -, -, rfl⟩ := hstep.take_cases
      have hp : p ∈ ideal.queue := hqueue ▸ Multiset.mem_cons_self p rest
      have hret : m.st.returned .dequeue = some s := hs
      simp only [Metered.step, hret]
      rw [h.implements.cost_of hp, hitem, virtualTimeDelta_charged, h.implements.capacity]
      rfl
    | updateVirtualTime w =>
      cases he
      cases hstep
      exact congrArg (· - virtualTimeDelta m.st.gs w.toNat) hdue

/-- An entry that is not configured is behind the clock. -/
theorem OnSchedule.settled_step (hc : ServesShares S most m c)
    (hrun : IdealQueue.Run IdealQueue.Step ideal (m.st.event c).toList ideal') (id : ℕ)
    (hid : activeEntry (m.st.step c).gs id = none) : ideal'.last id ≤ ideal'.clock := by
  have hold : ideal.last id ≤ ideal.clock := by
    rcases h.searchable.inv.active_step hid with hnone | ⟨i, rfl, rfl⟩
    · exact h.settled id hnone
    · exact h.last_le hc
  cases he : m.st.event c with
  | none =>
    rw [he] at hrun
    cases hrun
    exact hold
  | some e =>
    rw [he] at hrun
    have hstep := hrun.step_of_single
    have hclock := hstep.charged
    rcases hstep.last_le id with hle | ⟨span, cost, item, rfl⟩
    · omega
    · exfalso
      have hactive := (GroupState.event_arrive he).1
      rcases h.searchable.inv.active_step hid with hnone | ⟨j, rfl, -⟩
      · rw [hnone] at hactive
        cases hactive
      · cases he

theorem OnSchedule.step (hmost : most < 2 ^ 62) (hc : ServesShares S most m c) :
    ∃ off' ideal', IdealQueue.Run IdealQueue.Step ideal (m.st.event c).toList ideal' ∧
      OnSchedule S most off' cap (m.step c) ideal' := by
  obtain ⟨off', ideal', hrun, hnext⟩ := h.implements.step h.searchable (h.inRange hmost hc)
  refine ⟨off', ideal', hrun, h.searchable.step c, hnext, ?_, h.due_step hrun,
    h.settled_step hc hrun⟩
  cases he : m.st.event c with
  | none =>
    rw [he] at hrun
    cases hrun
    exact h.punctual
  | some e =>
    rw [he] at hrun
    exact h.punctual.step hrun.step_of_single (h.withinShare hc he)

end OnSchedule

/-! ## How long a session waits -/

/-- What the clock is charged by a call. -/
def GroupCall.charge (cap : ℕ) : GroupCall α → ℕ
  | .updateVirtualTime w => advanceAt cap (chargedWork w.toNat)
  | _ => 0

/-- What the clock is charged by a list of calls. -/
def charges (cap : ℕ) (calls : List (GroupCall α)) : ℕ := (calls.map (GroupCall.charge cap)).sum

/-- The packet `p` is the only one for the session at `addr`. -/
def Sole (addr : Addr) (p : Packet ℕ (SessionState α))
    (ideal : IdealQueue.State ℕ (SessionState α)) : Prop :=
  ∀ q ∈ ideal.queue, q.item.addr = addr → q = p

section Waiting
variable {m : Metered α} {addr : Addr} {p : Packet ℕ (SessionState α)} {c : GroupCall α}

theorem OnSchedule.charged (h : OnSchedule S most off cap m ideal)
    (hrun : IdealQueue.Run IdealQueue.Step ideal (m.st.event c).toList ideal') :
    ideal.clock + c.charge cap ≤ ideal'.clock := by
  cases c with
  | updateVirtualTime w =>
    have hcharge := hrun.step_of_single.charged
    have hcap := h.implements.capacity
    rw [GroupCall.charge, ← hcap]
    exact hcharge
  | _ =>
    dsimp only [GroupCall.charge]
    cases he : m.st.event _ with
    | none =>
      rw [he] at hrun
      cases hrun
      exact le_rfl
    | some e =>
      rw [he] at hrun
      exact (Nat.le_add_right _ _).trans hrun.step_of_single.charged

/-- Sessions that are accepted later have other addresses. -/
theorem Sole.step (h : Sole addr p ideal) (haddr : addr < m.st.mem.next)
    (hrun : IdealQueue.Run IdealQueue.Step ideal (m.st.event c).toList ideal') :
    Sole addr p ideal' := by
  cases he : m.st.event c with
  | none =>
    rw [he] at hrun
    cases hrun
    exact h
  | some e =>
    rw [he] at hrun
    intro q hq hitem
    rcases hrun.step_of_single.origin hq with hold | ⟨i, span, cost, item, rfl, rfl⟩
    · exact h q hold hitem
    · have hnext : item.addr = m.st.mem.next := (GroupState.event_arrive he).2
      have hsame : item.addr = addr := hitem
      exact absurd (hsame.symm.trans hnext) (Nat.ne_of_lt haddr)

/-- Addresses are handed out in order. -/
theorem GroupInv.next_le {st : GroupState α} (h : GroupInv st.mem st.gs) (c : GroupCall α) :
    st.mem.next ≤ (st.step c).mem.next := by
  cases h.stepEffect c with
  | configured _ mem => exact (congrArg Allocator.next mem).ge
  | removed _ mem => exact (congrArg Allocator.next mem).ge
  | refused _ _ _ next => exact next
  | enqueued _ _ _ _ next => exact (Nat.le_succ _).trans_eq next.symm
  | missed _ _ _ _ mem => exact (congrArg Allocator.next mem).ge
  | dequeued _ _ _ _ mem => exact (congrArg Allocator.next mem).ge
  | updated _ mem => exact (congrArg Allocator.next mem).ge

/-- The clock and the sessions that wait, along a run. -/
theorem OnSchedule.run (h : OnSchedule S most off cap m ideal) (hmost : most < 2 ^ 62)
    {calls : List (GroupCall α)} (hcalls : Along Metered.step (ServesShares S most) m calls) :
    ∃ off' ideal', OnSchedule S most off' cap (GuardedRuns.run Metered.step m calls) ideal' ∧
      ideal.clock + charges cap calls ≤ ideal'.clock ∧
      ∀ addr p, addr < m.st.mem.next → Sole addr p ideal → Sole addr p ideal' := by
  induction calls generalizing m off ideal with
  | nil => exact ⟨off, ideal, h, le_rfl, fun _ _ _ hsole => hsole⟩
  | cons c calls ih =>
    obtain ⟨off₁, ideal₁, hrun, hnext⟩ := h.step hmost hcalls.1
    have hcharged := h.charged hrun
    have hmem := h.searchable.inv.next_le c
    obtain ⟨off', ideal', hlast, hclock, hsole⟩ := ih hnext hcalls.2
    refine ⟨off', ideal', hlast, ?_, ?_⟩
    · have hsum : charges cap (c :: calls) = c.charge cap + charges cap calls := rfl
      omega
    · intro addr p haddr hp
      exact hsole addr p (haddr.trans_le hmem) (hp.step haddr hrun)

/-- The packet of a session that has just been accepted. -/
theorem OnSchedule.accepted (h : OnSchedule S most off cap m ideal) (hmost : most < 2 ^ 62)
    {id : UInt32} {w : UInt64} {ud : Option α} {cf : Bool}
    (hc : ServesShares S most m (.enqueue id w ud cf)) {entry : EntryConfig}
    (hentry : groupSchedulerFindEntry m.st.gs id.toNat = some entry)
    (haddr : (groupSchedulerEnqueue m.st.mem m.st.gs id.toNat w.toNat ud cf).session = some addr) :
    ∃ off' ideal' p, OnSchedule S most off' cap (m.step (.enqueue id w ud cf)) ideal' ∧
      Sole addr p ideal' ∧ addr < (m.step (.enqueue id w ud cf)).st.mem.next ∧
      p.finish = ideal'.clock + (entry.lastFinishTime - m.st.gs.virtualTime) +
        serviceIntervalOf w.toNat (entryRate m.st.gs entry) ∧
      p.cost = virtualTimeDelta m.st.gs w.toNat ∧ p ∈ ideal'.queue ∧ p.item.userData = ud := by
  obtain ⟨off', ideal', hrun, hnext⟩ := h.step hmost hc
  have hmem : addr = m.st.mem.next ∧
      (m.step (.enqueue id w ud cf)).st.mem.next = m.st.mem.next + 1 := by
    rcases enqueue_cases m.st.mem m.st.gs id.toNat w.toNat ud cf with
      ⟨-, -, hnone, -⟩ | ⟨-, hsome, hafter, -⟩
    · rw [hnone] at haddr
      cases haddr
    · rw [hsome] at haddr
      exact ⟨(Option.some.inj haddr).symm, hafter⟩
  have hevent : m.st.event (.enqueue id w ud cf) =
      some (.arrive id.toNat (serviceIntervalOf w.toNat (entryRate m.st.gs entry))
        (virtualTimeDelta m.st.gs w.toNat)
        (newSession m.st.gs entry m.st.mem.next id.toNat w.toNat ud cf).untimed) := by
    dsimp only [GroupState.event]
    rw [haddr, hentry]
    rfl
  rw [hevent] at hrun
  have hstep := hrun.step_of_single
  have hclock := h.implements.clock
  have htag := h.implements.tags id.toNat entry.core (activeEntry_of_find hentry)
  have hcore : entry.core.lastFinishTime = entry.lastFinishTime := rfl
  cases hstep
  refine ⟨off', _, ideal.packet id.toNat (serviceIntervalOf w.toNat (entryRate m.st.gs entry))
    (virtualTimeDelta m.st.gs w.toNat)
    (newSession m.st.gs entry m.st.mem.next id.toNat w.toNat ud cf).untimed, hnext, ?_, ?_, ?_, rfl,
    Multiset.mem_cons_self _ _, rfl⟩
  · intro q hq hitem
    rcases Multiset.mem_cons.mp hq with rfl | hold
    · rfl
    · obtain ⟨s, hs, hstands⟩ := h.implements.session_of hold
      have hfresh := h.searchable.inv.fresh s hs
      have hsame : q.item.addr = s.addr := by
        rw [hstands.item]
        rfl
      exact absurd (hsame.symm.trans (hitem.trans hmem.1)) (Nat.ne_of_lt hfresh)
  · rw [hmem.1, hmem.2]
    exact Nat.lt_succ_self _
  · dsimp only [IdealQueue.State.packet]
    omega

end Waiting

theorem Fresh.onSchedule {numGroups binsPerGroup totalCapacity maxEntries : ℕ} {st : GroupState α}
    (h : Fresh numGroups binsPerGroup totalCapacity maxEntries st)
    (hbins : st.gs.numBins ≤ 32768) :
    OnSchedule S most 0 totalCapacity ⟨st, 0⟩ (IdealQueue.State.init ℕ (SessionState α)) where
  searchable := h.searchable hbins
  implements := h.implements
  punctual := .of_empty rfl (Nat.zero_le most)
  due := rfl
  settled _ _ := le_rfl

theorem metered_run (m : Metered α) (calls : List (GroupCall α)) :
    (run Metered.step m calls).st = run GroupState.step m.st calls :=
  run_project (fun _ _ => rfl) m calls

/-- While an accepted session waits, the clock is charged for no more than what its entry was
ahead by, its own interval and one largest session, its own charge included. -/
theorem session_delay_bounded {numGroups binsPerGroup totalCapacity maxEntries : ℕ}
    {st₀ : GroupState α} (hfresh : Fresh numGroups binsPerGroup totalCapacity maxEntries st₀)
    (hbins : st₀.gs.numBins ≤ 32768) (S : Shares ℕ) (hmost : most < 2 ^ 62)
    {before later : List (GroupCall α)} (id : UInt32) (w : UInt64) {ud : Option α} {cf : Bool}
    (hcalls : Along Metered.step (ServesShares S most) ⟨st₀, 0⟩
      (before ++ .enqueue id w ud cf :: later))
    {st : GroupState α} (hst : st = run GroupState.step st₀ before) {entry : EntryConfig}
    (hentry : groupSchedulerFindEntry st.gs id.toNat = some entry) {addr : Addr}
    (haddr : (groupSchedulerEnqueue st.mem st.gs id.toNat w.toNat ud cf).session = some addr)
    (hwaits : ∃ s ∈ (run GroupState.step st (.enqueue id w ud cf :: later)).gs.queued,
      s.addr = addr) :
    charges totalCapacity later + virtualTimeDelta st.gs w.toNat ≤
      (entry.lastFinishTime - st.gs.virtualTime) +
        serviceIntervalOf w.toNat (entryRate st.gs entry) + most := by
  obtain ⟨hbefore, hcall, hlater⟩ := (along_append _ _ _).mp hcalls
  obtain ⟨off, ideal, h, -, -⟩ := (hfresh.onSchedule hbins).run hmost hbefore
  have hm : (run Metered.step ⟨st₀, 0⟩ before).st = st := (metered_run _ _).trans hst.symm
  generalize run Metered.step ⟨st₀, 0⟩ before = m at h hm hcall hlater
  subst hm
  obtain ⟨off₁, ideal₁, p, h₁, hsole, hnext, hfinish, hcost, -, -⟩ :=
    h.accepted hmost hcall hentry haddr
  obtain ⟨off₂, ideal₂, h₂, hclock, hkept⟩ := h₁.run hmost hlater
  obtain ⟨s, hs, rfl⟩ := hwaits
  have hstate : (run Metered.step (m.step (.enqueue id w ud cf)) later).st =
      run GroupState.step m.st (.enqueue id w ud cf :: later) := metered_run _ _
  obtain ⟨q, hq, hstands⟩ := h₂.implements.packet_of (hstate ▸ hs)
  have hitem : q.item.addr = s.addr := by
    rw [hstands.item]
    rfl
  obtain rfl := hkept s.addr p hnext hsole q hq hitem
  have hbound := h₂.punctual.bound hq
  omega

instance (S : Shares ℕ) (most : ℕ) (m : Metered α) (c : GroupCall α) :
    Decidable (ServesShares S most m c) :=
  match c with
  | .configureEntry id _ => inferInstanceAs (Decidable
      (∀ entry ∈ groupSchedulerFindEntry m.st.gs id.toNat,
        entry.lastFinishTime ≤ m.st.gs.virtualTime))
  | .removeEntry id => inferInstanceAs (Decidable
      (∀ entry ∈ groupSchedulerFindEntry m.st.gs id.toNat,
        entry.lastFinishTime ≤ m.st.gs.virtualTime))
  | .enqueue id w _ _ => inferInstanceAs (Decidable
      ((∀ entry ∈ groupSchedulerFindEntry m.st.gs id.toNat,
        max m.st.gs.virtualTime entry.lastFinishTime +
            serviceIntervalOf w.toNat (entryRate m.st.gs entry) < uint64Max ∧
          Priced S most id.toNat (serviceIntervalOf w.toNat (entryRate m.st.gs entry))
            (virtualTimeDelta m.st.gs w.toNat)) ∧
      m.st.gs.queued.card < uint32Max))
  | .dequeue => inferInstanceAs (Decidable True)
  | .updateVirtualTime w => inferInstanceAs (Decidable
      (virtualTimeDelta m.st.gs w.toNat ≤ m.due ∧
        m.st.gs.virtualTime + virtualTimeDelta m.st.gs w.toNat ≤ uint64Max))

/-- Of a capacity of 100 the first entry reserves 20 and the second one 40. -/
def sixtyPercent : Shares ℕ where
  flows := {0, 1}
  weight i := if i = 0 then 20 else 40
  total := 100
  positive := by decide
  fits := by decide

/-- The queue runs empty and the clock is rebased before the session arrives. -/
def idleThenBusy : List (GroupCall ℕ) :=
  [.configureEntry 0 (.rate 20), .configureEntry 1 (.weight 3), .enqueue 0 5 (some 1) false,
    .enqueue 1 9 (some 2) false, .dequeue, .updateVirtualTime 9, .dequeue, .updateVirtualTime 5]

def laterCalls : List (GroupCall ℕ) := [.enqueue 1 2 (some 4) false, .dequeue, .updateVirtualTime 2]

theorem session_delay_bounded_sixty :
    let st := run GroupState.step smallGroup idleThenBusy
    ∀ entry, groupSchedulerFindEntry st.gs 0 = some entry →
      charges 100 laterCalls + virtualTimeDelta st.gs 7 ≤
        (entry.lastFinishTime - st.gs.virtualTime) + serviceIntervalOf 7 (entryRate st.gs entry) +
          100000 := by
  intro st entry hentry
  have haddr : (groupSchedulerEnqueue st.mem st.gs 0 7 (some 3) false).session = some 8 := by
    decide +kernel
  have hwaits : 8 ∈ (run GroupState.step st
      (.enqueue 0 7 (some 3) false :: laterCalls)).gs.queued.map (·.addr) := by
    decide +kernel
  exact session_delay_bounded smallGroup_fresh (by decide +kernel) sixtyPercent (by decide) 0 7
    (by decide +kernel) rfl hentry haddr (Multiset.mem_map.mp hwaits)

end Hwfq
