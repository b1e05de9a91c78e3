import Hwfq.RebaseTransparency

/-!
# The order of the sessions of one entry

Sessions of an entry are chained through its last finish time: each starts no
earlier than the one before it finishes. As long as the chain is not cut, the
search cannot pass one of them by. A reconfiguration resets the last finish time, a
rebase can cut two finish times off at zero and saturation makes two of them equal;
a run that does none of these to queued sessions of the entry serves it first in,
first out.
-/
namespace Hwfq
open GuardedRuns MinSearch Bins

variable {α : Type*} {gs : GroupScheduler α} {id : ℕ}

/-- The object that a call puts on entry `id`. -/
def GroupState.accepted (id : ℕ) (st : GroupState α) : GroupCall α → List Addr
  | .enqueue i w ud cf =>
      if i.toNat = id then
        (groupSchedulerEnqueue st.mem st.gs i.toNat w.toNat ud cf).session.toList
      else []
  | _ => []

/-- The object of entry `id` that a call returns. -/
def GroupState.served (id : ℕ) (st : GroupState α) (c : GroupCall α) : List Addr :=
  ((st.returned c).filter (·.entryId = id)).toList.map (·.addr)

/-- The queued sessions of an entry. -/
def GroupScheduler.ofEntry (gs : GroupScheduler α) (id : ℕ) : Multiset (SessionState α) :=
  gs.queued.filter (·.entryId = id)

theorem ofEntry_of_cons {gs gs' : GroupScheduler α} {s : SessionState α}
    (hq : gs.queued = s ::ₘ gs'.queued) (id : ℕ) :
    gs.ofEntry id = if s.entryId = id then s ::ₘ gs'.ofEntry id else gs'.ofEntry id := by
  rw [GroupScheduler.ofEntry, hq]
  split_ifs with hid
  · exact Multiset.filter_cons_of_pos (p := fun s : SessionState α => s.entryId = id) _ hid
  · exact Multiset.filter_cons_of_neg (p := fun s : SessionState α => s.entryId = id) _ hid

/-- What keeps the sessions of entry `id` in order: a reconfiguration of the entry
leaves none of them ahead of the clock, an enqueue finds none of them saturated, and a
rebase does not pass a finish time that another one precedes. -/
def KeepsOrder (id : ℕ) (st : GroupState α) : GroupCall α → Prop
  | .configureEntry i a => i.toNat = id → (groupSchedulerConfigureEntry st.gs id a).1 = .success →
      ∀ s ∈ st.gs.ofEntry id, s.finishTime ≤ st.gs.virtualTime
  | .enqueue i _ _ _ => i.toNat = id → ∀ s ∈ st.gs.ofEntry id, s.finishTime < uint64Max
  | .updateVirtualTime w => ∀ s ∈ st.gs.ofEntry id, ∀ t ∈ st.gs.ofEntry id,
      s.finishTime < t.finishTime → updateOffset st.gs w.toNat < t.finishTime
  | _ => True

instance decidableKeepsOrder (id : ℕ) (st : GroupState α) :
    ∀ c, Decidable (KeepsOrder id st c)
  | .configureEntry i a => inferInstanceAs (Decidable (i.toNat = id →
      (groupSchedulerConfigureEntry st.gs id a).1 = .success →
      ∀ s ∈ st.gs.ofEntry id, s.finishTime ≤ st.gs.virtualTime))
  | .enqueue i _ _ _ => inferInstanceAs (Decidable (i.toNat = id →
      ∀ s ∈ st.gs.ofEntry id, s.finishTime < uint64Max))
  | .updateVirtualTime w => inferInstanceAs (Decidable (∀ s ∈ st.gs.ofEntry id,
      ∀ t ∈ st.gs.ofEntry id, s.finishTime < t.finishTime →
        updateOffset st.gs w.toNat < t.finishTime))
  | .removeEntry _ | .dequeue => isTrue trivial

/-- `line` lists the queued sessions of an entry, oldest first, and the next session of
the entry will finish after all of them. -/
structure InLine (id : ℕ) (gs : GroupScheduler α) (line : List (SessionState α)) : Prop where
  sessions : (line : Multiset (SessionState α)) = gs.ofEntry id
  chained : line.Pairwise fun s t => s.finishTime < t.finishTime ∧ s.startTime ≤ t.startTime
  behind : ∀ e, activeEntry gs id = some e →
    ∀ s ∈ line, s.finishTime ≤ max gs.virtualTime e.lastFinishTime

variable {line : List (SessionState α)}

theorem InLine.mem_queued (h : InLine id gs line) {s : SessionState α} (hs : s ∈ line) :
    s ∈ gs.queued := by
  have hin : s ∈ gs.ofEntry id := h.sessions ▸ hs
  exact (Multiset.mem_filter.mp hin).1

theorem InLine.of_queueView {gs' : GroupScheduler α} (h : InLine id gs line)
    (hq : gs'.queueView = gs.queueView)
    (hbehind : ∀ e, activeEntry gs' id = some e →
      ∀ s ∈ line, s.finishTime ≤ max gs.virtualTime e.lastFinishTime) : InLine id gs' line := by
  have hclock : gs'.virtualTime = gs.virtualTime := congrArg QueueView.virtualTime hq
  constructor
  · rw [GroupScheduler.ofEntry, queued_of_queueView hq]
    exact h.sessions
  · exact h.chained
  · rw [hclock]
    exact hbehind

theorem InLine.configure {mem : Allocator} (hinv : GroupInv mem gs) (h : InLine id gs line) (i : ℕ)
    (a : Allocation)
    (hkept : i = id → (groupSchedulerConfigureEntry gs id a).1 = .success →
      ∀ s ∈ gs.ofEntry id, s.finishTime ≤ gs.virtualTime) :
    InLine id (groupSchedulerConfigureEntry gs i a).2 line := by
  apply h.of_queueView (configureEntry_queueView hinv.sums i a)
  intro e he s hs
  rcases configureEntry_cases hinv.sums i a with ⟨heq, -⟩ | ⟨heq, -⟩ | ⟨-, -, entry, hget, hcase⟩
  · rw [heq] at he
    exact h.behind e he s hs
  · rw [heq] at he
    exact h.behind e he s hs
  · rcases hcase with ⟨heq, -⟩ | ⟨heq, -⟩
    · rw [heq] at he
      exact h.behind e he s hs
    · rw [heq, commitEntry_activeEntry a (by rwa [releasedFor_entries])] at he
      split_ifs at he with hid
      · subst hid
        have hlate := hkept rfl (congrArg Prod.fst heq) s (h.sessions ▸ hs)
        exact hlate.trans (le_max_left _ _)
      · rw [activeEntry, releasedFor_entries] at he
        exact h.behind e he s hs

theorem InLine.removeEntry (h : InLine id gs line) (i : ℕ) :
    InLine id (groupSchedulerRemoveEntry gs i).2 line := by
  apply h.of_queueView (removeEntry_queueView gs i)
  intro e he s hs
  rcases removeEntry_cases gs i with ⟨heq, -⟩ | ⟨heq, -⟩ | ⟨hid, -, entry, hfind, -⟩
  · rw [heq] at he
    exact h.behind e he s hs
  · rw [heq] at he
    exact h.behind e he s hs
  · rw [removeEntry_activeEntry hfind hid] at he
    split_ifs at he
    exact h.behind e he s hs

/-- A session of another entry does not touch the line. -/
theorem InLine.enqueue_other (h : InLine id gs line) {i : ℕ} (hi : i ≠ id) {s : SessionState α}
    (hs : s.entryId = i) (hbin : sessionBin gs s < gs.numBins) :
    InLine id (enqueued gs i s) line := by
  constructor
  · rw [ofEntry_of_cons (enqueued_queued i hbin), if_neg]
    · exact h.sessions
    · exact fun heq => hi (hs.symm.trans heq)
  · exact h.chained
  · rw [enqueued_virtualTime]
    intro e he
    rw [enqueued_activeEntry, if_neg (Ne.symm hi)] at he
    exact h.behind e he

/-- A session of the entry goes to the end of the line. -/
theorem InLine.enqueue (h : InLine id gs line) {entry : EntryConfig} {addr w : ℕ} {ud : Option α}
    {cf : Bool} {mem : Allocator} (hinv : GroupInv mem gs) (hadm : Admissible gs id w entry)
    (hroom : ∀ s ∈ gs.ofEntry id, s.finishTime < uint64Max) :
    InLine id (enqueued gs id (newSession gs entry addr id w ud cf))
      (line ++ [{ newSession gs entry addr id w ud cf with
        binIndex := sessionBin gs (newSession gs entry addr id w ud cf) }]) := by
  have hstart := newSession_startTime gs entry addr id w ud cf
  have hpos : 0 < (newSession gs entry addr id w ud cf).serviceInterval :=
    serviceIntervalOf_pos _ _
  have hlast : ∀ s ∈ line, s.finishTime ≤ max gs.virtualTime entry.lastFinishTime :=
    h.behind entry.core (activeEntry_of_find hadm.found)
  have hnew : ∀ s ∈ line, s.finishTime < (newSession gs entry addr id w ud cf).finishTime := by
    intro s hs
    have hle := hlast s hs
    have hlt := hroom s (h.sessions ▸ hs)
    rw [newSession_finishTime]
    split_ifs <;> omega
  constructor
  · have hid : (newSession gs entry addr id w ud cf).entryId = id := rfl
    rw [ofEntry_of_cons (hadm.queued addr ud cf), if_pos hid, ← h.sessions, ← Multiset.coe_add,
      add_comm]
    rfl
  · rw [List.pairwise_append]
    refine ⟨h.chained, List.pairwise_singleton _ _, ?_⟩
    intro s hs t ht
    rw [List.mem_singleton] at ht
    subst ht
    constructor
    · exact hnew s hs
    · have hle := hlast s hs
      have hst := hinv.stamps s (h.mem_queued hs)
      dsimp only
      omega
  · intro e he s hs
    rw [enqueued_activeEntry, if_pos rfl] at he
    obtain ⟨e', -, rfl⟩ := Option.map_eq_some_iff.mp he
    apply le_max_of_le_right
    rcases List.mem_append.mp hs with hs | hs
    · exact (hnew s hs).le
    · rw [List.mem_singleton] at hs
      rw [hs]

/-- The search takes the head of the line or a session of another entry. -/
theorem InLine.dequeue (h : InLine id gs line) (hcal : CalendarInv gs) (hn : gs.numBins ≤ 32768)
    {s : SessionState α} (hfind : findEligibleMinBitfield gs (dequeueTime gs) = some s) :
    ∃ line', InLine id (dequeued gs s) line' ∧
      line = (if s.entryId = id then [s] else []) ++ line' := by
  obtain ⟨hs, hstart, -⟩ := findEligible_some hcal hfind
  have hq := dequeued_queued hcal hs
  have hle := virtualTime_le_dequeueTime gs
  have hact : activeEntry (dequeued gs s) id = activeEntry gs id :=
    activeEntry_of_ledger (dequeued_ledger s) id
  have hbehind : ∀ e, activeEntry (dequeued gs s) id = some e →
      ∀ t ∈ line, t.finishTime ≤ max (dequeued gs s).virtualTime e.lastFinishTime := by
    intro e he t ht
    rw [hact] at he
    have hlast := h.behind e he t ht
    rw [dequeued_virtualTime]
    omega
  have hsessions := h.sessions
  rw [ofEntry_of_cons hq] at hsessions
  by_cases hid : s.entryId = id
  · rw [if_pos hid] at hsessions ⊢
    have hin : s ∈ line := by
      rw [← Multiset.mem_coe, hsessions]
      exact Multiset.mem_cons_self s _
    cases line with
    | nil => cases hin
    | cons x rest =>
      obtain ⟨hx, hrest⟩ := List.pairwise_cons.mp h.chained
      have hhead : x = s := by
        rcases List.mem_cons.mp hin with heq | hin
        · exact heq.symm
        · exfalso
          obtain ⟨hfinish, hstarts⟩ := hx s hin
          have hleast := findEligible_some_least hcal hn hfind x
            (h.mem_queued List.mem_cons_self) (hstarts.trans hstart)
          omega
      subst hhead
      refine ⟨rest, ⟨?_, hrest, ?_⟩, rfl⟩
      · rw [← Multiset.cons_coe] at hsessions
        exact (Multiset.cons_inj_right x).mp hsessions
      · intro e he t ht
        exact hbehind e he t (List.mem_cons_of_mem x ht)
  · rw [if_neg hid] at hsessions ⊢
    exact ⟨line, ⟨hsessions, h.chained, hbehind⟩, rfl⟩

theorem InLine.update {mem : Allocator} (hinv : GroupInv mem gs) (h : InLine id gs line) (w : ℕ)
    (hkept : ∀ s ∈ gs.ofEntry id, ∀ t ∈ gs.ofEntry id, s.finishTime < t.finishTime →
      updateOffset gs w < t.finishTime) :
    InLine id (groupSchedulerUpdateVirtualTime gs w) (line.map (·.rebase (updateOffset gs w))) := by
  have hq := updateVirtualTime_queued gs w
  have hclock := virtualTime_le_advanced hinv.clock.le w
  constructor
  · rw [GroupScheduler.ofEntry, hq, Multiset.filter_map, ← Multiset.map_coe, h.sessions]
    rfl
  · apply List.pairwise_map.mpr
    apply h.chained.imp_of_mem
    intro s t hs ht hst
    have hpast := hkept s (h.sessions ▸ hs) t (h.sessions ▸ ht) hst.1
    simp only [SessionState.rebase, rebaseTime_eq_sub]
    omega
  · intro e he s hs
    rw [updateVirtualTime_activeEntry hinv.nodup hinv.listed] at he
    obtain ⟨e', he', rfl⟩ := Option.map_eq_some_iff.mp he
    obtain ⟨t, ht, rfl⟩ := List.mem_map.mp hs
    have hlast := h.behind e' he' t ht
    rw [updateVirtualTime_virtualTime]
    simp only [SessionState.rebase, rebaseTime_eq_sub]
    omega

/-! ## Runs -/

/-- A scheduler whose sessions of entry `id` stand in the given order. -/
def Lined (id : ℕ) (st : GroupState α) (addrs : List Addr) : Prop :=
  Searchable st ∧ ∃ line, InLine id st.gs line ∧ line.map (·.addr) = addrs

theorem Lined.step {st : GroupState α} {addrs : List Addr} (h : Lined id st addrs)
    {c : GroupCall α} (hc : KeepsOrder id st c) :
    ∃ addrs', Lined id (st.step c) addrs' ∧ st.served id c ++ addrs' = addrs ++ st.accepted id c := by
  obtain ⟨hsearch, line, hline, rfl⟩ := h
  have hnext := hsearch.step c
  have hinv := hsearch.inv
  cases hinv.stepEffect c with
  | @configured i a =>
    refine ⟨_, ⟨hnext, line, ?_, rfl⟩, (List.append_nil _).symm⟩
    exact hline.configure hinv i.toNat a hc
  | @removed i =>
    exact ⟨_, ⟨hnext, line, hline.removeEntry i.toNat, rfl⟩, (List.append_nil _).symm⟩
  | refused _ session same =>
    refine ⟨_, ⟨hnext, line, same ▸ hline, rfl⟩, ?_⟩
    simp [GroupState.accepted, GroupState.served, GroupState.returned, session]
  | @enqueued i w ud cf entry _ hadm session after =>
    by_cases hid : i.toNat = id
    · subst hid
      refine ⟨_, ⟨hnext, _, after ▸ hline.enqueue hinv hadm (hc rfl), rfl⟩, ?_⟩
      simp [GroupState.accepted, GroupState.served, GroupState.returned, session, newSession]
    · refine ⟨_, ⟨hnext, line, after ▸ hline.enqueue_other hid rfl (hadm.fits _ _ _), rfl⟩, ?_⟩
      simp [GroupState.accepted, GroupState.served, GroupState.returned, hid]
  | @missed t _ later returned after =>
    refine ⟨_, ⟨hnext, line, ?_, rfl⟩, ?_⟩
    · rw [after]
      constructor
      · exact hline.sessions
      · exact hline.chained
      · intro e he s hs
        have hlast := hline.behind e he s hs
        dsimp only
        omega
    · simp [GroupState.accepted, GroupState.served, GroupState.returned, returned]
  | @dequeued s _ found returned after =>
    obtain ⟨line', hline', hsplit⟩ := hline.dequeue hinv.calendar hsearch.bins found
    refine ⟨_, ⟨hnext, line', after ▸ hline', rfl⟩, ?_⟩
    rw [hsplit]
    simp only [GroupState.accepted, GroupState.served, GroupState.returned, returned]
    split_ifs with hid <;> simp [Option.filter_some, hid]
  | @updated w =>
    refine ⟨_, ⟨hnext, _, hline.update hinv w.toNat hc, rfl⟩, ?_⟩
    have haddrs : (line.map (·.rebase (updateOffset st.gs w.toNat))).map (·.addr) =
        line.map (·.addr) := by
      rw [List.map_map]
      rfl
    rw [haddrs]
    exact (List.append_nil _).symm

/-- Each entry is served first in, first out in every run that keeps its order. -/
theorem entry_fifo {binsPerGroup totalCapacity maxEntries : ℕ} {st₀ : GroupState α}
    (hfresh : Fresh 16 binsPerGroup totalCapacity maxEntries st₀) (hbins : binsPerGroup ≤ 2048)
    (id : ℕ) (calls : List (GroupCall α))
    (hkept : Along GroupState.step (KeepsOrder id) st₀ calls) :
    (outputs GroupState.step (GroupState.served id) st₀ calls).flatten <+:
      (outputs GroupState.step (GroupState.accepted id) st₀ calls).flatten := by
  have hempty : Lined id st₀ [] := by
    refine ⟨hfresh.searchable (numBins_le_of_default hfresh hbins), [], ?_, rfl⟩
    constructor
    · rw [GroupScheduler.ofEntry, hfresh.queued]
      rfl
    · exact List.Pairwise.nil
    · intro e _ s hs
      cases hs
  obtain ⟨addrs, -, hhistory⟩ := line_history (fun st c _ h hc => h.step hc) hempty hkept
  exact ⟨addrs, hhistory⟩

/-- Two sessions of different sizes on one entry, a reconfiguration once the first of
them is gone and the clock has passed the second, and a third session. -/
def orderlyCalls : List (GroupCall ℕ) :=
  [.configureEntry 0 (.rate 6), .enqueue 0 4 (some 1) false, .enqueue 0 1 (some 2) false, .dequeue,
    .updateVirtualTime 40, .configureEntry 0 (.rate 3), .enqueue 0 1 (some 3) false, .dequeue,
    .dequeue]

theorem entry_fifo_orderly :
    (outputs GroupState.step (GroupState.served 0) twoBinGroup orderlyCalls).flatten <+:
      (outputs GroupState.step (GroupState.accepted 0) twoBinGroup orderlyCalls).flatten :=
  entry_fifo twoBinGroup_fresh (by decide) 0 orderlyCalls (by decide +kernel)

/-- A large session, a reconfiguration of its entry to the same rate, a small session. -/
def reconfiguringCalls : List (GroupCall ℕ) :=
  [.configureEntry 0 (.rate 6), .enqueue 0 100 (some 1) false, .configureEntry 0 (.rate 6),
    .enqueue 0 1 (some 2) false, .dequeue]

/-- The reconfiguration forgets the finish time of the large session, and the small one
is returned first. -/
theorem not_entry_fifo :
    ¬ ∀ (binsPerGroup totalCapacity maxEntries : ℕ) (st₀ : GroupState ℕ),
      Fresh 16 binsPerGroup totalCapacity maxEntries st₀ → binsPerGroup ≤ 2048 →
      ∀ (id : ℕ) (calls : List (GroupCall ℕ)),
        (outputs GroupState.step (GroupState.served id) st₀ calls).flatten <+:
          (outputs GroupState.step (GroupState.accepted id) st₀ calls).flatten := by
  intro h
  have hprefix := h 2 7 2 twoBinGroup twoBinGroup_fresh (by decide) 0 reconfiguringCalls
  revert hprefix
  decide +kernel

end Hwfq
