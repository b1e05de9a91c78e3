import Hwfq.PooledGroup

/-!
# The sessions of a flow scheduler

Every session queued in the flow scheduler of a tenant carries a context with the
tenant, the flow and the size it was accepted with. What a flow scheduler holds is
the collection of these contexts; only enqueue and dequeue change it.
-/
namespace Hwfq
open Bins

variable {mem mem' : Allocator} {id : ℕ} {flows flows' : GroupScheduler FlowSessionContext}

/-- `c` is the context of a session queued in the flow scheduler of tenant `id`. -/
structure Carries (id : ℕ) (q : SessionState FlowSessionContext) (c : FlowSessionContext) :
    Prop where
  data : q.userData = some c
  tenant : c.tenantId = id
  flow : c.flowId = q.entryId
  size : c.workSize = q.workSize
  fits : 0 < c.workSize ∧ c.workSize ≤ uint64Max
  cleanup : q.cleanupFn = true

structure FlowsInv (mem : Allocator) (id : ℕ) (flows : GroupScheduler FlowSessionContext) :
    Prop where
  pooled : ∃ live, PooledInv mem flows live
  carried : ∀ q ∈ flows.queued, ∃ c, Carries id q c

/-- The contexts of the queued sessions. -/
def contexts (flows : GroupScheduler FlowSessionContext) : Multiset FlowSessionContext :=
  flows.queued.filterMap (·.userData)

theorem FlowsInv.group (h : FlowsInv mem id flows) : GroupInv mem flows :=
  h.pooled.elim fun _ hl => hl.group

theorem FlowsInv.weaken (h : FlowsInv mem id flows) (hmem : mem.next ≤ mem'.next) :
    FlowsInv mem' id flows :=
  ⟨h.pooled.imp fun _ hl => hl.weaken hmem, h.carried⟩

theorem FlowsInv.mem_contexts (h : FlowsInv mem id flows) {c : FlowSessionContext}
    (hc : c ∈ contexts flows) : ∃ q ∈ flows.queued, Carries id q c := by
  obtain ⟨q, hq, hdata⟩ := (Multiset.mem_filterMap (f := SessionState.userData) _).mp hc
  obtain ⟨c', hcar⟩ := h.carried q hq
  rw [hcar.data] at hdata
  cases hdata
  exact ⟨q, hq, hcar⟩

/-- Every queued session has its context. -/
theorem FlowsInv.card_contexts (h : FlowsInv mem id flows) :
    (contexts flows).card = flows.queued.card := by
  have hall : ∀ m : Multiset (SessionState FlowSessionContext), (∀ q ∈ m, q ∈ flows.queued) →
      (m.filterMap (·.userData)).card = m.card := by
    intro m hm
    induction m using Multiset.induction with
    | empty => rfl
    | cons q m ih =>
      obtain ⟨c, hcar⟩ := h.carried q (hm q (Multiset.mem_cons_self q m))
      rw [Multiset.filterMap_cons_some _ _ _ hcar.data, Multiset.card_cons, Multiset.card_cons,
        ih fun p hp => hm p (Multiset.mem_cons_of_mem hp)]
  exact hall flows.queued fun q hq => hq

/-! ## The queue operations -/

theorem FlowsInv.update (h : FlowsInv mem id flows) (w : ℕ) :
    FlowsInv mem id (groupSchedulerUpdateVirtualTime flows w) := by
  refine ⟨h.pooled.imp fun _ hl => hl.update w, fun q hq => ?_⟩
  rw [updateVirtualTime_queued] at hq
  obtain ⟨t, ht, rfl⟩ := Multiset.mem_map.mp hq
  obtain ⟨c, hc⟩ := h.carried t ht
  exact ⟨c, { hc with }⟩

theorem contexts_update (flows : GroupScheduler FlowSessionContext) (w : ℕ) :
    contexts (groupSchedulerUpdateVirtualTime flows w) = contexts flows := by
  rw [contexts, updateVirtualTime_queued, Multiset.filterMap_map]
  rfl

theorem contexts_of_queueView (hview : flows'.queueView = flows.queueView) :
    contexts flows' = contexts flows := by
  rw [contexts, queued_of_queueView hview, contexts]

/-- A dequeued session carries its context, and the queue loses just that. -/
theorem FlowsInv.take (h : FlowsInv mem id flows) {q : SessionState FlowSessionContext}
    (heq : groupSchedulerDequeue flows = (some q, flows')) :
    FlowsInv mem id flows' ∧ ∃ c, Carries id q c ∧ contexts flows = c ::ₘ contexts flows' := by
  obtain ⟨live, hpool⟩ := h.pooled
  have hpool' := hpool.dequeue
  rw [heq] at hpool'
  obtain ⟨-, -, hq⟩ := dequeue_some hpool.group.calendar heq
  obtain ⟨c, hc⟩ := h.carried q (hq ▸ Multiset.mem_cons_self q _)
  refine ⟨⟨⟨live, hpool'⟩, fun t ht => h.carried t (hq ▸ Multiset.mem_cons_of_mem ht)⟩, c, hc, ?_⟩
  rw [contexts, hq, Multiset.filterMap_cons_some _ _ _ hc.data, contexts]

theorem FlowsInv.miss (h : FlowsInv mem id flows)
    (heq : groupSchedulerDequeue flows = (none, flows')) :
    FlowsInv mem id flows' ∧ contexts flows' = contexts flows := by
  obtain ⟨live, hpool⟩ := h.pooled
  have hpool' := hpool.dequeue
  rw [heq] at hpool'
  have hq := dequeue_none hpool.group.calendar heq
  exact ⟨⟨⟨live, hpool'⟩, hq ▸ h.carried⟩, by rw [contexts, hq, contexts]⟩

theorem contexts_enqueue {c : FlowSessionContext} {flowId w : ℕ}
    (hok : (groupSchedulerEnqueue mem flows flowId w (some c) true).status = .success) :
    contexts (groupSchedulerEnqueue mem flows flowId w (some c) true).gs = c ::ₘ contexts flows := by
  rcases enqueue_cases mem flows flowId w (some c) true with
    ⟨hbad, -⟩ | ⟨-, -, -, -, entry, hadm, heq⟩
  · exact absurd hok hbad
  · have hq := hadm.queued mem.next (some c) true
    rw [heq, contexts, hq]
    exact Multiset.filterMap_cons_some SessionState.userData _ flows.queued rfl

/-- An enqueue either adds its context or leaves the scheduler as it was. -/
theorem FlowsInv.enqueue (h : FlowsInv mem id flows) {c : FlowSessionContext}
    (hid : c.tenantId = id) {flowId w : ℕ} (hflow : c.flowId = flowId) (hw : c.workSize = w)
    (hfits : 0 < c.workSize ∧ c.workSize ≤ uint64Max) :
    FlowsInv (groupSchedulerEnqueue mem flows flowId w (some c) true).mem id
        (groupSchedulerEnqueue mem flows flowId w (some c) true).gs ∧
      (((groupSchedulerEnqueue mem flows flowId w (some c) true).status = .success ∧
          contexts (groupSchedulerEnqueue mem flows flowId w (some c) true).gs =
            c ::ₘ contexts flows) ∨
        ((groupSchedulerEnqueue mem flows flowId w (some c) true).status ≠ .success ∧
          (groupSchedulerEnqueue mem flows flowId w (some c) true).gs = flows)) := by
  obtain ⟨live, hpool⟩ := h.pooled
  have hpool' := hpool.enqueue flowId w (some c) true
  rcases enqueue_cases mem flows flowId w (some c) true with
    ⟨hbad, heq, -⟩ | ⟨hok, -, -, -, entry, hadm, heq⟩
  · refine ⟨⟨⟨live, hpool'⟩, ?_⟩, .inr ⟨hbad, heq⟩⟩
    rw [heq]
    exact h.carried
  · have hq := hadm.queued mem.next (some c) true
    refine ⟨⟨⟨live, hpool'⟩, fun t ht => ?_⟩, .inl ⟨hok, contexts_enqueue hok⟩⟩
    rw [heq, hq] at ht
    rcases Multiset.mem_cons.mp ht with rfl | ht
    · exact ⟨c, rfl, hid, hflow, hw, hfits, rfl⟩
    · exact h.carried t ht

/-! ## Configuration and statistics -/

theorem FlowsInv.configure (h : FlowsInv mem id flows) {flowId : ℕ}
    (hact : (activeEntry flows flowId).isSome = true) (a : Allocation) :
    FlowsInv mem id (groupSchedulerConfigureEntry flows flowId a).2 := by
  obtain ⟨live, hpool⟩ := h.pooled
  refine ⟨⟨live, hpool.configure (hpool.pool.mem_of_active hact) a⟩, ?_⟩
  rw [queued_of_queueView (configureEntry_queueView hpool.group.sums flowId a)]
  exact h.carried

theorem FlowsInv.retire (h : FlowsInv mem id flows) {flowId : ℕ}
    (hact : (activeEntry flows flowId).isSome = true) :
    FlowsInv mem id (freeEntryOf (groupSchedulerRemoveEntry flows flowId).2 flowId) := by
  obtain ⟨live, hpool⟩ := h.pooled
  obtain ⟨hpool', -, hview⟩ := hpool.retire hact
  refine ⟨⟨_, hpool'⟩, ?_⟩
  rw [queued_of_queueView hview]
  exact h.carried

theorem FlowsInv.writeStats (h : FlowsInv mem id flows) {flowId : ℕ}
    (hact : (activeEntry flows flowId).isSome = true) (f : Stats → Stats) :
    FlowsInv mem id (flows.writeEntry flowId fun e => { e with stats := f e.stats }) :=
  ⟨h.pooled.imp fun _ hl => hl.writeStats hact f, h.carried⟩

theorem FlowsInv.reset (h : FlowsInv mem id flows) {which : ℕ → Bool} {ce' : ChunkedEntries}
    (hreset : Resets which flows.entries ce') : FlowsInv mem id { flows with entries := ce' } :=
  ⟨h.pooled.imp fun _ hl => hl.reset hreset, h.carried⟩

theorem FlowsInv.alloc_error (h : FlowsInv mem id flows) {ret : Status}
    (hret : (allocEntryOf mem flows).1 = .error ret) :
    FlowsInv (allocEntryOf mem flows).2.1 id (allocEntryOf mem flows).2.2 := by
  obtain ⟨live, hpool⟩ := h.pooled
  obtain ⟨-, -, hview, ⟨-, -, hpool'⟩ | ⟨flowId, hok, -⟩⟩ := hpool.alloc le_rfl
  · refine ⟨⟨live, hpool'⟩, ?_⟩
    rw [queued_of_queueView hview]
    exact h.carried
  · simp [hret] at hok

/-- A new flow is configured or its id is given back. -/
theorem FlowsInv.enlist (h : FlowsInv mem id flows) {flowId : ℕ}
    (hret : (allocEntryOf mem flows).1 = .ok flowId) (a : Allocation) :
    FlowsInv (allocEntryOf mem flows).2.1 id
        (groupSchedulerConfigureEntry (allocEntryOf mem flows).2.2 flowId a).2 ∧
      ((groupSchedulerConfigureEntry (allocEntryOf mem flows).2.2 flowId a).1 ≠ .success →
        FlowsInv (allocEntryOf mem flows).2.1 id
          (freeEntryOf (groupSchedulerConfigureEntry (allocEntryOf mem flows).2.2 flowId a).2
            flowId)) := by
  obtain ⟨live, hpool⟩ := h.pooled
  obtain ⟨-, hact, hview, ⟨ret, hbad, -⟩ | ⟨flowId', hok, hnew, -, hpool', -⟩⟩ :=
    hpool.alloc le_rfl
  · simp [hret] at hbad
  obtain rfl : flowId' = flowId := by simpa [hret] using hok.symm
  have hconf := hpool'.configure (Finset.mem_insert_self flowId' live) a
  have hq : (groupSchedulerConfigureEntry (allocEntryOf mem flows).2.2 flowId' a).2.queued =
      flows.queued :=
    (queued_of_queueView (configureEntry_queueView hpool'.group.sums flowId' a)).trans
      (queued_of_queueView hview)
  refine ⟨⟨⟨_, hconf⟩, hq ▸ h.carried⟩, fun hbad => ?_⟩
  rcases hpool'.configure_cases flowId' a with ⟨-, heq⟩ | ⟨hok', -⟩
  · have hidle : activeEntry (allocEntryOf mem flows).2.2 flowId' = none := by
      rw [hact, ← Option.not_isSome_iff_eq_none]
      exact fun hin => hnew (hpool.pool.mem_of_active hin)
    rw [heq] at hq ⊢
    obtain ⟨hfree, -⟩ := hpool'.free (Finset.mem_insert_self flowId' live) hidle
    have hq' : (freeEntryOf (allocEntryOf mem flows).2.2 flowId').queued = flows.queued := hq
    exact ⟨⟨_, hfree⟩, hq' ▸ h.carried⟩
  · exact absurd hok' hbad

/-- The flow scheduler of a new tenant. -/
theorem FlowsInv.fresh {numGroups binsPerGroup totalCapacity maxEntries : ℕ}
    {st : GroupState FlowSessionContext}
    (h : Fresh numGroups binsPerGroup totalCapacity maxEntries st) {live : Finset ℕ}
    (hpool : PoolInv st.gs.entries live) (id : ℕ) : FlowsInv st.mem id st.gs :=
  ⟨⟨live, h.pooled hpool⟩, fun q hq => by simp [h.queued] at hq⟩

end Hwfq
