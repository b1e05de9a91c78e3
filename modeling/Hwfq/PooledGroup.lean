import Hwfq.Configuration
import Hwfq.GroupRuns

/-!
# A group scheduler over its pool of ids

The entries of a scheduler live in a pool that hands out ids and takes them back. The
scheduler writes to live slots only, so its operations keep the pool; handing out
and taking back a slot that is not configured leaves the scheduler as it was.
-/
namespace Hwfq

variable {α : Type*} {gs : GroupScheduler α} {mem : Allocator} {live : Finset ℕ}

/-! ## The limits set at construction -/

/-- How many entries, how much capacity and which bins a scheduler was made with. -/
structure Bounds where
  maxEntries : ℕ
  totalCapacity : ℕ
  geometry : Geometry

def GroupScheduler.bounds (gs : GroupScheduler α) : Bounds :=
  ⟨gs.maxEntries, gs.totalCapacity, gs.geometry⟩

theorem GroupScheduler.bounds_of_ledger {gs' : GroupScheduler α} (h : gs'.ledger = gs.ledger)
    (hgeo : gs'.geometry = gs.geometry) : gs'.bounds = gs.bounds := by
  have hmax : gs'.maxEntries = gs.maxEntries := congrArg Ledger.maxEntries h
  have hcap : gs'.totalCapacity = gs.totalCapacity := congrArg Ledger.totalCapacity h
  rw [bounds, hmax, hcap, hgeo, bounds]

theorem GroupScheduler.bounds_of_queueView {gs' : GroupScheduler α}
    (hmax : gs'.maxEntries = gs.maxEntries) (hcap : gs'.totalCapacity = gs.totalCapacity)
    (hq : gs'.queueView = gs.queueView) : gs'.bounds = gs.bounds := by
  have hgeo : gs'.geometry = gs.geometry := congrArg QueueView.geometry hq
  rw [bounds, hmax, hcap, hgeo, bounds]

theorem configureEntry_bounds (h : SumsFit gs) (id : ℕ) (a : Allocation) :
    (groupSchedulerConfigureEntry gs id a).2.bounds = gs.bounds := by
  rcases configureEntry_cases h id a with ⟨heq, -⟩ | ⟨heq, -⟩ | ⟨-, -, entry, -, hcase⟩
  · rw [heq]
  · rw [heq]
  · rcases hcase with ⟨heq, -⟩ | ⟨heq, -⟩
    · rw [heq]
    · obtain ⟨-, -, hcap, hmax⟩ := @commitEntry_totals _ (releasedFor gs entry) entry id a
      rw [heq]
      apply GroupScheduler.bounds_of_queueView
      · rw [hmax, releasedFor_maxEntries]
      · rw [hcap, releasedFor_totalCapacity]
      · exact (commitEntry_queueView _ _ _).trans (releasedFor_queueView entry)

theorem removeEntry_bounds (gs : GroupScheduler α) (id : ℕ) :
    (groupSchedulerRemoveEntry gs id).2.bounds = gs.bounds := by
  have hview := removeEntry_queueView gs id
  rcases removeEntry_cases gs id with ⟨heq, -⟩ | ⟨heq, -⟩ | ⟨-, -, entry, -, heq⟩
  · rw [heq]
  · rw [heq]
  · have hmax := @release_maxEntries _ gs entry.allocation
    have hcap := @release_totalCapacity _ gs entry.allocation
    rw [heq] at hview ⊢
    exact GroupScheduler.bounds_of_queueView hmax hcap hview

theorem enqueue_ledger (mem : Allocator) (gs : GroupScheduler α) (id w : ℕ) (ud : Option α)
    (cf : Bool) :
    (groupSchedulerEnqueue mem gs id w ud cf).gs.bounds = gs.bounds ∧
      (groupSchedulerEnqueue mem gs id w ud cf).gs.allocatedRateCapacity =
        gs.allocatedRateCapacity := by
  rcases enqueue_cases mem gs id w ud cf with ⟨-, heq, -⟩ | ⟨-, -, -, -, entry, -, heq⟩
  · rw [heq]
    exact ⟨rfl, rfl⟩
  · have hledger := enqueued_ledger id gs (newSession gs entry mem.next id w ud cf)
    rw [heq]
    exact ⟨@GroupScheduler.bounds_of_ledger _ (gs.writeEntry id _) _ hledger (enqueued_geometry id),
      congrArg Ledger.allocatedRateCapacity hledger⟩

theorem updateVirtualTime_bounds (gs : GroupScheduler α) (w : ℕ) :
    (groupSchedulerUpdateVirtualTime gs w).bounds = gs.bounds := by
  obtain ⟨-, hmax, -, -, hcap⟩ := updateVirtualTime_totals gs w
  rw [GroupScheduler.bounds, hmax, hcap, updateVirtualTime_geometry, GroupScheduler.bounds]

/-! ## The joint invariant -/

/-- The invariant of a group scheduler together with that of the pool below it. -/
structure PooledInv (mem : Allocator) (gs : GroupScheduler α) (live : Finset ℕ) : Prop where
  group : GroupInv mem gs
  pool : PoolInv gs.entries live
  bounded : ∀ id, (activeEntry gs id).isSome = true → id < gs.maxEntries
  exact : gs.numBins ≤ 32768 → ExactCache gs

theorem PoolInv.mem_of_active (h : PoolInv gs.entries live) {id : ℕ}
    (hact : (activeEntry gs id).isSome = true) : id ∈ live := by
  by_contra hid
  obtain ⟨e, he⟩ := Option.isSome_iff_exists.mp hact
  obtain ⟨hget, hconf⟩ := Option.filter_eq_some_iff.mp he
  obtain ⟨e', he', rfl⟩ := Option.map_eq_some_iff.mp hget
  have hidle := h.idle id hid e' he'
  have hcore : e'.core.configured = e'.configured := rfl
  simp [hcore, hidle] at hconf

theorem PooledInv.listed_live (h : PooledInv mem gs live) {id : ℕ}
    (hid : id ∈ gs.configuredEntries) : id ∈ live :=
  h.pool.mem_of_active ((h.group.listed id).mp hid)

theorem PooledInv.weaken {mem' : Allocator} (h : PooledInv mem gs live)
    (hmem : mem.next ≤ mem'.next) : PooledInv mem' gs live :=
  ⟨h.group.weaken hmem, h.pool, h.bounded, h.exact⟩

/-- An operation that makes no entry active keeps every active id within its bound. -/
theorem PooledInv.of_active {gs' : GroupScheduler α} {mem' : Allocator} {live' : Finset ℕ}
    (h : PooledInv mem gs live) (hgroup : GroupInv mem' gs') (hpool : PoolInv gs'.entries live')
    (hmax : gs'.maxEntries = gs.maxEntries)
    (hact : ∀ j, (activeEntry gs' j).isSome = true → (activeEntry gs j).isSome = true)
    (hexact : gs'.numBins ≤ 32768 → ExactCache gs') : PooledInv mem' gs' live' :=
  ⟨hgroup, hpool, fun j hj => hmax ▸ h.bounded j (hact j hj), hexact⟩

/-- An operation on the entries that keeps their time stamps keeps the cache. -/
theorem PooledInv.exact_of_tags {gs' : GroupScheduler α} (h : PooledInv mem gs live)
    (hq : gs'.queueView = gs.queueView)
    (htags : ∀ j e, activeEntry gs' j = some e →
      ∃ e', activeEntry gs j = some e' ∧ e'.lastFinishTime = e.lastFinishTime)
    (hn : gs'.numBins ≤ 32768) : ExactCache gs' := by
  have hgeo : gs'.geometry = gs.geometry := congrArg QueueView.geometry hq
  have hbins : gs'.numBins = gs.numBins := congrArg Geometry.numBins hgeo
  apply (h.exact (hbins ▸ hn)).of_queueView hq
  intro j e he hmax
  obtain ⟨e', he', hsame⟩ := htags j e he
  exact ⟨j, e', he', hsame.trans hmax⟩

theorem Fresh.pooled {numGroups binsPerGroup totalCapacity maxEntries : ℕ} {st : GroupState α}
    (h : Fresh numGroups binsPerGroup totalCapacity maxEntries st)
    (hpool : PoolInv st.gs.entries live) : PooledInv st.mem st.gs live :=
  ⟨h.inv, hpool, fun id hid => by simp [h.activeEntry] at hid, fun _ => h.exactCache⟩

/-! ## The operations of the scheduler -/

theorem PoolInv.recalculate (h : PoolInv gs.entries live)
    (hlist : ∀ i ∈ gs.configuredEntries, i ∈ live) :
    PoolInv (recalculateWeightBasedRates gs).entries live :=
  h.writeAll hlist _

/-- The two outcomes of configure, with the entries that are active afterwards. -/
theorem PooledInv.configure_cases (h : PooledInv mem gs live) (id : ℕ) (a : Allocation) :
    ((groupSchedulerConfigureEntry gs id a).1 ≠ .success ∧
      (groupSchedulerConfigureEntry gs id a).2 = gs) ∨
    ((groupSchedulerConfigureEntry gs id a).1 = .success ∧ id < gs.maxEntries ∧
      ∃ entry, hwfqChunkedGet gs.entries id = some entry ∧ ¬ Overbooks gs entry a ∧
        (groupSchedulerConfigureEntry gs id a).2 =
          commitEntry (releasedFor gs entry) entry id a ∧
        ∀ j, activeEntry (groupSchedulerConfigureEntry gs id a).2 j =
          if j = id then some (configuredAs id a entry) else activeEntry gs j) := by
  rcases configureEntry_cases h.group.sums id a with
    ⟨heq, -⟩ | ⟨heq, -⟩ | ⟨hlt, -, entry, hget, hcase⟩
  · exact .inl ⟨by simp [heq], by rw [heq]⟩
  · exact .inl ⟨by simp [heq], by rw [heq]⟩
  · rcases hcase with ⟨heq, -⟩ | ⟨heq, hfits⟩
    · exact .inl ⟨by simp [heq], by rw [heq]⟩
    · refine .inr ⟨by rw [heq], hlt, entry, hget, hfits, by rw [heq], fun j => ?_⟩
      rw [heq, commitEntry_activeEntry a (by rwa [releasedFor_entries]), activeEntry,
        releasedFor_entries, activeEntry]

theorem PooledInv.configure (h : PooledInv mem gs live) {id : ℕ} (hid : id ∈ live)
    (a : Allocation) : PooledInv mem (groupSchedulerConfigureEntry gs id a).2 live := by
  rcases h.configure_cases id a with ⟨-, heq⟩ | ⟨-, hlt, entry, hget, -, heq, hact⟩
  · rw [heq]
    exact h
  · have hgeo : (groupSchedulerConfigureEntry gs id a).2.numBins = gs.numBins :=
      congrArg QueueView.geometry (configureEntry_queueView h.group.sums id a) |>
        congrArg Geometry.numBins
    refine ⟨h.group.configure id a, ?_, fun j hj => ?_,
      fun hn => (h.exact (hgeo ▸ hn)).configure h.group id a⟩
    · rw [heq, commitEntry]
      refine PoolInv.recalculate ?_ fun i hi => ?_
      · simp only [GroupScheduler.writeEntry, reserve_entries, releasedFor_entries]
        exact h.pool.write hid _
      · simp only [GroupScheduler.writeEntry, reserve_configuredEntries,
          releasedFor_configuredEntries] at hi
        split_ifs at hi
        · exact h.listed_live hi
        · rcases List.mem_cons.mp hi with rfl | hi
          · exact hid
          · exact h.listed_live hi
    · obtain ⟨-, -, -, hmax⟩ := @commitEntry_totals _ (releasedFor gs entry) entry id a
      rw [heq, hmax, releasedFor_maxEntries]
      rw [hact] at hj
      split_ifs at hj with hji
      · exact hji ▸ hlt
      · exact h.bounded j hj

/-- Taking an active entry out of the configured ones. -/
theorem PooledInv.removeEntry (h : PooledInv mem gs live) {id : ℕ}
    (hact : (activeEntry gs id).isSome = true) :
    PooledInv mem (groupSchedulerRemoveEntry gs id).2 live ∧
      ∀ j, activeEntry (groupSchedulerRemoveEntry gs id).2 j =
        if j = id then none else activeEntry gs j := by
  obtain ⟨entry, hfind⟩ : ∃ entry, groupSchedulerFindEntry gs id = some entry := by
    rw [activeEntry_eq, Option.isSome_map] at hact
    exact Option.isSome_iff_exists.mp hact
  have hlt := h.bounded id hact
  have hact' := removeEntry_activeEntry hfind hlt
  have hgeo : (groupSchedulerRemoveEntry gs id).2.numBins = gs.numBins :=
    congrArg (·.geometry.numBins) (removeEntry_queueView gs id)
  refine ⟨h.of_active (h.group.removeEntry id) ?_
    (congrArg Bounds.maxEntries (removeEntry_bounds gs id)) (fun j hj => ?_)
    fun hn => (h.exact (hgeo ▸ hn)).removeEntry id, hact'⟩
  · rcases removeEntry_cases gs id with ⟨heq, -⟩ | ⟨heq, -⟩ | ⟨-, -, entry, -, heq⟩
    · rw [heq]
      exact h.pool
    · rw [heq]
      exact h.pool
    · rw [heq]
      refine PoolInv.recalculate ?_ fun i hi => ?_
      · simp only [GroupScheduler.writeEntry, release_entries]
        exact h.pool.write (h.pool.mem_of_active hact) _
      · exact h.listed_live (List.mem_of_mem_erase hi)
  · rw [hact'] at hj
    split_ifs at hj
    · simp at hj
    · exact hj

theorem PooledInv.enqueue (h : PooledInv mem gs live) (id w : ℕ) (ud : Option α) (cf : Bool) :
    PooledInv (groupSchedulerEnqueue mem gs id w ud cf).mem
      (groupSchedulerEnqueue mem gs id w ud cf).gs live := by
  have hgroup := h.group.enqueue id w ud cf
  have hgeo : (groupSchedulerEnqueue mem gs id w ud cf).gs.numBins = gs.numBins :=
    congrArg (·.geometry.numBins) (enqueue_ledger mem gs id w ud cf).1
  have hexact := fun hn : (groupSchedulerEnqueue mem gs id w ud cf).gs.numBins ≤ 32768 =>
    (h.exact (hgeo ▸ hn)).enqueue h.group id w ud cf
  rcases enqueue_cases mem gs id w ud cf with ⟨-, heq, -⟩ | ⟨-, -, -, -, entry, hadm, heq⟩
  · rw [heq] at hgroup hexact ⊢
    exact h.of_active hgroup h.pool rfl (fun _ hj => hj) hexact
  · have hledger := enqueued_ledger id gs (newSession gs entry mem.next id w ud cf)
    have hent : (enqueued gs id (newSession gs entry mem.next id w ud cf)).entries = _ :=
      congrArg Ledger.entries hledger
    have hid : id ∈ live := h.pool.mem_of_active (by rw [activeEntry_of_find hadm.found]; rfl)
    rw [heq] at hgroup hexact ⊢
    refine h.of_active hgroup ?_ (congrArg Ledger.maxEntries hledger) (fun j hj => ?_) hexact
    · rw [hent]
      exact h.pool.write hid fun e =>
        { e with lastFinishTime := (newSession gs entry mem.next id w ud cf).finishTime }
    · rw [enqueued_activeEntry] at hj
      split_ifs at hj
      · rwa [Option.isSome_map] at hj
      · exact hj

theorem dequeue_ledger (gs : GroupScheduler α) : (groupSchedulerDequeue gs).2.ledger = gs.ledger := by
  unfold groupSchedulerDequeue
  by_cases hcount : gs.activeSessionCount = 0
  · rw [if_pos hcount]
  rw [if_neg hcount, calendarFindMinSession_eq hcount]
  cases findEligibleMinBitfield gs (dequeueTime gs) with
  | none => rfl
  | some s =>
    have hremoved := @removed_ledger _ (gs.retimed (dequeueTime gs) s.finishTime) s
    unfold removed at hremoved
    dsimp only
    generalize calendarRemoveSession (gs.retimed (dequeueTime gs) s.finishTime) s = r at hremoved ⊢
    obtain ⟨status, gs'⟩ := r
    cases status <;> exact hremoved

theorem dequeue_geometry (h : CalendarInv gs) :
    (groupSchedulerDequeue gs).2.geometry = gs.geometry := by
  rcases dequeue_cases h with ⟨-, heq⟩ | ⟨-, -, heq⟩ | ⟨-, s, -, heq⟩
  · rw [heq]
  · rw [heq]
    rfl
  · rw [heq]
    exact dequeued_geometry s

/-- What a dequeue that returns a session did. -/
theorem dequeue_some (h : CalendarInv gs) {q : SessionState α} {gs' : GroupScheduler α}
    (heq : groupSchedulerDequeue gs = (some q, gs')) :
    findEligibleMinBitfield gs (dequeueTime gs) = some q ∧ gs' = dequeued gs q ∧
      gs.queued = q ::ₘ gs'.queued := by
  rcases dequeue_cases h with ⟨-, hd⟩ | ⟨-, -, hd⟩ | ⟨-, s, hfind, hd⟩
  · simp [hd] at heq
  · simp [hd] at heq
  · rw [hd, Prod.mk.injEq, Option.some.injEq] at heq
    obtain ⟨rfl, rfl⟩ := heq
    exact ⟨hfind, rfl, dequeued_queued h (findEligible_some h hfind).1⟩

theorem dequeue_none (h : CalendarInv gs) {gs' : GroupScheduler α}
    (heq : groupSchedulerDequeue gs = (none, gs')) : gs'.queued = gs.queued := by
  rcases dequeue_cases h with ⟨-, hd⟩ | ⟨-, -, hd⟩ | ⟨-, s, -, hd⟩
  · rw [hd, Prod.mk.injEq] at heq
    rw [← heq.2]
  · rw [hd, Prod.mk.injEq] at heq
    rw [← heq.2]
    rfl
  · simp [hd] at heq

theorem PooledInv.dequeue (h : PooledInv mem gs live) :
    PooledInv mem (groupSchedulerDequeue gs).2 live := by
  have hledger := dequeue_ledger gs
  have hent : (groupSchedulerDequeue gs).2.entries = gs.entries := congrArg Ledger.entries hledger
  have hgeo : (groupSchedulerDequeue gs).2.numBins = gs.numBins :=
    congrArg Geometry.numBins (dequeue_geometry h.group.calendar)
  refine h.of_active h.group.dequeue ?_ (congrArg Ledger.maxEntries hledger) (fun j hj => ?_)
    fun hn => (h.exact (hgeo ▸ hn)).dequeue h.group (hgeo ▸ hn)
  · rw [hent]
    exact h.pool
  · rwa [activeEntry_of_ledger hledger] at hj

theorem PooledInv.update (h : PooledInv mem gs live) (w : ℕ) :
    PooledInv mem (groupSchedulerUpdateVirtualTime gs w) live := by
  obtain ⟨-, hmax, -⟩ := updateVirtualTime_totals gs w
  have hgeo : (groupSchedulerUpdateVirtualTime gs w).numBins = gs.numBins :=
    congrArg Geometry.numBins (updateVirtualTime_geometry w)
  refine h.of_active (h.group.update w) ?_ hmax (fun j hj => ?_)
    fun hn => (h.exact (hgeo ▸ hn)).update h.group w
  · rcases updateVirtualTime_cases gs w with ⟨-, heq⟩ | ⟨-, heq⟩
    · rw [heq]
      exact h.pool
    · rw [heq]
      exact h.pool.writeAll (fun _ hi => h.listed_live hi) _
  · rwa [updateVirtualTime_activeEntry h.group.nodup h.group.listed, Option.isSome_map] at hj

/-! ## The sum of the rates -/

theorem activeEntry_of_get_some {id : ℕ} {entry : EntryConfig}
    (hget : hwfqChunkedGet gs.entries id = some entry) :
    activeEntry gs id = if entry.configured then some entry.core else none := by
  rw [activeEntry, hget, Option.map_some, Option.filter_some]
  rfl

/-- A successful configure exchanges the rate of the entry in the sum. -/
theorem PooledInv.configure_rates (h : PooledInv mem gs live) {id : ℕ} {a : Allocation}
    (hok : (groupSchedulerConfigureEntry gs id a).1 = .success) :
    (groupSchedulerConfigureEntry gs id a).2.allocatedRateCapacity =
      u64 (subU64 gs.allocatedRateCapacity
        ((activeEntry gs id).elim 0 (·.allocation.reserved)) + a.reserved) := by
  rcases h.configure_cases id a with ⟨hbad, -⟩ | ⟨-, -, entry, hget, -, heq, -⟩
  · exact absurd hok hbad
  obtain ⟨hrate, -⟩ := @commitEntry_totals _ (releasedFor gs entry) entry id a
  rw [heq, hrate, reserve_rates (h.group.sums.releasedFor entry), activeEntry_of_get_some hget,
    releasedFor]
  split_ifs
  · rw [release_rates]
    rfl
  · rw [Option.elim_none, subU64_zero]

theorem PooledInv.retire_rates (h : PooledInv mem gs live) {id : ℕ} {e : EntryConfig}
    (hact : activeEntry gs id = some e) :
    (freeEntryOf (groupSchedulerRemoveEntry gs id).2 id).allocatedRateCapacity =
      subU64 gs.allocatedRateCapacity e.allocation.reserved := by
  have hlt := h.bounded id (by rw [hact]; rfl)
  rcases removeEntry_cases gs id with ⟨-, hbad⟩ | ⟨-, hnone⟩ | ⟨-, -, entry, hfind, heq⟩
  · omega
  · rw [activeEntry_none_iff.mpr hnone] at hact
    cases hact
  · rw [activeEntry_of_find hfind, Option.some.injEq] at hact
    have hrate : (freeEntryOf (groupSchedulerRemoveEntry gs id).2 id).allocatedRateCapacity =
        (groupSchedulerRemoveEntry gs id).2.allocatedRateCapacity := rfl
    rw [hrate, heq, ← hact]
    exact release_rates gs entry.allocation

/-! ## Taking a slot and giving it back -/

/-- A change of the store that no configured entry sees. -/
theorem GroupInv.withEntries (h : GroupInv mem gs) {ce : ChunkedEntries}
    (hact : ∀ id, activeEntry { gs with entries := ce } id = activeEntry gs id) :
    GroupInv mem { gs with entries := ce } :=
  h.of_queueView rfl (fun id e he => h.tags id e (hact id ▸ he)) ⟨h.sums.rates, h.sums.weights⟩
    h.nodup fun id => (h.listed id).trans (by rw [hact])

theorem activeEntry_zero {ce : ChunkedEntries} {id : ℕ}
    (h : hwfqChunkedGet ce id = some EntryConfig.zero) :
    activeEntry { gs with entries := ce } id = none := by
  simp [activeEntry, h, EntryConfig.zero, EntryConfig.core]

theorem activeEntry_of_get {gs' : GroupScheduler α} {id : ℕ}
    (h : hwfqChunkedGet gs'.entries id = hwfqChunkedGet gs.entries id) :
    activeEntry gs' id = activeEntry gs id := by
  rw [activeEntry, h, activeEntry]

theorem activeEntry_eq_none {id : ℕ}
    (h : ∀ e, hwfqChunkedGet gs.entries id = some e → e.configured = false) :
    activeEntry gs id = none := by
  rw [activeEntry_none_iff, groupSchedulerFindEntry, Option.filter_eq_none_iff]
  intro e he
  simp [h e he]

/-- All outcomes of taking an id for a scheduler: none of them shows in its entries. -/
theorem PooledInv.alloc (h : PooledInv mem gs live) {mem₀ : Allocator}
    (hmem : mem.next ≤ mem₀.next) :
    mem₀.next ≤ (allocEntryOf mem₀ gs).2.1.next ∧
      (∀ j, activeEntry (allocEntryOf mem₀ gs).2.2 j = activeEntry gs j) ∧
      (allocEntryOf mem₀ gs).2.2.queueView = gs.queueView ∧
      ((∃ ret, (allocEntryOf mem₀ gs).1 = .error ret ∧
          PooledInv (allocEntryOf mem₀ gs).2.1 (allocEntryOf mem₀ gs).2.2 live) ∨
        ∃ id, (allocEntryOf mem₀ gs).1 = .ok id ∧ id ∉ live ∧ live.card < gs.entries.limit ∧
          PooledInv (allocEntryOf mem₀ gs).2.1 (allocEntryOf mem₀ gs).2.2 (insert id live) ∧
          HandsOut gs.entries (allocEntryOf mem₀ gs).2.2.entries id) := by
  obtain ⟨hnext, hcase⟩ := h.pool.alloc mem₀
  have hle := hmem.trans hnext
  rcases hcase with ⟨ret, hret, hpool, hext⟩ | ⟨id, hret, hnew, hroom, hpool, hout⟩
  · have hact : ∀ j, activeEntry (allocEntryOf mem₀ gs).2.2 j = activeEntry gs j := by
      intro j
      rcases hext j with heq | ⟨hnone, hzero⟩
      · exact activeEntry_of_get heq
      · rw [show activeEntry (allocEntryOf mem₀ gs).2.2 j = none from activeEntry_zero hzero]
        simp [activeEntry, hnone]
    exact ⟨hnext, hact, rfl, .inl ⟨ret, hret,
      h.of_active ((h.group.withEntries hact).weaken hle) hpool rfl (fun j hj => hact j ▸ hj)
        (h.exact_of_tags rfl fun j e he => ⟨e, hact j ▸ he, rfl⟩)⟩⟩
  · have hact : ∀ j, activeEntry (allocEntryOf mem₀ gs).2.2 j = activeEntry gs j := by
      intro j
      by_cases hj : j = id
      · subst hj
        obtain ⟨e, he, hconf, -⟩ := hout.given
        rw [show activeEntry gs j = none from activeEntry_eq_none (h.pool.idle j hnew)]
        refine activeEntry_eq_none fun e' he' => ?_
        rw [show hwfqChunkedGet (allocEntryOf mem₀ gs).2.2.entries j = _ from he] at he'
        cases he'
        exact hconf
      · rcases hout.others j hj with heq | ⟨hnone, hzero⟩
        · exact activeEntry_of_get heq
        · rw [show activeEntry (allocEntryOf mem₀ gs).2.2 j = none from activeEntry_zero hzero]
          simp [activeEntry, hnone]
    exact ⟨hnext, hact, rfl,
      .inr ⟨id, hret, hnew, hroom,
        h.of_active ((h.group.withEntries hact).weaken hle) hpool rfl (fun j hj => hact j ▸ hj)
          (h.exact_of_tags rfl fun j e he => ⟨e, hact j ▸ he, rfl⟩), hout⟩⟩

/-- Giving back a live id that is not configured. -/
theorem PooledInv.free (h : PooledInv mem gs live) {id : ℕ} (hid : id ∈ live)
    (hnone : activeEntry gs id = none) :
    PooledInv mem (freeEntryOf gs id) (live.erase id) ∧
      ∀ j, activeEntry (freeEntryOf gs id) j = activeEntry gs j := by
  obtain ⟨hpool, heq⟩ := h.pool.free_live hid
  have hact : ∀ j, activeEntry (freeEntryOf gs id) j = activeEntry gs j := by
    intro j
    have hget : hwfqChunkedGet (freeEntryOf gs id).entries j = _ :=
      (congrArg (hwfqChunkedGet · j) heq).trans (get_giveBack id j)
    by_cases hj : j = id
    · subst hj
      rw [hnone]
      refine activeEntry_eq_none fun e he => ?_
      rw [hget, if_pos rfl] at he
      obtain ⟨e', -, rfl⟩ := Option.map_eq_some_iff.mp he
      rfl
    · rw [if_neg hj] at hget
      exact activeEntry_of_get hget
  exact ⟨h.of_active (h.group.withEntries hact) hpool rfl (fun j hj => hact j ▸ hj)
    (h.exact_of_tags rfl fun j e he => ⟨e, hact j ▸ he, rfl⟩), hact⟩

/-- Removing an active entry and giving its id back. -/
theorem PooledInv.retire (h : PooledInv mem gs live) {id : ℕ}
    (hact : (activeEntry gs id).isSome = true) :
    PooledInv mem (freeEntryOf (groupSchedulerRemoveEntry gs id).2 id) (live.erase id) ∧
      (∀ j, activeEntry (freeEntryOf (groupSchedulerRemoveEntry gs id).2 id) j =
        if j = id then none else activeEntry gs j) ∧
      (freeEntryOf (groupSchedulerRemoveEntry gs id).2 id).queueView = gs.queueView := by
  obtain ⟨hrem, hact'⟩ := h.removeEntry hact
  obtain ⟨hfree, hsame⟩ := hrem.free (h.pool.mem_of_active hact) (by rw [hact', if_pos rfl])
  exact ⟨hfree, fun j => (hsame j).trans (hact' j), removeEntry_queueView gs id⟩

/-! ## Statistics -/

theorem PooledInv.writeStats (h : PooledInv mem gs live) {id : ℕ}
    (hact : (activeEntry gs id).isSome = true) (f : Stats → Stats) :
    PooledInv mem (gs.writeEntry id fun e => { e with stats := f e.stats }) live := by
  have hwrite (j : ℕ) : activeEntry (gs.writeEntry id fun e => { e with stats := f e.stats }) j =
      if j = id then (activeEntry gs j).map fun e => { e with stats := f e.stats }
      else activeEntry gs j :=
    writeEntry_activeEntry id (fun e => { e with stats := f e.stats }) (fun _ => rfl)
      (fun _ => rfl) j
  refine h.of_active
    (h.group.of_queueView rfl (fun j e he => ?_) ⟨h.group.sums.rates, h.group.sums.weights⟩
      h.group.nodup fun j => ?_)
    (h.pool.write (h.pool.mem_of_active hact) fun e => { e with stats := f e.stats }) rfl
    (fun j hj => ?_) (h.exact_of_tags rfl fun j e he => ?_)
  · rw [hwrite] at he
    split_ifs at he
    · obtain ⟨e', he', rfl⟩ := Option.map_eq_some_iff.mp he
      exact h.group.tags j e' he'
    · exact h.group.tags j e he
  · rw [hwrite]
    split_ifs
    · rw [Option.isSome_map]
      exact h.group.listed j
    · exact h.group.listed j
  · rw [hwrite] at hj
    split_ifs at hj
    · rwa [Option.isSome_map] at hj
    · exact hj
  · rw [hwrite] at he
    split_ifs at he
    · obtain ⟨e', he', rfl⟩ := Option.map_eq_some_iff.mp he
      exact ⟨e', he', rfl⟩
    · exact ⟨e, he, rfl⟩

/-- A pass over slots that keeps their ids and flags is invisible to the pool. -/
theorem PoolInv.mapped {ce ce' : ChunkedEntries} (h : PoolInv ce live) (hsame : SameCounters ce ce')
    {f : ℕ → EntryConfig → EntryConfig}
    (hget : ∀ j, hwfqChunkedGet ce' j = (hwfqChunkedGet ce j).map (f j))
    (hid : ∀ j e, (f j e).entryId = e.entryId)
    (hconf : ∀ j e, (f j e).configured = e.configured) :
    PoolInv ce' live where
  free := by
    obtain ⟨l, hl, hnodup, hmem⟩ := h.free
    rw [hsame.freeHead, hsame.numAllocated]
    exact ⟨l, hl.congr fun i _ e he => ⟨f i e, by rw [hget, he]; rfl, hid i e⟩, hnodup, hmem⟩
  live_lt := by
    rw [hsame.numAllocated]
    exact h.live_lt
  count := hsame.numConfigured.trans h.count
  reach i hi := by
    rw [hget, Option.map_eq_none_iff.ne]
    exact h.reach i (hsame.numAllocated ▸ hi)
  within := by
    have hlim : ce'.limit = ce.limit := by
      unfold ChunkedEntries.limit
      rw [hsame.maxEntries]
    rw [hsame.numAllocated, hlim]
    exact h.within
  chunks := hsame.numAllocated.trans_le h.chunks
  idle i hi e he := by
    rw [hget] at he
    obtain ⟨e', he', rfl⟩ := Option.map_eq_some_iff.mp he
    rw [hconf]
    exact h.idle i hi e' he'

theorem get_resetAllFlowStats (ce : ChunkedEntries) (j : ℕ) :
    hwfqChunkedGet (resetAllFlowStats ce) j = (hwfqChunkedGet ce j).map resetFlowStats := by
  have hslot : j % 1024 < chunkSize := Nat.mod_lt _ (by decide)
  simp only [hwfqChunkedGet_eq, resetAllFlowStats]
  split_ifs with hge hlt
  · rfl
  · cases ce.chunks (j / 1024) with
    | none => rfl
    | some entries => simp [hslot]
  · omega

@[simp] theorem resetFlowStats_configured (e : EntryConfig) :
    (resetFlowStats e).configured = e.configured := by
  unfold resetFlowStats
  split_ifs <;> rfl

@[simp] theorem resetFlowStats_entryId (e : EntryConfig) :
    (resetFlowStats e).entryId = e.entryId := by
  unfold resetFlowStats
  split_ifs <;> rfl

/-- Statistics of the slots picked by `which` went back to zero. -/
structure Resets (which : ℕ → Bool) (ce ce' : ChunkedEntries) : Prop where
  same : SameCounters ce ce'
  get : ∀ j, hwfqChunkedGet ce' j =
    (hwfqChunkedGet ce j).map (if which j then resetFlowStats else id)

theorem resetAll_resets (ce : ChunkedEntries) : Resets (fun _ => true) ce (resetAllFlowStats ce) :=
  ⟨⟨rfl, rfl, rfl, rfl⟩, get_resetAllFlowStats ce⟩

theorem write_resets (ce : ChunkedEntries) (id : ℕ) :
    Resets (fun j => decide (j = id)) ce (ce.write id resetFlowStats) := by
  refine ⟨⟨rfl, rfl, rfl, rfl⟩, fun j => ?_⟩
  rw [get_write]
  by_cases hj : j = id
  · simp [hj]
  · simp [hj]

theorem Resets.activeEntry {which : ℕ → Bool} {ce' : ChunkedEntries}
    (h : Resets which gs.entries ce') (j : ℕ) :
    activeEntry { gs with entries := ce' } j =
      (activeEntry gs j).map (if which j then resetFlowStats else id) := by
  rw [Hwfq.activeEntry, h.get, Hwfq.activeEntry]
  cases which j with
  | false => simp
  | true =>
    cases hwfqChunkedGet gs.entries j with
    | none => rfl
    | some e =>
      simp only [if_true, Option.map_some, Option.filter_some, EntryConfig.core,
        resetFlowStats_configured]
      cases hconf : e.configured <;> simp [resetFlowStats, hconf]

theorem PooledInv.reset (h : PooledInv mem gs live) {which : ℕ → Bool} {ce' : ChunkedEntries}
    (hreset : Resets which gs.entries ce') : PooledInv mem { gs with entries := ce' } live := by
  have hact := hreset.activeEntry
  refine h.of_active
    (h.group.of_queueView rfl (fun j e he => ?_) ⟨h.group.sums.rates, h.group.sums.weights⟩
      h.group.nodup fun j => ?_)
    (h.pool.mapped hreset.same hreset.get (fun j e => ?_) fun j e => ?_) rfl (fun j hj => ?_)
    (h.exact_of_tags rfl fun j e he => ?_)
  · rw [hact] at he
    obtain ⟨e', he', rfl⟩ := Option.map_eq_some_iff.mp he
    have htag := h.group.tags j e' he'
    cases which j with
    | false => exact htag
    | true =>
      simp only [if_true]
      unfold resetFlowStats
      split_ifs <;> exact htag
  · rw [hact, Option.isSome_map]
    exact h.group.listed j
  · cases which j <;> simp
  · cases which j <;> simp
  · rwa [hact, Option.isSome_map] at hj
  · rw [hact] at he
    obtain ⟨e', he', rfl⟩ := Option.map_eq_some_iff.mp he
    refine ⟨e', he', ?_⟩
    cases which j with
    | false => rfl
    | true =>
      simp only [if_true]
      unfold resetFlowStats
      split_ifs <;> rfl

end Hwfq
