import Hwfq.SchedulerLedgers

/-!
# The statistics in the slots

A slot is handed out and given back with whatever statistics it holds; only a slot never
used before comes with zeros. The queue and the configuration calls leave the statistics
of every slot alone.
-/
namespace Hwfq
open GuardedRuns

section Slots
variable {α : Type*} {gs gs' : GroupScheduler α} {mem : Allocator} {live : Finset ℕ}

/-- The statistics in slot `j`, configured or not. -/
def slotStats (ce : ChunkedEntries) (j : ℕ) : Option Stats := (hwfqChunkedGet ce j).map (·.stats)

theorem slotStats_of_core {ce ce' : ChunkedEntries} {j : ℕ}
    (h : (hwfqChunkedGet ce' j).map EntryConfig.core = (hwfqChunkedGet ce j).map EntryConfig.core) :
    slotStats ce' j = slotStats ce j := by
  have hcore : ∀ o : Option EntryConfig, o.map (·.stats) = (o.map EntryConfig.core).map (·.stats) := by
    intro o
    cases o <;> rfl
  rw [slotStats, slotStats, hcore, h, ← hcore]

/-- A write that leaves the statistics alone. -/
theorem slotStats_write (ce : ChunkedEntries) (id j : ℕ) (f : EntryConfig → EntryConfig)
    (hf : ∀ e, (f e).stats = e.stats) : slotStats (ce.write id f) j = slotStats ce j := by
  rw [slotStats, get_write, slotStats]
  split_ifs
  · rw [Option.map_map]
    exact congrArg (fun g => (hwfqChunkedGet ce j).map g) (funext hf)
  · rfl

theorem QueueTrace.slotFace (h : QueueTrace gs gs') (j : ℕ) :
    slotFace gs' j = Hwfq.slotFace gs j := by
  induction h with
  | refl => rfl
  | @enqueue gs' mem id w ud cf _ ih =>
    rw [(QueueStep.enqueue mem gs' id w ud cf).slots, ih]
  | @dequeue gs' _ ih =>
    have hent : (groupSchedulerDequeue gs').2.entries = gs'.entries :=
      congrArg Ledger.entries (dequeue_ledger gs')
    rw [Hwfq.slotFace, hent, ← Hwfq.slotFace, ih]
  | @update gs' w _ ih =>
    rw [(QueueStep.update gs' w).slots, ih]

theorem QueueTrace.slotStats (h : QueueTrace gs gs') (j : ℕ) :
    slotStats gs'.entries j = Hwfq.slotStats gs.entries j := by
  have hface : ∀ gs : GroupScheduler α,
      Hwfq.slotStats gs.entries j = (Hwfq.slotFace gs j).map (·.stats) := by
    intro gs
    rw [Hwfq.slotStats, Hwfq.slotFace, Option.map_map]
    rfl
  rw [hface, hface, h.slotFace]

theorem slotStats_configure (h : SumsFit gs) (id : ℕ) (a : Allocation) (j : ℕ) :
    slotStats (groupSchedulerConfigureEntry gs id a).2.entries j = slotStats gs.entries j := by
  have hcommit : ∀ entry, slotStats (commitEntry (releasedFor gs entry) entry id a).entries j =
      slotStats gs.entries j := by
    intro entry
    rw [commitEntry, slotStats_of_core (recalculate_core _ j), GroupScheduler.writeEntry]
    dsimp only
    rw [reserve_entries, releasedFor_entries]
    apply slotStats_write
    intro e
    rfl
  rcases configureEntry_cases h id a with ⟨heq, -⟩ | ⟨heq, -⟩ | ⟨-, -, entry, -, hcase⟩
  · rw [heq]
  · rw [heq]
  · rcases hcase with ⟨heq, -⟩ | ⟨heq, -⟩
    · rw [heq]
    · rw [heq]
      exact hcommit entry

theorem slotStats_removeEntry (gs : GroupScheduler α) (id j : ℕ) :
    slotStats (groupSchedulerRemoveEntry gs id).2.entries j = slotStats gs.entries j := by
  rcases removeEntry_cases gs id with ⟨heq, -⟩ | ⟨heq, -⟩ | ⟨-, -, entry, -, heq⟩
  · rw [heq]
  · rw [heq]
  · rw [heq, slotStats_of_core (recalculate_core _ j), GroupScheduler.writeEntry]
    dsimp only
    rw [release_entries]
    apply slotStats_write
    intro e
    rfl

theorem slotStats_free (h : PoolInv gs.entries live) {id : ℕ} (hid : id ∈ live) (j : ℕ) :
    slotStats (freeEntryOf gs id).entries j = slotStats gs.entries j := by
  obtain ⟨-, heq⟩ := h.free_live hid
  rw [freeEntryOf, heq]
  exact slotStats_write gs.entries id j
    (fun e => { e with configured := false, entryId := gs.entries.freeHead }) fun _ => rfl

/-- A slot handed out keeps its statistics or, never used before, has none. -/
theorem slotStats_alloc (h : PoolInv gs.entries live) (mem₀ : Allocator) (j : ℕ) :
    slotStats (allocEntryOf mem₀ gs).2.2.entries j = slotStats gs.entries j ∨
      groupSchedulerFindEntry gs j = none ∧
        slotStats (allocEntryOf mem₀ gs).2.2.entries j = some {} := by
  have hgrown : hwfqChunkedGet (allocEntryOf mem₀ gs).2.2.entries j = hwfqChunkedGet gs.entries j ∨
        hwfqChunkedGet gs.entries j = none ∧
        hwfqChunkedGet (allocEntryOf mem₀ gs).2.2.entries j = some EntryConfig.zero →
      slotStats (allocEntryOf mem₀ gs).2.2.entries j = slotStats gs.entries j ∨
        groupSchedulerFindEntry gs j = none ∧
          slotStats (allocEntryOf mem₀ gs).2.2.entries j = some {} := by
    intro hcase
    rcases hcase with heq | ⟨hnone, hzero⟩
    · exact .inl (congrArg (Option.map EntryConfig.stats) heq)
    · exact .inr ⟨congrArg (Option.filter EntryConfig.configured) hnone,
        congrArg (Option.map EntryConfig.stats) hzero⟩
  obtain ⟨-, ⟨ret, -, -, hext⟩ | ⟨id, -, hnew, -, -, hout⟩⟩ := h.alloc mem₀
  · exact hgrown (hext j)
  · by_cases hj : j = id
    · subst hj
      obtain ⟨e, he, -, hzero | ⟨old, hold, hkept⟩⟩ := hout.given
      · right
        exact ⟨find_of_idle (h.idle j hnew),
          (congrArg (Option.map EntryConfig.stats) he).trans (congrArg some hzero)⟩
      · left
        rw [slotStats, slotStats, hold]
        exact (congrArg (Option.map EntryConfig.stats) he).trans (congrArg some hkept)
    · exact hgrown (hout.others j hj)

end Slots

/-! ## The backlog counters -/

variable {s s' : Scheduler} {c : Call} {r : Response} {i : ℕ} {t u : Tenant}

/-- The statistics in the slots of a tenant after a change of the statistics of one flow. -/
theorem mapStats_slotStats (t : Tenant) (flowId : ℕ) (f : Stats → Stats) (j : ℕ) :
    slotStats (t.mapStats flowId f).flowScheduler.entries j =
      if j = flowId ∧ (findFlowEntry t flowId).isSome = true then
        (slotStats t.flowScheduler.entries j).map f
      else slotStats t.flowScheduler.entries j := by
  unfold Tenant.mapStats
  dsimp only
  by_cases hfind : (findFlowEntry t flowId).isSome = true
  · rw [if_pos hfind, GroupScheduler.writeEntry]
    dsimp only
    rw [slotStats, get_write]
    by_cases hj : j = flowId
    · rw [if_pos hj, if_pos ⟨hj, hfind⟩, slotStats, Option.map_map, Option.map_map]
      rfl
    · rw [if_neg hj, if_neg fun hboth => hj hboth.1, slotStats]
  · rw [if_neg hfind, if_neg fun hboth => hfind hboth.2]

/-- The backlog counters of a tenant and of all its slots fit their C type. -/
structure BacklogsFit (t : Tenant) : Prop where
  tenant : t.stats.currentBacklog ≤ uint32Max
  slots : ∀ j st, slotStats t.flowScheduler.entries j = some st → st.currentBacklog ≤ uint32Max

theorem Stats.backlogDown_up (st : Stats) (h : st.currentBacklog ≤ uint32Max) :
    st.backlogUp.backlogDown = st := by
  unfold Stats.backlogDown Stats.backlogUp
  dsimp only
  rw [subU32_one, u32_of_le h]

/-- A session counted and taken off again. -/
theorem BacklogsFit.counted (h : BacklogsFit t) (flowId j : ℕ) :
    slotStats ((t.mapStats flowId Stats.backlogUp).mapStats flowId
        Stats.backlogDown).flowScheduler.entries j = slotStats t.flowScheduler.entries j := by
  have hfind : (findFlowEntry (t.mapStats flowId Stats.backlogUp) flowId).isSome =
      (findFlowEntry t flowId).isSome := by
    have hmapped := mapStats_findEntry t flowId Stats.backlogUp flowId
    rw [findFlowEntry, hmapped, Option.isSome_map, ← findFlowEntry]
  rw [mapStats_slotStats, mapStats_slotStats, hfind]
  split_ifs
  · cases hst : slotStats t.flowScheduler.entries j with
    | none => rfl
    | some st =>
      rw [Option.map_some, Option.map_some, Stats.backlogDown_up st (h.slots j st hst)]
  · rfl

theorem StatsUpdate.backlog_le {f : Stats → Stats} (h : StatsUpdate c f) {st : Stats}
    (hst : st.currentBacklog ≤ uint32Max) : (f st).currentBacklog ≤ uint32Max := by
  have hpositive : st.backlogDownIfPositive.currentBacklog ≤ uint32Max := by
    unfold Stats.backlogDownIfPositive
    split_ifs
    · exact subU32_le hst 1
    · exact hst
  cases h with
  | backlogUp => exact u32_le _
  | backlogDown => exact subU32_le hst 1
  | addWait => exact hst
  | completed => exact hpositive
  | addCompletion => exact hst
  | cancelled => exact hpositive

theorem TenantTrace.backlogsFit (h : TenantTrace c t u) (ht : BacklogsFit t) : BacklogsFit u := by
  induction h with
  | refl => exact ht
  | queue _ trace ih =>
    constructor
    · exact ih.tenant
    · intro j st hst
      exact ih.slots j st ((trace.slotStats j).symm.trans hst)
  | @stats u f _ flowId update ih =>
    constructor
    · exact update.backlog_le ih.tenant
    · intro j st hst
      rw [mapStats_slotStats] at hst
      split_ifs at hst
      · obtain ⟨old, hold, rfl⟩ := Option.map_eq_some_iff.mp hst
        exact update.backlog_le (ih.slots j old hold)
      · exact ih.slots j st hst
  | reset _ _ reset ih =>
    constructor
    · rw [reset.backlog]
      exact ih.tenant
    · intro j st hst
      obtain ⟨which, hentries⟩ := reset.entries
      obtain ⟨e, he, rfl⟩ := Option.map_eq_some_iff.mp hst
      rw [hentries.get] at he
      obtain ⟨old, hold, rfl⟩ := Option.map_eq_some_iff.mp he
      have hle := ih.slots j old.stats (by rw [slotStats, hold, Option.map_some])
      have hkept : ((if which j = true then resetFlowStats else id) old).stats.currentBacklog =
          old.stats.currentBacklog := by
        by_cases hwhich : which j = true
        · rw [if_pos hwhich, resetFlowStats]
          split_ifs <;> rfl
        · rw [if_neg hwhich]
          rfl
      rw [hkept]
      exact hle
  | allocation _ _ ih => exact ⟨ih.tenant, ih.slots⟩

/-- A call that edits the flows of a tenant leaves the statistics of every slot alone, or
zeroes those of a slot never used before. -/
theorem FlowUpdate.slotStats {i : UInt32} {flows : GroupScheduler FlowSessionContext}
    (h : FlowUpdate s.mem i t c r flows) (hinv : FlowsInv s.mem i.toNat t.flowScheduler) (j : ℕ) :
    slotStats flows.entries j = Hwfq.slotStats t.flowScheduler.entries j ∨
      findFlowEntry t j = none ∧ Hwfq.slotStats flows.entries j = some {} := by
  obtain ⟨live, hpool⟩ := hinv.pooled
  have halloc := slotStats_alloc hpool.pool s.mem j
  obtain ⟨-, -, -, hcase⟩ := hpool.alloc (le_refl s.mem.next)
  cases h with
  | exhausted hret =>
    rw [hret] at halloc
    exact halloc
  | @admitted a id mem' flows₁ flows _ hret hconf =>
    rw [hret] at halloc hcase
    obtain ⟨ret, hbad, -⟩ | ⟨id', -, -, -, hpool', -⟩ := hcase
    · cases hbad
    · have hconfigure := slotStats_configure hpool'.group.sums id a j
      rw [hconf] at hconfigure
      rw [hconfigure]
      exact halloc
  | @rolledBack a id mem' flows₁ status flows _ hret hbad hconf =>
    rw [hret] at halloc hcase
    obtain ⟨ret, hbad, -⟩ | ⟨id', hid, -, -, hpool', -⟩ := hcase
    · cases hbad
    · cases hid
      rcases hpool'.configure_cases id a with ⟨-, heq⟩ | ⟨hok, -⟩
      · rw [hconf] at heq
        dsimp only at heq
        rw [heq, slotStats_free hpool'.pool (Finset.mem_insert_self _ _)]
        exact halloc
      · rw [hconf] at hok
        exact absurd hok hbad
  | @reconfigured f a status _ _ _ hconf =>
    have hconfigure := slotStats_configure hpool.group.sums f.toNat a j
    rw [hconf] at hconfigure
    exact .inl hconfigure
  | @retired f entry find idle =>
    have hact := activeEntry_of_findFlowEntry (Option.isSome_iff_exists.mpr ⟨entry, find⟩)
    have hpool' := (hpool.removeEntry hact).1
    left
    rw [slotStats_free hpool'.pool (hpool.pool.mem_of_active hact), slotStats_removeEntry]

theorem FlowUpdate.backlogsFit {i : UInt32} {flows : GroupScheduler FlowSessionContext}
    (h : FlowUpdate s.mem i t c r flows) (hinv : FlowsInv s.mem i.toNat t.flowScheduler)
    (hs : BacklogsFit t) : BacklogsFit { t with flowScheduler := flows } := by
  constructor
  · exact hs.tenant
  · intro j st hst
    rcases h.slotStats hinv j with heq | ⟨-, hzero⟩
    · exact hs.slots j st (heq.symm.trans hst)
    · cases hzero.symm.trans hst
      exact Nat.zero_le _

theorem Effect.backlogsFit (h : Effect s c r s') (hinv : SchedulerInv s)
    (hs : EveryTenant BacklogsFit s.cores) : EveryTenant BacklogsFit s'.cores := by
  by_cases hc : c.editsFlows = false
  · exact (h.tenantsFollow hc).every (fun _ _ ht htrace => htrace.backlogsFit ht) hs
  cases h with
  | idle _ _ tokens => exact tokens.cores ▸ hs
  | @added a addr flows mem i _ admits valid fits blank store fresh =>
    rw [cores_of_tenants admits.tenants]
    apply hs.update
    intro u hu
    rw [← Option.some.inj hu]
    constructor
    · exact Nat.zero_le _
    · intro j st hst
      obtain ⟨e, he, rfl⟩ := Option.map_eq_some_iff.mp hst
      rw [(blank j e he).2]
      exact Nat.zero_le _
  | removed tenant =>
    rw [cores_of_tenants (s := s) (v := none) rfl]
    apply hs.update
    intro u hu
    cases hu
  | @flows i t _ _ flows _ _ update change =>
    have hcore := hs _ t.core (cores_some change.tenant)
    have hflows := update.backlogsFit (hinv.tenants _ _ change.tenant).flows
      ⟨hcore.tenant, hcore.slots⟩
    rw [cores_of_tenants change.tenants]
    apply hs.update
    intro u hu
    rw [← Option.some.inj hu]
    exact ⟨hflows.tenant, hflows.slots⟩
  | _ => exact absurd rfl hc

theorem Made.backlogsFit (h : Made s) (calls : List Call) :
    EveryTenant BacklogsFit (Hwfq.afterRun s calls).cores := by
  have hstep : ∀ (s : Scheduler) (c : Call), SchedulerInv s ∧ EveryTenant BacklogsFit s.cores →
      SchedulerInv (Hwfq.after s c) ∧ EveryTenant BacklogsFit (Hwfq.after s c).cores := fun s c hs =>
    ⟨hs.1.after c, (hs.1.effect c).backlogsFit hs.1 hs.2⟩
  have hinit : EveryTenant BacklogsFit s.cores := by
    obtain ⟨mem, config, hinit⟩ := h
    have hnew := hwfqInit_success hinit
    intro i t ht
    obtain ⟨u, hu, -⟩ := tenants_of_cores ht
    rw [hnew.tenants] at hu
    cases hu
  exact (run_invariant_all hstep ⟨h.inv, hinit⟩ calls).2

end Hwfq
