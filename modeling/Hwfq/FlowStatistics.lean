import Hwfq.RemovalGuards

/-!
# The statistics of the flows

A flow's statistics live in its slot of the entry store. They count the sessions completed
in its name, and go back to zero with a reset that covers the flow. A slot handed out again
still holds what its last flow left there.
-/
namespace Hwfq
open GuardedRuns

variable {s s' : Scheduler} {c : Call} {i f j : ℕ} {t u : Tenant}

/-! ## The history of a run -/

/-- The calls of `hwfq_reset_stats` that reset flow `f` of tenant `i`. -/
def Covers (tenantId flowId : UInt32) (i f : ℕ) : Prop :=
  tenantId.toNat = hwfqAll ∨ tenantId.toNat = i ∧ (flowId.toNat = hwfqAll ∨ flowId.toNat = f)

instance (tenantId flowId : UInt32) (i f : ℕ) : Decidable (Covers tenantId flowId i f) :=
  inferInstanceAs (Decidable (_ ∨ _ ∧ (_ ∨ _)))

/-- The work sizes of the sessions of flow `f` of tenant `i` that were completed since it
was added, or since its statistics were last reset. -/
def tally (w : Watched) (c : Call) (completed : ℕ → ℕ → List ℕ) (i f : ℕ) : List ℕ :=
  match c with
  | .addFlow k _ _ =>
      if k.toNat = i ∧ (respond w.scheduler c).id = some f then [] else completed i f
  | .complete k g work =>
      match inFlightLookup w.scheduler work k.toNat g.toNat with
      | some found =>
          if (i, f) = (k.toNat, g.toNat) ∧ found.addr ∉ w.orphans then
            found.workSize :: completed i f
          else completed i f
      | none => completed i f
  | .resetStats k g => if Covers k g i f then [] else completed i f
  | _ => completed i f

structure Tallied where
  watched : Watched
  completed : ℕ → ℕ → List ℕ

def Tallied.step (t : Tallied) (c : Call) : Tallied :=
  ⟨t.watched.step c, tally t.watched c t.completed⟩

def Tallied.start (s : Scheduler) : Tallied := ⟨⟨s, 0⟩, fun _ _ => []⟩

/-- The reported statistics count the flow's own sessions. -/
def StatisticsExact (t : Tallied) : Prop :=
  ∀ i f st, hwfqGetFlowStats t.watched.scheduler i f = .ok st →
    st.operationsCompleted = u64 (t.completed i f).length ∧
      st.workUnitsProcessed = u64 (t.completed i f).sum

/-- The slot that the tenant's store hands out next has no statistics: it is fresh, or
those of its last flow are zero. -/
def HandsOutBlank (s : Scheduler) : Call → Prop
  | .addFlow i _ _ => ∀ t ∈ s.tenants i.toNat, t.flowScheduler.entries.freeHead ≠ entryNone →
      slotStats t.flowScheduler.entries t.flowScheduler.entries.freeHead = some {}
  | _ => True

instance (s : Scheduler) : ∀ c, Decidable (HandsOutBlank s c)
  | .addFlow i _ _ => inferInstanceAs (Decidable (∀ t ∈ s.tenants i.toNat,
      t.flowScheduler.entries.freeHead ≠ entryNone →
        slotStats t.flowScheduler.entries t.flowScheduler.entries.freeHead = some {}))
  | .addTenant .. | .configureTenant .. | .removeTenant .. | .reconfigureFlow .. | .removeFlow ..
  | .enqueue .. | .dequeue .. | .complete .. | .cancel .. | .checkTimeouts .. | .resetStats .. =>
      isTrue trivial

/-! ## Reading the statistics -/

/-- The counters that completions raise. -/
def Stats.served (st : Stats) : ℕ × ℕ := (st.operationsCompleted, st.workUnitsProcessed)

theorem readAt_of_find {β : Type*} (g : Stats → β) {entry : EntryConfig} (ht : s.tenants i = some t)
    (hfind : findFlowEntry t f = some entry) : readAt g s.cores i f = some (g entry.stats) := by
  obtain ⟨hget, -⟩ := groupSchedulerFindEntry_some.mp hfind
  have hslot : slotStats t.core.flowScheduler.entries f = some entry.stats :=
    congrArg (Option.map EntryConfig.stats) hget
  rw [readAt, cores_some ht, Option.bind_some, hslot, Option.map_some]

theorem readAt_of_id {β : Type*} (g : Stats → β) {cores : ℕ → Option Tenant} {st : Stats}
    (h : readAt id cores i j = some st) : readAt g cores i j = some (g st) := by
  obtain ⟨t, ht, hst⟩ := Option.bind_eq_some_iff.mp h
  rw [Option.map_id_fun] at hst
  rw [readAt, ht, Option.bind_some]
  exact congrArg (Option.map g) hst

theorem SchedulerInv.getFlowStats (h : SchedulerInv s) {st : Stats} :
    hwfqGetFlowStats s i f = .ok st ↔ Configured s (i, f) ∧ readAt id s.cores i f = some st := by
  unfold hwfqGetFlowStats
  rw [h.configuredTenant]
  cases ht : s.tenants i with
  | none =>
    have hnone : ¬ Configured s (i, f) := by
      rintro ⟨t, ht', -⟩
      rw [ht] at ht'
      cases ht'
    dsimp only
    split_ifs
    · simp [hnone]
    · simp [hnone]
  | some t =>
    have hslot : ¬ i ≥ s.maxTenants := Nat.not_le.mpr (h.lt_maxTenants ht)
    rw [if_neg hslot]
    dsimp only
    cases hfind : findFlowEntry t f with
    | none =>
      have hnone : ¬ Configured s (i, f) := by
        rintro ⟨t', ht', hfind'⟩
        rw [ht] at ht'
        cases ht'
        rw [hfind] at hfind'
        cases hfind'
      simp [hnone]
    | some entry =>
      have hconf : Configured s (i, f) := ⟨t, ht, Option.isSome_iff_exists.mpr ⟨entry, hfind⟩⟩
      rw [readAt_of_find id ht hfind]
      simp [hconf]

/-! ## What the calls do to the counters -/

/-- A call that may raise or reset the counters. -/
def Call.changesServed : Call → Bool
  | .complete _ _ _ => true
  | .resetStats _ _ => true
  | _ => false

theorem TenantTrace.served (h : TenantTrace c t u) (hc : c.changesServed = false) (j : ℕ) :
    (slotStats u.flowScheduler.entries j).map Stats.served =
      (slotStats t.flowScheduler.entries j).map Stats.served := by
  induction h with
  | refl => rfl
  | queue _ trace ih =>
    dsimp only
    rw [trace.slotStats, ih]
  | @stats u g _ flowId update ih =>
    have hg : ∀ st, (g st).served = st.served := by
      intro st
      cases update with
      | backlogUp => rfl
      | backlogDown => rfl
      | addWait => rfl
      | cancelled =>
        unfold Stats.backlogDownIfPositive
        split_ifs <;> rfl
      | _ => cases hc
    rw [mapStats_slotStats, ← ih]
    split_ifs
    · rw [Option.map_map]
      exact congrArg (fun k => (slotStats u.flowScheduler.entries j).map k) (funext hg)
    · rfl
  | reset _ resets _ _ =>
    cases c with
    | resetStats k g => cases hc
    | _ => cases resets
  | allocation _ _ ih => exact ih

theorem resetFlowStats_served {e : EntryConfig} (h : e.configured = true) :
    (resetFlowStats e).stats.served = (0, 0) := by
  rw [resetFlowStats, if_pos h]
  rfl

theorem readAt_served (ht : s.tenants i = some t) :
    readAt Stats.served s.cores i f =
      (hwfqChunkedGet t.flowScheduler.entries f).map (fun e => e.stats.served) := by
  rw [readAt, cores_some ht, Option.bind_some, slotStats, Option.map_map]
  rfl

theorem resetTenant_served {e : EntryConfig}
    (hget : hwfqChunkedGet t.flowScheduler.entries f = some e) (hconf : e.configured = true) :
    (hwfqChunkedGet (resetTenant t).flowScheduler.entries f).map (fun e => e.stats.served) =
      some (0, 0) := by
  have hreset := get_resetAllFlowStats t.flowScheduler.entries f
  rw [hget, Option.map_some] at hreset
  exact (congrArg (Option.map fun e => e.stats.served) hreset).trans
    (congrArg some (resetFlowStats_served hconf))

/-- A reset of one tenant leaves every other tenant as it was. -/
theorem resetStats_other {k g : ℕ} (hk : k ≠ hwfqAll) (hki : k ≠ i) :
    (hwfqResetStats s k g).tenants i = s.tenants i := by
  have hset : ∀ u, (s.setTenant k u).tenants i = s.tenants i := fun u =>
    Function.update_of_ne (Ne.symm hki) ..
  rw [hwfqResetStats, if_neg hk]
  split_ifs
  · cases s.configuredTenant k with
    | none => rfl
    | some u => exact hset _
  · cases s.configuredTenant k with
    | none => rfl
    | some u => exact hset _
  · rfl

/-- The counters of a flow after a reset. -/
theorem SchedulerInv.reset_served (h : SchedulerInv s) (k g : UInt32)
    (hconf : Configured s (i, f)) :
    readAt Stats.served (Hwfq.after s (.resetStats k g)).cores i f =
      if Covers k g i f then some (0, 0) else readAt Stats.served s.cores i f := by
  obtain ⟨t, ht, hfind⟩ := hconf
  have ht : s.tenants i = some t := ht
  obtain ⟨e, he⟩ := Option.isSome_iff_exists.mp hfind
  obtain ⟨hget, hconf⟩ := groupSchedulerFindEntry_some.mp he
  have hget : hwfqChunkedGet t.flowScheduler.entries f = some e := hget
  have hlt := h.lt_maxTenants ht
  have hstate : Hwfq.after s (.resetStats k g) = hwfqResetStats s k.toNat g.toNat := rfl
  rw [hstate]
  by_cases hk : k.toNat = hwfqAll
  · have hu : (hwfqResetStats s k.toNat g.toNat).tenants i = some (resetTenant t) := by
      rw [hwfqResetStats, if_pos hk]
      dsimp only
      rw [if_pos hlt, ht, Option.map_some, if_pos (h.tenants i t ht).configured]
    rw [if_pos (.inl hk), readAt_served hu, resetTenant_served hget hconf]
  by_cases hki : k.toNat = i
  · subst hki
    rw [hwfqResetStats, if_neg hk, if_pos hlt, h.configuredTenant, ht]
    dsimp only
    by_cases hg : g.toNat = hwfqAll
    · have hu : (s.setTenant k.toNat (resetTenant t)).tenants k.toNat = some (resetTenant t) :=
        Function.update_self ..
      rw [if_pos hg, if_pos (.inr ⟨rfl, .inl hg⟩), readAt_served hu,
        resetTenant_served hget hconf]
    · have hu : (s.setTenant k.toNat { t with
          flowScheduler := t.flowScheduler.writeEntry g.toNat resetFlowStats }).tenants k.toNat =
            some { t with
              flowScheduler := t.flowScheduler.writeEntry g.toNat resetFlowStats } :=
        Function.update_self ..
      rw [if_neg hg, readAt_served hu, GroupScheduler.writeEntry]
      dsimp only
      rw [get_write]
      by_cases hf : f = g.toNat
      · rw [if_pos hf, if_pos (.inr ⟨rfl, .inr hf.symm⟩), hget]
        exact congrArg some (resetFlowStats_served hconf)
      · have hnot : ¬ Covers k g k.toNat f := by
          rintro (hbad | ⟨-, hbad | hbad⟩)
          · exact hk hbad
          · exact hg hbad
          · exact hf hbad.symm
        rw [if_neg hf, if_neg hnot, readAt_served ht]
  · have hnot : ¬ Covers k g i f := by
      rintro (hbad | ⟨hbad, -⟩)
      · exact hk hbad
      · exact hki hbad
    have hother : (hwfqResetStats s k.toNat g.toNat).tenants i = some t :=
      (resetStats_other hk hki).trans ht
    rw [if_neg hnot, readAt_served hother, readAt_served ht]

/-! ## The slot of a new flow -/

/-- The statistics that a new flow of the tenant starts with. -/
def firstStats (ce : ChunkedEntries) : Option Stats :=
  if ce.freeHead = entryNone then some {} else slotStats ce ce.freeHead

/-- A slot never used before is zeroed, one from the free list keeps what it holds. -/
theorem entriesAlloc_slotStats {ce : ChunkedEntries} {live : Finset ℕ} (h : PoolInv ce live)
    (mem : Allocator) (hret : (hwfqChunkedEntriesAlloc mem ce).1 = .ok f) :
    slotStats (hwfqChunkedEntriesAlloc mem ce).2.2 f = firstStats ce := by
  unfold hwfqChunkedEntriesAlloc at hret ⊢
  by_cases hfull : ce.numConfigured ≥ ce.limit
  · rw [if_pos hfull] at hret
    cases hret
  rw [if_neg hfull] at hret ⊢
  by_cases hhead : ce.freeHead = entryNone
  · rw [if_neg (not_not.mpr hhead)] at hret ⊢
    obtain ⟨ce₁, -, hcount, -, -, ⟨ret, hbad, -⟩ | ⟨hok, -, hget, heq⟩⟩ := allocFresh_cases mem ce
    · rw [hret] at hbad
      cases hbad
    · cases hret.symm.trans hok
      obtain ⟨e, he⟩ := Option.ne_none_iff_exists'.mp hget
      rw [heq, firstStats, if_pos hhead, slotStats, get_takeFresh, if_pos hcount.numAllocated.symm,
        he]
      rfl
  · obtain ⟨entry, hentry, -⟩ := h.takeFree hhead
    rw [if_pos hhead, hentry] at hret ⊢
    cases hret
    have hget := @get_takeFree ce entry ce.freeHead
    rw [if_pos rfl] at hget
    rw [firstStats, if_neg hhead, slotStats, slotStats]
    refine (congrArg (Option.map EntryConfig.stats) hget).trans ?_
    rw [Option.map_map]
    rfl

/-- A new flow is there, with what its slot held. -/
theorem SchedulerInv.addFlow_stats (h : SchedulerInv s) (i : UInt32) (a : Option Allocation)
    (out : Bool) (hid : (respond s (.addFlow i a out)).id = some f) :
    ∃ t, s.tenants i.toNat = some t ∧ Configured (Hwfq.after s (.addFlow i a out)) (i.toNat, f) ∧
      readAt id (Hwfq.after s (.addFlow i a out)).cores i.toNat f =
        firstStats t.flowScheduler.entries := by
  have hid : (hwfqAddFlow s i.toNat a out).2.1 = some f := hid
  have hafter : Hwfq.after s (.addFlow i a out) = (hwfqAddFlow s i.toNat a out).2.2 := rfl
  rcases (h.addFlow i.toNat a out).2 with ⟨-, heq⟩ | ⟨a, t, ret, mem, flows, rfl, ht, -, -, halloc,
    ⟨e, -, -, hnone, -⟩ | ⟨f', flows', rfl, hconf, ⟨hok, hid', hch⟩ | ⟨-, hnone, -⟩⟩⟩
  · rw [heq] at hid
    cases hid
  · rw [hnone] at hid
    cases hid
  · obtain rfl : f' = f := Option.some.inj (hid'.symm.trans hid)
    obtain ⟨live, hpool⟩ := (h.tenants _ t ht).flows.pooled
    obtain ⟨-, -, -, ⟨ret, hbad, -⟩ | ⟨f₁, -, -, -, hpool', -⟩⟩ := hpool.alloc (le_refl s.mem.next)
    · rw [halloc] at hbad
      cases hbad
    have hgiven := entriesAlloc_slotStats hpool.pool s.mem (congrArg (·.1) halloc)
    have hflows : (allocEntryOf s.mem t.flowScheduler).2.2 = flows := congrArg (·.2.2) halloc
    have hentries : (hwfqChunkedEntriesAlloc s.mem t.flowScheduler.entries).2.2 = flows.entries :=
      congrArg GroupScheduler.entries hflows
    rw [hentries] at hgiven
    rw [halloc] at hpool'
    have hkept := slotStats_configure hpool'.group.sums f' a f'
    rw [hconf] at hkept
    have hactive : (activeEntry flows' f').isSome = true := by
      rcases hpool'.configure_cases f' a with ⟨hbad, -⟩ | ⟨-, -, entry, -, -, -, hactive⟩
      · rw [hconf] at hbad
        exact absurd hok hbad
      · rw [hconf] at hactive
        rw [hactive, if_pos rfl, Option.isSome_some]
    have hcores := cores_of_tenants hch.tenants
    refine ⟨t, ht, configured_iff.mpr ?_, ?_⟩
    · rw [hafter, hcores, Hwfq.hasFlow, Function.update_self]
      exact hactive
    · rw [hafter, hcores, readAt, Function.update_self, Option.map_id_fun]
      exact hkept.trans hgiven
  · rw [hnone] at hid
    cases hid

/-! ## One call -/

/-- The call adds flow `f` of tenant `i`. -/
def Adds (s : Scheduler) (c : Call) (i f : ℕ) : Prop :=
  ∃ k a out, c = .addFlow k a out ∧ k.toNat = i ∧ (respond s c).id = some f

theorem SchedulerInv.configured_before (h : SchedulerInv s)
    (hconf : Configured (Hwfq.after s c) (i, f)) (hold : ¬ Adds s c i f) : Configured s (i, f) := by
  rw [configured_iff] at hconf ⊢
  rcases (h.effect c).hasFlow h (i, f) with
    hsame | ⟨-, -, -, -, hgone⟩ | ⟨-, -, -, -, -, hgone⟩ | ⟨k, a, rfl, hk, hid, -⟩
  · exact hsame ▸ hconf
  · rw [hconf] at hgone
    cases hgone
  · rw [hconf] at hgone
    cases hgone
  · exact absurd ⟨k, a, true, rfl, hk.symm, hid⟩ hold

theorem tally_kept {w : Watched} {completed : ℕ → ℕ → List ℕ} (hc : c.changesServed = false)
    (hold : ¬ Adds w.scheduler c i f) : tally w c completed i f = completed i f := by
  cases c with
  | addFlow k a out =>
    have hnot : ¬ (k.toNat = i ∧ (respond w.scheduler (.addFlow k a out)).id = some f) :=
      fun hboth => hold ⟨k, a, out, rfl, hboth.1, hboth.2⟩
    rw [tally, if_neg hnot]
  | complete k g work => cases hc
  | resetStats k g => cases hc
  | _ => rfl

/-- The other calls leave the counters of the flows that stay alone. -/
theorem SchedulerInv.served_kept (h : SchedulerInv s) (hc : c.changesServed = false)
    (hbefore : Configured s (i, f)) (hafter : Configured (Hwfq.after s c) (i, f)) :
    readAt Stats.served (Hwfq.after s c).cores i f = readAt Stats.served s.cores i f := by
  cases hedit : c.editsFlows with
  | true =>
    obtain ⟨t, ht, hfind⟩ := hafter
    obtain ⟨e, he⟩ := Option.isSome_iff_exists.mp hfind
    have hread := readAt_of_find Stats.served ht he
    rcases (h.effect c).read_edited h hedit hread with hsame | ⟨-, hnone⟩
    · exact hread.trans hsame.symm
    · exact absurd hbefore hnone
  | false =>
    exact ((h.effect c).tenantsFollow hedit).readAt (fun t u htrace j => htrace.served hc j) i f

/-- The counters of a flow with the completion of a session of size `work`. -/
def countOne (work : ℕ) (n : ℕ × ℕ) : ℕ × ℕ := (u64 (n.1 + 1), u64 (n.2 + work))

/-- A session completed with the statistics enabled. -/
theorem SchedulerInv.complete_served (h : SchedulerInv s) (hnamed : Named s)
    (hon : s.config.enableStatistics = true) (k g : UInt32) (work : Option Session) (i f : ℕ) :
    readAt Stats.served (Hwfq.after s (.complete k g work)).cores i f =
      (readAt Stats.served s.cores i f).map fun n =>
        match inFlightLookup s work k.toNat g.toNat with
        | some found => if (i, f) = (k.toNat, g.toNat) then countOne found.workSize n else n
        | none => n := by
  obtain ⟨-, ⟨hnone, heq⟩ | ⟨found, cores, hlookup, -, hstats, hends⟩⟩ :=
    h.complete work k.toNat g.toNat
  · have hstate : Hwfq.after s (.complete k g work) = s := congrArg (·.2.2) heq
    rw [hstate, hnone, Option.map_id']
  · obtain ⟨hoff, -⟩ | ⟨-, rfl⟩ := hstats
    · rw [hon] at hoff
      cases hoff
    obtain ⟨hmem, htenant, hflow⟩ := inFlightLookup_some h.flight hlookup
    have hids : found.ids = (k.toNat, g.toNat) := by rw [InFlightEntry.ids, htenant, hflow]
    have hconf : Configured s (k.toNat, g.toNat) := hids ▸ hnamed _ (mem_outstanding_flight hmem)
    have hthere : ∀ t, mapStatsAt s.cores k.toNat g.toNat Stats.backlogDownIfPositive k.toNat =
        some t → (findFlowEntry t g.toNat).isSome = true := by
      intro t ht
      rw [mapStatsAt, Function.update_self] at ht
      obtain ⟨t₀, ht₀, rfl⟩ := Option.map_eq_some_iff.mp ht
      rw [findFlowEntry, mapStats_findEntry, Option.isSome_map]
      exact hconf.core ht₀
    have hdown : ∀ st : Stats, st.backlogDownIfPositive.served = st.served := by
      intro st
      unfold Stats.backlogDownIfPositive
      split_ifs <;> rfl
    have hone := @readAt_mapStatsAt _ Stats.served _ k.toNat g.toNat
      (Stats.addCompletion found.workSize) (countOne found.workSize) (fun _ => rfl) hthere i f
    rw [readAt_mapStatsAt_same hdown] at hone
    have hcores : (Hwfq.after s (.complete k g work)).cores = _ := hends.cores
    rw [hcores, hone, hlookup]

/-! ## Every run -/

/-- What keeps the statistics a flow's own: no session outlives its flow, and no new flow
gets the statistics of an old one. -/
def KeepsStatistics (s : Scheduler) (c : Call) : Prop := KeepsAccounts s c ∧ HandsOutBlank s c

instance (s : Scheduler) (c : Call) : Decidable (KeepsStatistics s c) :=
  inferInstanceAs (Decidable (_ ∧ _))

/-- The counters of every flow count the sessions completed in its name. -/
structure Tallied.Counts (t : Tallied) : Prop where
  guarded : Guarded t.watched
  enabled : t.watched.scheduler.config.enableStatistics = true
  served : ∀ i f, Configured t.watched.scheduler (i, f) →
    readAt Stats.served t.watched.scheduler.cores i f =
      some (u64 (t.completed i f).length, u64 (t.completed i f).sum)

theorem HandsOutBlank.firstStats {k : UInt32} {a : Option Allocation} {out : Bool}
    (h : HandsOutBlank s (.addFlow k a out)) (ht : s.tenants k.toNat = some t) :
    firstStats t.flowScheduler.entries = some {} := by
  rw [Hwfq.firstStats]
  split_ifs with hhead
  · rfl
  · exact h t ht hhead

theorem countOne_tally (work : ℕ) (l : List ℕ) :
    countOne work (u64 l.length, u64 l.sum) = (u64 (work :: l).length, u64 (work :: l).sum) := by
  rw [countOne, List.length_cons, List.sum_cons, u64_u64_add, u64_u64_add, Nat.add_comm 1]

theorem tally_none : (u64 ([] : List ℕ).length, u64 ([] : List ℕ).sum) = (0, 0) := by simp [u64]

theorem Tallied.Counts.step {t : Tallied} (h : t.Counts)
    (hc : KeepsStatistics t.watched.scheduler c) : (t.step c).Counts := by
  have hinv := h.guarded.inv
  refine ⟨h.guarded.step hc.1, (congrArg Config.enableStatistics (hinv.after_config c)).trans
    h.enabled, fun i f hconf => ?_⟩
  dsimp only [Tallied.step, Watched.step] at hconf ⊢
  by_cases hadds : Adds t.watched.scheduler c i f
  · obtain ⟨k, a, out, rfl, rfl, hid⟩ := hadds
    obtain ⟨u, hu, -, hread⟩ := hinv.addFlow_stats k a out hid
    rw [hc.2.firstStats hu] at hread
    rw [tally, if_pos ⟨rfl, hid⟩, tally_none]
    exact readAt_of_id Stats.served hread
  have hbefore := hinv.configured_before hconf hadds
  have hcount := h.served i f hbefore
  cases hchanges : c.changesServed with
  | false => rw [hinv.served_kept hchanges hbefore hconf, tally_kept hchanges hadds, hcount]
  | true =>
    cases c with
    | complete k g work =>
      rw [hinv.complete_served h.guarded.accounts.named h.enabled, hcount, Option.map_some, tally]
      cases inFlightLookup t.watched.scheduler work k.toNat g.toNat with
      | none => rfl
      | some found =>
        have howner : found.addr ∉ t.watched.orphans := by
          rw [h.guarded.none]
          exact Multiset.notMem_zero found.addr
        dsimp only
        by_cases hids : (i, f) = (k.toNat, g.toNat)
        · rw [if_pos hids, if_pos ⟨hids, howner⟩, countOne_tally]
        · rw [if_neg hids, if_neg fun hboth => hids hboth.1]
    | resetStats k g =>
      rw [hinv.reset_served k g hbefore, hcount, tally]
      split_ifs
      · rw [tally_none]
      · rfl
    | _ => cases hchanges

theorem Tallied.Counts.exact {t : Tallied} (h : t.Counts) : StatisticsExact t := by
  intro i f st hst
  obtain ⟨hconf, hread⟩ := h.guarded.inv.getFlowStats.mp hst
  have hcount := h.served i f hconf
  obtain ⟨u, hu, hfind⟩ := hconf
  obtain ⟨e, he⟩ := Option.isSome_iff_exists.mp hfind
  rw [readAt_of_find id hu he] at hread
  rw [readAt_of_find Stats.served hu he] at hcount
  cases hread
  exact Prod.mk.inj (Option.some.inj hcount)

theorem Made.counts (h : Made s) (hon : s.config.enableStatistics = true) {calls : List Call}
    (hkeeps : Along after KeepsStatistics s calls) :
    (run Tallied.step (.start s) calls).Counts := by
  have hstart : (Tallied.start s).Counts := by
    refine ⟨⟨h.inv, h.backlogsFit [], h.accounted, rfl⟩, hon, fun i f hconf => ?_⟩
    obtain ⟨mem, config, hinit⟩ := h
    obtain ⟨t, ht, -⟩ := hconf
    have hnone := congrFun (hwfqInit_success hinit).tenants i
    cases hnone.symm.trans ht
  apply run_invariant (fun t c ht hc => Tallied.Counts.step ht hc) hstart
  exact @along_project _ _ after KeepsStatistics _ Tallied.step (fun t => t.watched.scheduler)
    (fun _ _ => rfl) (.start s) calls hkeeps

theorem Tallied.run_scheduler (t : Tallied) (calls : List Call) :
    (run Tallied.step t calls).watched.scheduler = afterRun t.watched.scheduler calls :=
  @run_project _ _ after _ Tallied.step (fun t => t.watched.scheduler) (fun _ _ => rfl) t calls

/-- A new flow reads zeros exactly where its slot is blank. -/
theorem SchedulerInv.addFlow_blank (h : SchedulerInv s) (i : UInt32) (a : Option Allocation)
    (out : Bool) (hid : (respond s (.addFlow i a out)).id = some f) :
    hwfqGetFlowStats (Hwfq.after s (.addFlow i a out)) i.toNat f = .ok {} ↔
      HandsOutBlank s (.addFlow i a out) := by
  obtain ⟨t, ht, hconf, hread⟩ := h.addFlow_stats i a out hid
  rw [(h.after _).getFlowStats, hread]
  constructor
  · intro hzero t' ht' hhead
    cases ht.symm.trans ht'
    have hfirst := hzero.2
    rw [firstStats, if_neg hhead] at hfirst
    exact hfirst
  · intro hblank
    exact ⟨hconf, hblank.firstStats ht⟩

/-- In a run in which no session outlives its flow and every slot given to a new flow is
blank, the statistics of a flow are its own. A new flow starts from zero exactly where its
slot is blank. -/
theorem flow_statistics_own (s : Scheduler) (h : Made s) (hon : s.config.enableStatistics = true)
    (calls : List Call) (hkeeps : Along after KeepsStatistics s calls) :
    StatisticsExact (run Tallied.step (.start s) calls) ∧
      ∀ i a out f, (respond (afterRun s calls) (.addFlow i a out)).id = some f →
        (hwfqGetFlowStats (after (afterRun s calls) (.addFlow i a out)) i.toNat f = .ok {} ↔
          HandsOutBlank (afterRun s calls) (.addFlow i a out)) := by
  have hcounts := h.counts hon hkeeps
  have hinv : SchedulerInv (afterRun s calls) := by
    have hguarded := hcounts.guarded.inv
    rwa [Tallied.run_scheduler] at hguarded
  exact ⟨hcounts.exact, fun i a out f => hinv.addFlow_blank i a out⟩

def measuredConfig : Config := { smallConfig with enableStatistics := true }

theorem measuredConfig_accepted : (hwfqInit generousAllocator measuredConfig).2.isSome = true := by
  decide +kernel

def measuredScheduler : Scheduler :=
  madeWith generousAllocator measuredConfig measuredConfig_accepted

/-- The statistics of a flow are reset before it is removed and its slot used again. -/
def clearedSlot : List Call :=
  [.addTenant (some (.weight 1)) true, .addFlow 0 (some (.weight 1)) true,
    .enqueue 0 1 (some { userData := 7, workSize := 6 }) 0, .dequeue true 0, .complete 0 1 none,
    .resetStats 0 1, .removeFlow 0 1, .addFlow 0 (some (.weight 1)) true,
    .enqueue 0 1 (some { userData := 8, workSize := 5 }) 0, .dequeue true 0, .complete 0 1 none]

theorem flow_statistics_own_cleared :
    StatisticsExact (run Tallied.step (.start measuredScheduler) clearedSlot) :=
  (flow_statistics_own measuredScheduler (madeWith_made measuredConfig_accepted)
    (by decide +kernel) clearedSlot (by decide +kernel)).1

/-- A flow that completed a session is removed, and a new flow gets its slot. -/
def reusedSlot : List Call :=
  [.addTenant (some (.weight 1)) true, .addFlow 0 (some (.weight 1)) true,
    .enqueue 0 1 (some { userData := 7, workSize := 6 }) 0, .dequeue true 0, .complete 0 1 none,
    .removeFlow 0 1, .addFlow 0 (some (.weight 1)) true]

/-- The new flow has completed nothing and reports one operation. -/
theorem flow_statistics_inherited :
    (hwfqGetFlowStats (afterRun measuredScheduler reusedSlot) 0 1).toOption.map Stats.served =
        some (1, 6) ∧
      (run Tallied.step (.start measuredScheduler) reusedSlot).completed 0 1 = [] ∧
      ¬ StatisticsExact (run Tallied.step (.start measuredScheduler) reusedSlot) := by
  have hreported : (hwfqGetFlowStats (afterRun measuredScheduler reusedSlot) 0 1).toOption.map
      Stats.served = some (1, 6) := by decide +kernel
  have hnone : (run Tallied.step (.start measuredScheduler) reusedSlot).completed 0 1 = [] := by
    decide +kernel
  refine ⟨hreported, hnone, fun hexact => ?_⟩
  cases hget : hwfqGetFlowStats (afterRun measuredScheduler reusedSlot) 0 1 with
  | error status =>
    rw [hget] at hreported
    cases hreported
  | ok st =>
    have hstate := Tallied.run_scheduler (.start measuredScheduler) reusedSlot
    obtain ⟨hops, -⟩ := hexact 0 1 st ((congrArg (hwfqGetFlowStats · 0 1) hstate).trans hget)
    rw [hget] at hreported
    have hone : st.operationsCompleted = 1 := congrArg Prod.fst (Option.some.inj hreported)
    rw [hone, hnone] at hops
    simp [u64] at hops

end Hwfq
