import Hwfq.IdleServer
import Hwfq.TokenTags

/-!
# Schedulers that stay in service

What a caller can see to: the weights of the tenants add up within 32 bits, every session fits
into the capacity, and its finish stays below the sentinel when it is queued. In runs that keep
to this, every tenant with queued sessions has its token, every tenant with a token has a
session, and both queues always have one to choose.
-/
namespace Hwfq
open GuardedRuns

section Group
variable {α : Type*} {gs gs' : GroupScheduler α} {mem : Allocator} {id w : ℕ}

/-- A session of `w` work units of the entry would finish below the sentinel. -/
structure HasRoom (gs : GroupScheduler α) (id w : ℕ) : Prop where
  few : gs.queued.card < uint32Max
  tag : ∀ e ∈ groupSchedulerFindEntry gs id,
    max gs.virtualTime e.lastFinishTime + serviceIntervalOf w (entryRate gs e) < uint64Max

theorem hasRoom_iff : HasRoom gs id w ↔ gs.queued.card < uint32Max ∧
    ∀ e ∈ groupSchedulerFindEntry gs id,
      max gs.virtualTime e.lastFinishTime + serviceIntervalOf w (entryRate gs e) < uint64Max :=
  ⟨fun h => ⟨h.few, h.tag⟩, fun h => ⟨h.1, h.2⟩⟩

instance : Decidable (HasRoom gs id w) := decidable_of_iff' _ hasRoom_iff

/-- A queue with an honest counter and no saturated session. -/
structure Choosable (gs : GroupScheduler α) : Prop where
  unsaturated : Unsaturated gs
  few : gs.queued.card ≤ uint32Max

theorem Choosable.of_queued (h : Choosable gs) (hq : gs'.queued = gs.queued) : Choosable gs' := by
  constructor
  · intro q hin
    exact h.unsaturated q (hq ▸ hin)
  · exact hq ▸ h.few

theorem Choosable.of_empty (h : gs.queued = 0) : Choosable gs := by
  constructor
  · intro q hq
    rw [h] at hq
    exact absurd hq (Multiset.notMem_zero q)
  · rw [h]
    exact Nat.zero_le _

theorem Choosable.enqueue (h : Choosable gs) (hroom : HasRoom gs id w) (mem : Allocator)
    (ud : Option α) (cf : Bool) : Choosable (groupSchedulerEnqueue mem gs id w ud cf).gs := by
  rcases enqueue_cases mem gs id w ud cf with ⟨-, heq, -⟩ | ⟨-, -, -, -, entry, hadm, heq⟩
  · rw [heq]
    exact h
  rw [heq]
  have hqueued := hadm.queued mem.next ud cf
  have htag := hroom.tag entry hadm.found
  have hfew := hroom.few
  have hstart := newSession_startTime gs entry mem.next id w ud cf
  have hfinish := newSession_finishTime gs entry mem.next id w ud cf
  have hinterval : (newSession gs entry mem.next id w ud cf).serviceInterval =
      serviceIntervalOf w (entryRate gs entry) := rfl
  constructor
  · intro q hq
    rw [hqueued] at hq
    rcases Multiset.mem_cons.mp hq with rfl | hq
    · dsimp only
      rw [hfinish]
      split_ifs <;> omega
    · exact h.unsaturated q hq
  · rw [hqueued, Multiset.card_cons]
    omega

theorem Choosable.dequeue (h : Choosable gs) (hcal : CalendarInv gs) :
    Choosable (groupSchedulerDequeue gs).2 := by
  rcases dequeue_cases hcal with ⟨-, heq⟩ | ⟨-, -, heq⟩ | ⟨-, s, hfind, heq⟩
  · rw [heq]
    exact h
  · rw [heq]
    exact h.of_queued rfl
  · have hq := dequeued_queued hcal (findEligible_some hcal hfind).1
    rw [heq]
    constructor
    · intro q hin
      exact h.unsaturated q (hq ▸ Multiset.mem_cons_of_mem hin)
    · have hfew := h.few
      rw [hq, Multiset.card_cons] at hfew
      exact Nat.le_of_succ_le hfew

theorem Choosable.update (h : Choosable gs) (w : ℕ) :
    Choosable (groupSchedulerUpdateVirtualTime gs w) := by
  constructor
  · rw [Unsaturated, updateVirtualTime_queued]
    intro q hq
    obtain ⟨p, hp, rfl⟩ := Multiset.mem_map.mp hq
    have hbelow := h.unsaturated p hp
    simp only [SessionState.rebase, rebaseTime_eq_sub]
    omega
  · rw [updateVirtualTime_queued, Multiset.card_map]
    exact h.few

theorem Choosable.servable (h : Choosable gs) (hsearch : Searchable (⟨mem, gs⟩ : GroupState α))
    (hne : gs.queued ≠ 0) : Servable gs := by
  apply (hsearch.dequeue_isSome_iff_servable h.few).mp
  apply (hsearch.dequeue_isSome_iff h.unsaturated).mpr
  have hcount := hsearch.inv.count
  rw [u32_of_le h.few] at hcount
  rw [hcount]
  exact Multiset.card_pos.mpr hne

/-- Where the weights add up within 32 bits, no rate is zero. -/
theorem EntryLedger.rate_pos (h : EntryLedger gs) (hfit : weightTotal gs ≤ uint32Max)
    {e : EntryConfig} (hfind : groupSchedulerFindEntry gs id = some e) : entryRate gs e ≠ 0 := by
  have hvalid := h.valid id e hfind
  have hcached := h.cached id e hfind
  unfold cachedRate at hcached
  unfold entryRate
  cases halloc : e.allocation with
  | rate r =>
    rw [halloc] at hvalid hcached
    dsimp only at hcached ⊢
    rw [hcached]
    simpa [validateAllocation, ← UInt64.toNat_inj] using hvalid
  | weight w =>
    have hweight := h.weight_pos hfind halloc
    have htotal : gs.totalWeight = weightTotal gs := h.weights.trans (u32_of_le hfit)
    have hpos : gs.totalWeight ≠ 0 := by omega
    unfold calculateEffectiveRate
    rw [halloc]
    dsimp only
    rw [if_neg hpos]
    split_ifs <;> omega
  | other =>
    rw [halloc] at hvalid
    cases hvalid

theorem groupOf_le (gs : GroupScheduler α) (w r : ℕ) : groupOf gs w r ≤ 15 := by
  unfold groupOf calculateGroupIndexFromInterval
  dsimp only
  split_ifs <;> omega

end Group

variable {s s' : Scheduler} {c : Call} {r : Response} {i : ℕ} {t : Tenant}

/-! ## The condition on a call -/

/-- Weights add up, sessions fit, and the session that a dequeue puts back is taken back. -/
def KeepsService (s : Scheduler) (c : Call) : Prop :=
  weightTotal s.systemScheduler ≤ uint32Max ∧
    match c with
    | .enqueue i f work _ => ∀ w ∈ work, w.workSize.toNat ≤ s.totalCapacity ∧
        ∀ t ∈ s.tenants i.toNat, HasRoom t.flowScheduler f.toNat w.workSize.toNat
    | .dequeue true _ => ∀ p ∈ putBackPoint s, takesBack p ∧
        ∀ t ∈ p.1.tenants p.2.1, HasRoom t.flowScheduler p.2.2.flowId p.2.2.workSize
    | _ => True

instance (s : Scheduler) (c : Call) : Decidable (KeepsService s c) :=
  match c with
  | .enqueue i f work _ => inferInstanceAs (Decidable (weightTotal s.systemScheduler ≤ uint32Max ∧
      ∀ w ∈ work, w.workSize.toNat ≤ s.totalCapacity ∧
        ∀ t ∈ s.tenants i.toNat, HasRoom t.flowScheduler f.toNat w.workSize.toNat))
  | .dequeue true _ => inferInstanceAs (Decidable (weightTotal s.systemScheduler ≤ uint32Max ∧
      ∀ p ∈ putBackPoint s, takesBack p ∧
        ∀ t ∈ p.1.tenants p.2.1, HasRoom t.flowScheduler p.2.2.flowId p.2.2.workSize))
  | .dequeue false _ | .addTenant .. | .configureTenant .. | .removeTenant .. | .addFlow ..
  | .removeFlow .. | .reconfigureFlow .. | .complete .. | .cancel .. | .checkTimeouts ..
  | .resetStats .. => inferInstanceAs (Decidable (weightTotal s.systemScheduler ≤ uint32Max ∧ True))

/-- Both levels always have a token and a session to choose. -/
structure InService (s : Scheduler) : Prop where
  serving : Serving s
  near : TagsNear s.systemScheduler
  ledger : EntryLedger s.systemScheduler
  groups : 15 < s.numGroups
  flows : EveryTenant (fun t => Choosable t.flowScheduler) s.cores

/-! ## The flow schedulers -/

/-- Statistics touch neither the tag nor the rate of an entry. -/
theorem Tenant.mapStats_entries (t : Tenant) (flowId : ℕ) (f : Stats → Stats) (id : ℕ) :
    ∃ g : EntryConfig → EntryConfig,
      groupSchedulerFindEntry (t.mapStats flowId f).flowScheduler id =
        (groupSchedulerFindEntry t.flowScheduler id).map g ∧
      ∀ e, (g e).lastFinishTime = e.lastFinishTime ∧
        entryRate (t.mapStats flowId f).flowScheduler (g e) = entryRate t.flowScheduler e := by
  refine ⟨_, mapStats_findEntry t flowId f id, fun e => ?_⟩
  have hrate : ∀ e', e'.allocation = e.allocation → e'.calculatedRate = e.calculatedRate →
      entryRate (t.mapStats flowId f).flowScheduler e' = entryRate t.flowScheduler e := by
    intro e' halloc hcalc
    unfold entryRate calculateEffectiveRate Tenant.mapStats
    dsimp only
    rw [halloc, hcalc]
    by_cases hfind : (findFlowEntry t flowId).isSome = true
    · simp only [if_pos hfind]
      rfl
    · simp only [if_neg hfind]
  split_ifs
  · exact ⟨rfl, hrate _ rfl rfl⟩
  · exact ⟨rfl, hrate _ rfl rfl⟩

theorem HasRoom.mapStats {id w : ℕ} (h : HasRoom t.flowScheduler id w) (flowId : ℕ)
    (f : Stats → Stats) : HasRoom (t.mapStats flowId f).flowScheduler id w := by
  have hview := t.mapStats_queueView flowId f
  have hclock : (t.mapStats flowId f).flowScheduler.virtualTime = t.flowScheduler.virtualTime :=
    congrArg QueueView.virtualTime hview
  constructor
  · rw [queued_of_queueView hview]
    exact h.few
  · intro e he
    obtain ⟨g, hfind, hsame⟩ := t.mapStats_entries flowId f id
    rw [hfind] at he
    obtain ⟨e₀, he₀, rfl⟩ := Option.map_eq_some_iff.mp he
    obtain ⟨hlast, hrate⟩ := hsame e₀
    rw [hclock, hlast, hrate]
    exact h.tag e₀ he₀

theorem Effect.choosable (h : Effect s c r s') (hinv : SchedulerInv s) (hc : KeepsService s c)
    (hs : EveryTenant (fun t => Choosable t.flowScheduler) s.cores) :
    EveryTenant (fun t => Choosable t.flowScheduler) s'.cores := by
  have hat : ∀ {i : ℕ} {t : Tenant}, s.tenants i = some t → Choosable t.flowScheduler :=
    fun {i t} ht => hs i t.core (cores_some ht)
  have hwrite : ∀ {i : ℕ} {u : Tenant} {cores : ℕ → Option Tenant},
      cores = Function.update s.cores i (some u) → Choosable u.flowScheduler →
      EveryTenant (fun t => Choosable t.flowScheduler) cores := by
    intro i u cores hcores hu
    rw [hcores]
    apply hs.update
    intro v hv
    rw [← Option.some.inj hv]
    exact hu
  have hkeep : ∀ (t : Tenant) (f : ℕ) (g : Stats → Stats), Choosable t.flowScheduler →
      Choosable (t.mapStats f g).flowScheduler := fun t f g ht =>
    ht.of_queued (queued_of_queueView (t.mapStats_queueView f g))
  cases h with
  | idle _ _ tokens => exact tokens.cores ▸ hs
  | added admits valid fits blank store fresh =>
    apply hwrite (cores_of_tenants admits.tenants)
    exact .of_empty fresh.queued
  | @reallocated i a t tenant =>
    have hold : Choosable t.flowScheduler := hat tenant
    exact hwrite (setTenant_cores _ _ _) hold
  | removed tenant =>
    rw [cores_of_tenants (s := s) (v := none) rfl]
    exact hs.update fun u hu => by cases hu
  | flows update change =>
    apply hwrite (cores_of_tenants change.tenants)
    have hview := update.queueView (hinv.tenants _ _ change.tenant)
    exact (hat change.tenant).of_queued (queued_of_queueView hview)
  | @accepted i f w now t x mem _ _ tenant _ _ context _ _ changes =>
    apply hwrite changes.cores
    have hroom := ((hc.2 w rfl).2 t tenant).mapStats f.toNat Stats.backlogUp
    rw [context]
    exact (hkeep t f.toNat Stats.backlogUp (hat tenant)).enqueue hroom mem _ true
  | @rejected i f w now t _ _ tenant _ _ _ changes =>
    have hold : Choosable t.flowScheduler := hat tenant
    have hcore : Choosable t.core.flowScheduler := hold
    exact hwrite changes.cores (hkeep _ _ _ (hkeep _ _ _ hcore))
  | @missed _ _ i t flows _ _ tenant dequeued _ _ changes =>
    have hnext := (hat tenant).dequeue (hinv.tenants i t tenant).flows.group.calendar
    rw [dequeued] at hnext
    exact hwrite changes.cores hnext
  | @putBack _ i t q x flows s₁ t₁ _ taken before =>
    have hnext := (hat taken.tenant).dequeue (hinv.tenants i t taken.tenant).flows.group.calendar
    rw [taken.dequeued] at hnext
    have hback : Choosable t₁.flowScheduler := by
      rcases before.flows with heq | heq
      · rw [heq]
        exact hnext
      · rw [heq]
        exact hnext.update x.workSize
    have hroom := (hc.2 _ before.point).2 t₁ before.tenant
    exact hwrite (before.changes_all taken).cores (hback.enqueue hroom _ _ true)
  | @delivered _ i t q x flows t' _ taken delivers =>
    have hnext := (hat taken.tenant).dequeue (hinv.tenants i t taken.tenant).flows.group.calendar
    rw [taken.dequeued] at hnext
    apply hwrite delivers.cores
    rcases delivers.tenant with rfl | ⟨w, rfl⟩
    · exact hnext.update x.workSize
    · exact hkeep _ _ _ (hnext.update x.workSize)
  | completed _ stats ends =>
    rw [ends.cores]
    rcases stats with rfl | rfl
    · exact hs.mapStatsAt hkeep _ _ _
    · exact (hs.mapStatsAt hkeep _ _ _).mapStatsAt hkeep _ _ _
  | cancelled _ ends => exact ends.cores ▸ hs.mapStatsAt hkeep _ _ _
  | timedOut only =>
    have hcores : s'.cores = s.cores := by
      funext j
      rw [Scheduler.cores, only.tenants, Scheduler.cores]
    exact hcores ▸ hs
  | reset reset =>
    intro i u hu
    obtain ⟨t', ht', rfl⟩ := tenants_of_cores hu
    rcases reset.tenants i with ⟨-, hnone⟩ | ⟨t, t'', ht, ht'', hr⟩
    · simp [hnone] at ht'
    · obtain rfl : t'' = t' := by simpa [ht''] using ht'
      have hsame := hat ht
      rw [hr.same]
      exact hsame.of_queued rfl

/-! ## Runs -/

section InService
variable (h : InService s)
include h

theorem InService.registrable (hfit : weightTotal s.systemScheduler ≤ uint32Max)
    (ht : s.tenants i = some t) : Registrable s i := by
  have hface : s.faces i = some t.face := by rw [Scheduler.faces, ht, Option.map_some]
  have hact : (activeEntry s.systemScheduler i).isSome = true := by
    rw [h.serving.kept.inv.system.active, hface]
    rfl
  rw [activeEntry_eq, Option.isSome_map] at hact
  obtain ⟨e, he⟩ := Option.isSome_iff_exists.mp hact
  have hgroup := groupOf_le s.systemScheduler tenantQuantumSize (entryRate s.systemScheduler e)
  refine ⟨entryRate s.systemScheduler e, ?_, h.ledger.rate_pos hfit he, hgroup.trans_lt h.groups⟩
  rw [rateOf, he, Option.map_some, Option.mem_def]

/-- What the caller sees to is enough. -/
theorem InService.servesIdle (hc : KeepsService s c) : ServesIdle s c := by
  have hkept := h.serving.kept
  cases c with
  | enqueue i f work now =>
    constructor
    · intro t ht
      exact .inr (h.registrable hc.1 ht)
    · intro w hw
      exact (hc.2 w hw).1
  | dequeue out now =>
    cases out with
    | false => exact ⟨trivial, trivial⟩
    | true =>
      refine ⟨?_, ?_, fun p hp => (hc.2 p hp).1⟩
      · intro t ht
        obtain ⟨token, -, hat⟩ := Option.bind_eq_some_iff.mp ht
        obtain ⟨htenant, -⟩ := Option.filter_eq_some_iff.mp hat
        have hchoose := h.flows _ t.core (cores_some htenant)
        have hflows := (hkept.inv.tenants _ t htenant).flows
        have hslot := (hkept.inv.tenants _ t htenant).slot
        refine ⟨hchoose.few, ?_, fun _ => hslot ▸ h.registrable hc.1 htenant⟩
        exact hchoose.servable (hflows.searchable (hkept.flows_numBins htenant))
      · intro hne
        have hsearch := hkept.inv.tokens_searchable hkept.numBins
        apply (hsearch.dequeue_isSome_iff_servable hkept.inv.card_tokens).mp
        exact (hkept.inv.token_found hkept.numBins h.near).mpr hne
  | _ => exact ⟨trivial, trivial⟩

theorem InService.step (hc : KeepsService s c) : InService (after s c) := by
  have hinv := h.serving.kept.inv
  have hgroups : (after s c).numGroups = s.numGroups := by
    rw [Scheduler.numGroups, hinv.after_config c, Scheduler.numGroups]
  constructor
  · exact h.serving.step (h.servesIdle hc)
  · exact hinv.tagsNear h.serving.kept.numBins h.near c
  · exact hinv.systemLedger h.ledger c
  · exact hgroups ▸ h.groups
  · exact (hinv.effect c).choosable hinv hc h.flows

end InService

theorem NewScheduler.queuedSessions (h : NewScheduler s) : s.queuedSessions = 0 := by
  rw [Scheduler.queuedSessions]
  apply Finset.sum_eq_zero
  intro i _
  exact queue_none (congrFun h.tenants i)

theorem NewScheduler.totalCapacity_pos (h : NewScheduler s) : 0 < s.totalCapacity := by
  have hvalid := h.valid
  have hcapacity : s.config.totalCapacity ≠ 0 := by
    intro hzero
    simp [Config.valid, hzero] at hvalid
  apply Nat.pos_of_ne_zero
  intro hzero
  exact hcapacity (UInt64.toNat_inj.mp hzero)

theorem Made.inService (h : Made s) (hmem : s.mem.AlwaysOk) (hgroups : 15 < s.numGroups)
    (hreached : Reached s) : InService s := by
  have hledger := h.ledgers.1
  obtain ⟨mem, config, hinit⟩ := h
  have hnew := hwfqInit_success hinit
  obtain ⟨mem₀, -, hfresh⟩ := hnew.system
  have hnone : ∀ i, s.tenants i = none := fun i => congrFun hnew.tenants i
  constructor
  · constructor
    · exact hnew.tokensKept hmem hreached
    · intro x hx
      rw [hnew.queuedSessions] at hx
      exact absurd hx (Multiset.notMem_zero x)
    · rintro i ⟨t, ht, -⟩
      rw [hnone i] at ht
      cases ht
  · exact hfresh.unloaded.tagsNear
  · exact hledger
  · exact hgroups
  · intro i t ht
    obtain ⟨u, hu, -⟩ := tenants_of_cores ht
    rw [hnone i] at hu
    cases hu

theorem Made.run_inService (h : Made s) (hmem : s.mem.AlwaysOk) (hgroups : 15 < s.numGroups)
    (hreached : Reached s) {calls : List Call} (hcalls : Along after KeepsService s calls) :
    InService (Hwfq.afterRun s calls) :=
  run_invariant (fun _ _ hs hc => hs.step hc) (h.inService hmem hgroups hreached) hcalls

end Hwfq
