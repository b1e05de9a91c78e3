import Hwfq.BoundedDelay
import Hwfq.FlowEffects
import Hwfq.SteadyService

/-!
# How long a session waits inside its tenant

The flow scheduler of a tenant is charged for the sessions of the tenant that are delivered,
whichever tenants they compete with. Where its flows keep to their shares, a session waits
while its tenant is charged for no more than what its flow was ahead by, its own service
interval and one largest session. Sessions that other calls put back in between take part
again as new arrivals.
-/
namespace Hwfq
open GuardedRuns IdealQueue

variable {S : Shares ℕ} {most off cap due i : ℕ} {mem mem' : Allocator}
  {gs gs' flows : GroupScheduler FlowSessionContext}
  {ideal ideal' ideal'' : IdealQueue.State ℕ (SessionState FlowSessionContext)}

/-! ## The calls of a flow scheduler -/

/-- A session of this size is within the share of its flow, and its finish is in range. -/
def FitsShare (S : Shares ℕ) (most : ℕ) (gs : GroupScheduler FlowSessionContext) (f w : ℕ) : Prop :=
  (∀ entry ∈ groupSchedulerFindEntry gs f,
    max gs.virtualTime entry.lastFinishTime + serviceIntervalOf w (entryRate gs entry) < uint64Max ∧
      Priced S most f (serviceIntervalOf w (entryRate gs entry)) (virtualTimeDelta gs w)) ∧
  gs.queued.card < uint32Max

/-- The ideal clock moves by `charge` or more, and what waits stays unless it is in `gone`. -/
structure Passes (ideal ideal' : IdealQueue.State ℕ (SessionState FlowSessionContext)) (charge : ℕ)
    (gone : List FlowSessionContext) : Prop where
  clock : ideal.clock + charge ≤ ideal'.clock
  kept : ∀ p ∈ ideal.queue, (∀ x ∈ gone, p.item.userData ≠ some x) → p ∈ ideal'.queue

theorem Passes.refl (ideal : IdealQueue.State ℕ (SessionState FlowSessionContext)) :
    Passes ideal ideal 0 [] :=
  ⟨le_rfl, fun _ hp _ => hp⟩

theorem Passes.trans {charge charge' : ℕ} {gone gone' : List FlowSessionContext}
    (h : Passes ideal ideal' charge gone) (h' : Passes ideal' ideal'' charge' gone') :
    Passes ideal ideal'' (charge + charge') (gone ++ gone') := by
  constructor
  · have hfirst := h.clock
    have hrest := h'.clock
    omega
  · intro p hp hgone
    apply h'.kept p
    · apply h.kept p hp
      intro x hx
      exact hgone x (List.mem_append_left gone' hx)
    · intro x hx
      exact hgone x (List.mem_append_right gone hx)

/-- The state of a flow scheduler on schedule. -/
abbrev FlowOnSchedule (S : Shares ℕ) (most off cap due : ℕ) (mem : Allocator)
    (gs : GroupScheduler FlowSessionContext)
    (ideal : IdealQueue.State ℕ (SessionState FlowSessionContext)) : Prop :=
  OnSchedule S most off cap ⟨⟨mem, gs⟩, due⟩ ideal

theorem Retagged.clock {set drop : Option ℕ} (h : Retagged set drop gs gs') :
    gs'.virtualTime = gs.virtualTime :=
  congrArg QueueView.virtualTime h.view

theorem Retagged.delta {set drop : Option ℕ} (h : Retagged set drop gs gs') (w : ℕ) :
    virtualTimeDelta gs' w = virtualTimeDelta gs w := by
  rw [virtualTimeDelta_charged, h.capacity, ← virtualTimeDelta_charged]

/-- A flow that accepts a session has an identifier of 32 bits. -/
theorem FlowsInv.flow_toNat (h : FlowsInv mem i gs) {f w : ℕ} {ud : Option FlowSessionContext}
    {cf : Bool} (hok : (groupSchedulerEnqueue mem' gs f w ud cf).status = .success) :
    (UInt32.ofNat f).toNat = f := by
  obtain ⟨live, hpool⟩ := h.pooled
  rcases enqueue_cases mem' gs f w ud cf with ⟨hbad, -⟩ | ⟨-, -, -, -, entry, hadm, -⟩
  · exact absurd hok hbad
  have hactive : (activeEntry gs f).isSome = true := by
    rw [activeEntry_of_find hadm.found]
    rfl
  have hlt := hpool.pool.live_lt f (hpool.pool.mem_of_active hactive)
  have hchunks := hpool.pool.chunks
  have hsmall := entryNone_gt
  apply UInt32.toNat_ofNat_of_lt'
  unfold entryNone uint32Max at hsmall
  have hsize : UInt32.size = 2 ^ 32 := rfl
  omega

section Calls
variable (h : FlowOnSchedule S most off cap due mem gs ideal)
include h

/-- Other calls may have used memory. -/
theorem FlowOnSchedule.withMem
    (hsearch : Searchable (⟨mem', gs⟩ : GroupState FlowSessionContext)) :
    FlowOnSchedule S most off cap due mem' gs ideal :=
  ⟨hsearch, ⟨h.implements.capacity, h.implements.clock, h.implements.queue, h.implements.tags,
    h.implements.few⟩, h.punctual, h.due, h.settled⟩

/-- A call on the flow scheduler, with the sessions that it returns. -/
theorem FlowOnSchedule.call (hmost : most < 2 ^ 62) {c : GroupCall FlowSessionContext}
    (hc : ServesShares S most ⟨⟨mem, gs⟩, due⟩ c) (gone : List FlowSessionContext)
    (hgone : ∀ q, (⟨mem, gs⟩ : GroupState FlowSessionContext).returned c = some q →
      ∃ x ∈ gone, q.userData = some x) :
    ∃ off' ideal', OnSchedule S most off' cap (Metered.step ⟨⟨mem, gs⟩, due⟩ c) ideal' ∧
      Passes ideal ideal' (c.charge cap) gone := by
  obtain ⟨off', ideal', hrun, hnext⟩ := h.step hmost hc
  refine ⟨off', ideal', hnext, h.charged hrun, fun p hp hother => hrun.kept hp fun e he heq => ?_⟩
  rw [Option.mem_toList, heq] at he
  cases c with
  | dequeue =>
    obtain ⟨q, hq, hitem⟩ := Option.map_eq_some_iff.mp he
    obtain ⟨x, hx, hdata⟩ := hgone q hq
    apply hother x hx
    have hsame : q.untimed = p.item := Event.take.inj hitem
    rw [← hsame]
    exact hdata
  | configureEntry id a =>
    dsimp only [GroupState.event] at he
    split_ifs at he
    cases he
  | enqueue id w ud cf =>
    dsimp only [GroupState.event] at he
    split_ifs at he
    obtain ⟨entry, -, hbad⟩ := Option.map_eq_some_iff.mp he
    cases hbad
  | removeEntry id => cases he
  | updateVirtualTime w => cases he

theorem FlowOnSchedule.retagged {set drop : Option ℕ} (hr : Retagged set drop gs gs')
    (hsearch : Searchable (⟨mem', gs'⟩ : GroupState FlowSessionContext))
    (hset : ∀ f ∈ set, Settled gs f) (hdrop : ∀ f ∈ drop, Settled gs f) :
    ∃ ideal', FlowOnSchedule S most off cap due mem' gs' ideal' ∧ Passes ideal ideal' 0 [] := by
  have hzero : ∀ f ∈ set, ideal.last f ≤ ideal.clock := fun f hf => h.last_le (hset f hf)
  let last : ℕ → ℕ := fun f => if set = some f then 0 else ideal.last f
  have hlast : ∀ f, last f ≤ ideal.last f := by
    intro f
    dsimp only [last]
    split_ifs
    · exact Nat.zero_le _
    · exact le_rfl
  refine ⟨{ ideal with last := last }, ⟨hsearch, ?_, ?_, h.due, ?_⟩, le_rfl, fun p hp _ => hp⟩
  · apply h.implements.of_queueView hr.view hr.capacity
    intro f e he
    have htag := hr.tags f
    rw [finishTag, he, Option.map_some] at htag
    dsimp only [last]
    split_ifs at htag ⊢ with hf
    · rw [Nat.zero_sub]
      exact Option.some.inj htag
    · obtain ⟨e₀, he₀, hsame⟩ := Option.map_eq_some_iff.mp htag.symm
      rw [← hsame]
      exact h.implements.tags f e₀ he₀
  · cases set with
    | none => exact h.punctual
    | some g =>
      have hstep : Step ideal (.clear g) { ideal with last := Function.update ideal.last g 0 } :=
        .clear
      have hnext := h.punctual.step hstep (hzero g rfl)
      have hsame : last = Function.update ideal.last g 0 := by
        funext f
        dsimp only [last]
        rw [Function.update_apply]
        exact if_congr ⟨fun heq => (Option.some.inj heq).symm, fun heq => congrArg some heq.symm⟩
          rfl rfl
      rw [hsame]
      exact hnext
  · intro f hf
    have htag := hr.tags f
    rw [finishTag, hf, Option.map_none] at htag
    refine (hlast f).trans ?_
    split_ifs at htag with hset' hdrop'
    · exact h.last_le (hdrop f hdrop')
    · exact h.settled f (Option.map_eq_none_iff.mp htag.symm)

theorem FlowOnSchedule.undisturbed (hsame : Undisturbed gs gs')
    (hsearch : Searchable (⟨mem', gs'⟩ : GroupState FlowSessionContext)) :
    ∃ ideal', FlowOnSchedule S most off cap due mem' gs' ideal' ∧ Passes ideal ideal' 0 [] := by
  apply h.retagged hsame hsearch
  · intro f hf
    cases hf
  · intro f hf
    cases hf

theorem FlowOnSchedule.taken (hmost : most < 2 ^ 62) {q : SessionState FlowSessionContext}
    {x : FlowSessionContext} (hcar : Carries i q x)
    (htake : groupSchedulerDequeue gs = (some q, flows)) :
    ∃ off' ideal', FlowOnSchedule S most off' cap (advanceAt cap (chargedWork x.workSize)) mem flows
      ideal' ∧ Passes ideal ideal' 0 [x] := by
  have hret : (⟨mem, gs⟩ : GroupState FlowSessionContext).returned .dequeue = some q :=
    congrArg Prod.fst htake
  have hcall := h.call hmost (c := .dequeue) trivial [x] fun q' hq' => by
    rw [hret] at hq'
    exact ⟨x, List.mem_singleton_self x, Option.some.inj hq' ▸ hcar.data⟩
  have hstate : (⟨mem, gs⟩ : GroupState FlowSessionContext).step .dequeue = ⟨mem, flows⟩ := by
    rw [GroupState.step, htake]
  have hmeter : Metered.step ⟨⟨mem, gs⟩, due⟩ (.dequeue : GroupCall FlowSessionContext) =
      ⟨⟨mem, flows⟩, advanceAt cap (chargedWork x.workSize)⟩ := by
    rw [Metered.step, hret, hstate, hcar.size]
    dsimp only
    rw [virtualTimeDelta_charged, h.implements.capacity]
  rw [hmeter] at hcall
  exact hcall

theorem FlowOnSchedule.missed (hmost : most < 2 ^ 62)
    (hmiss : groupSchedulerDequeue gs = (none, flows)) :
    ∃ off' ideal', FlowOnSchedule S most off' cap due mem flows ideal' ∧
      Passes ideal ideal' 0 [] := by
  have hret : (⟨mem, gs⟩ : GroupState FlowSessionContext).returned .dequeue = none :=
    congrArg Prod.fst hmiss
  have hcall := h.call hmost (c := .dequeue) trivial [] fun q' hq' => by
    rw [hret] at hq'
    cases hq'
  have hstate : (⟨mem, gs⟩ : GroupState FlowSessionContext).step .dequeue = ⟨mem, flows⟩ := by
    rw [GroupState.step, hmiss]
  have hmeter : Metered.step ⟨⟨mem, gs⟩, due⟩ (.dequeue : GroupCall FlowSessionContext) =
      ⟨⟨mem, flows⟩, due⟩ := by
    rw [Metered.step, hret, hstate]
  rw [hmeter] at hcall
  exact hcall

theorem FlowOnSchedule.charged (hmost : most < 2 ^ 62) {w : ℕ} (hw : w ≤ uint64Max)
    (hdue : due = advanceAt cap (chargedWork w))
    (hroom : gs.virtualTime + virtualTimeDelta gs w ≤ uint64Max) :
    ∃ off' ideal', FlowOnSchedule S most off' cap 0 mem (groupSchedulerUpdateVirtualTime gs w)
      ideal' ∧ Passes ideal ideal' due [] := by
  have hsize : (UInt64.ofNat w).toNat = w := by
    apply UInt64.toNat_ofNat_of_lt'
    unfold uint64Max at hw
    exact Nat.lt_of_le_of_lt hw (by decide)
  have hdelta : virtualTimeDelta gs w = due := by
    rw [virtualTimeDelta_charged, h.implements.capacity, hdue]
  have hserves : ServesShares S most ⟨⟨mem, gs⟩, due⟩ (.updateVirtualTime (UInt64.ofNat w)) := by
    rw [ServesShares, hsize]
    exact ⟨hdelta.le, hroom⟩
  have hcall := h.call hmost hserves [] fun q hq => by cases hq
  have hmeter : Metered.step ⟨⟨mem, gs⟩, due⟩ (.updateVirtualTime (UInt64.ofNat w)) =
      ⟨⟨mem, groupSchedulerUpdateVirtualTime gs w⟩, 0⟩ := by
    rw [Metered.step, GroupState.step, hsize, hdelta, Nat.sub_self]
  rw [hmeter, GroupCall.charge, hsize, ← hdue] at hcall
  exact hcall

theorem FlowOnSchedule.offered (hmost : most < 2 ^ 62) (hinv : FlowsInv mem i gs)
    {x : FlowSessionContext} (htenant : x.tenantId = i)
    (hfits : 0 < x.workSize ∧ x.workSize ≤ uint64Max)
    (hshare : FitsShare S most gs x.flowId x.workSize) :
    let r := groupSchedulerEnqueue mem gs x.flowId x.workSize (some x) true
    ∃ off' ideal', FlowOnSchedule S most off' cap due r.mem r.gs ideal' ∧
      Passes ideal ideal' 0 [] := by
  intro r
  have hnext := (hinv.enqueue htenant rfl rfl hfits).1
  have hsize : (UInt64.ofNat x.workSize).toNat = x.workSize := by
    apply UInt64.toNat_ofNat_of_lt'
    have hle := hfits.2
    unfold uint64Max at hle
    exact Nat.lt_of_le_of_lt hle (by decide)
  by_cases hok : r.status = .success
  · have hflow := hinv.flow_toNat hok
    have hserves : ServesShares S most ⟨⟨mem, gs⟩, due⟩
        (.enqueue (UInt32.ofNat x.flowId) (UInt64.ofNat x.workSize) (some x) true) := by
      rw [ServesShares, hflow, hsize]
      exact hshare
    have hcall := h.call hmost hserves [] fun q hq => by cases hq
    have hmeter : Metered.step ⟨⟨mem, gs⟩, due⟩
        (.enqueue (UInt32.ofNat x.flowId) (UInt64.ofNat x.workSize) (some x) true) =
        ⟨⟨r.mem, r.gs⟩, due⟩ := by
      simp only [Metered.step, GroupState.step, hflow, hsize]
      rfl
    rw [hmeter] at hcall
    exact hcall
  · have hsame : r.gs = gs := by
      rcases enqueue_cases mem gs x.flowId x.workSize (some x) true with ⟨-, hsame, -⟩ | ⟨hgood, -⟩
      · exact hsame
      · exact absurd hgood hok
    have hsearch := hnext.searchable
      ((congrArg GroupScheduler.numBins hsame).trans_le h.searchable.bins)
    rw [hsame] at hsearch ⊢
    exact ⟨off, ideal, h.withMem hsearch, .refl ideal⟩

end Calls

/-! ## One public call -/

variable {s : Scheduler} {c : Call} {t : Tenant}

instance {α : Type*} (gs : GroupScheduler α) (id : ℕ) : Decidable (Settled gs id) :=
  inferInstanceAs (Decidable (∀ entry ∈ groupSchedulerFindEntry gs id,
    entry.lastFinishTime ≤ gs.virtualTime))

instance (S : Shares ℕ) (most : ℕ) (gs : GroupScheduler FlowSessionContext) (f w : ℕ) :
    Decidable (FitsShare S most gs f w) :=
  inferInstanceAs (Decidable ((∀ entry ∈ groupSchedulerFindEntry gs f,
    max gs.virtualTime entry.lastFinishTime + serviceIntervalOf w (entryRate gs entry) < uint64Max ∧
      Priced S most f (serviceIntervalOf w (entryRate gs entry)) (virtualTimeDelta gs w)) ∧
    gs.queued.card < uint32Max))

/-- The sessions of tenant `i` are within the shares of their flows and its clock stays in range;
its flows are configured and removed when they are not ahead, the tenant itself when nothing is
queued for it. -/
def ServesFlows (S : Shares ℕ) (most i : ℕ) (s : Scheduler) (c : Call) : Prop :=
  ∀ t ∈ s.tenants i,
    (∀ f ∈ configuredFlow s i c, Settled t.flowScheduler f) ∧
    (∀ f ∈ retiredFlow s i c, Settled t.flowScheduler f) ∧
    match c with
    | .enqueue j f work _ => j.toNat = i →
        ∀ w ∈ work, FitsShare S most t.flowScheduler f.toNat w.workSize.toNat
    | .dequeue true _ => ∀ x ∈ chosen s, x.tenantId = i →
        let flows := (groupSchedulerDequeue t.flowScheduler).2
        flows.virtualTime + virtualTimeDelta flows x.workSize ≤ uint64Max ∧
          ∀ p ∈ putBackPoint s, ∀ u ∈ p.1.tenants i,
            FitsShare S most u.flowScheduler x.flowId x.workSize
    | .removeTenant j => j.toNat = i → (respond s (.removeTenant j)).status = .success →
        t.flowScheduler.queued = 0
    | _ => True

instance (S : Shares ℕ) (most i : ℕ) (s : Scheduler) (c : Call) :
    Decidable (ServesFlows S most i s c) :=
  match c with
  | .enqueue j f work now => inferInstanceAs (Decidable (∀ t ∈ s.tenants i,
      (∀ g ∈ configuredFlow s i (.enqueue j f work now), Settled t.flowScheduler g) ∧
      (∀ g ∈ retiredFlow s i (.enqueue j f work now), Settled t.flowScheduler g) ∧
      (j.toNat = i → ∀ w ∈ work, FitsShare S most t.flowScheduler f.toNat w.workSize.toNat)))
  | .dequeue true now => inferInstanceAs (Decidable (∀ t ∈ s.tenants i,
      (∀ g ∈ configuredFlow s i (.dequeue true now), Settled t.flowScheduler g) ∧
      (∀ g ∈ retiredFlow s i (.dequeue true now), Settled t.flowScheduler g) ∧
      ∀ x ∈ chosen s, x.tenantId = i →
        let flows := (groupSchedulerDequeue t.flowScheduler).2
        flows.virtualTime + virtualTimeDelta flows x.workSize ≤ uint64Max ∧
          ∀ p ∈ putBackPoint s, ∀ u ∈ p.1.tenants i,
            FitsShare S most u.flowScheduler x.flowId x.workSize))
  | .removeTenant j => inferInstanceAs (Decidable (∀ t ∈ s.tenants i,
      (∀ g ∈ configuredFlow s i (.removeTenant j), Settled t.flowScheduler g) ∧
      (∀ g ∈ retiredFlow s i (.removeTenant j), Settled t.flowScheduler g) ∧
      (j.toNat = i → (respond s (.removeTenant j)).status = .success →
        t.flowScheduler.queued = 0)))
  | .addFlow j a out => inferInstanceAs (Decidable (∀ t ∈ s.tenants i,
      (∀ g ∈ configuredFlow s i (.addFlow j a out), Settled t.flowScheduler g) ∧
      (∀ g ∈ retiredFlow s i (.addFlow j a out), Settled t.flowScheduler g) ∧ True))
  | .reconfigureFlow j f a => inferInstanceAs (Decidable (∀ t ∈ s.tenants i,
      (∀ g ∈ configuredFlow s i (.reconfigureFlow j f a), Settled t.flowScheduler g) ∧
      (∀ g ∈ retiredFlow s i (.reconfigureFlow j f a), Settled t.flowScheduler g) ∧ True))
  | .removeFlow j f => inferInstanceAs (Decidable (∀ t ∈ s.tenants i,
      (∀ g ∈ configuredFlow s i (.removeFlow j f), Settled t.flowScheduler g) ∧
      (∀ g ∈ retiredFlow s i (.removeFlow j f), Settled t.flowScheduler g) ∧ True))
  | .dequeue false _ | .addTenant .. | .configureTenant .. | .complete .. | .cancel ..
  | .checkTimeouts .. | .resetStats .. => inferInstanceAs (Decidable (∀ t ∈ s.tenants i,
      (∀ g ∈ (none : Option ℕ), Settled t.flowScheduler g) ∧
      (∀ g ∈ (none : Option ℕ), Settled t.flowScheduler g) ∧ True))

/-- What the clock of the flow scheduler of tenant `i` is charged for by a call. -/
def flowCharge (i : ℕ) (s : Scheduler) (c : Call) : ℕ :=
  match s.tenants i with
  | none => 0
  | some t =>
      if (putBackPoint s).isSome then 0
      else ((leaves i s c).map fun x => virtualTimeDelta t.flowScheduler x.workSize).sum

theorem flowCharge_of_nil (hleft : leaves i s c = []) : flowCharge i s c = 0 := by
  unfold flowCharge
  rw [hleft]
  split
  · rfl
  · exact ite_self 0

/-- Statistics leave a session within its share. -/
theorem FitsShare.mapStats {f w : ℕ} (h : FitsShare S most t.flowScheduler f w) (flowId : ℕ)
    (stats : Stats → Stats) : FitsShare S most (t.mapStats flowId stats).flowScheduler f w := by
  have hsame := t.mapStats_undisturbed flowId stats
  constructor
  · intro e he
    obtain ⟨g, hfind, hentry⟩ := t.mapStats_entries flowId stats f
    rw [hfind] at he
    obtain ⟨e₀, he₀, rfl⟩ := Option.map_eq_some_iff.mp he
    obtain ⟨hlast, hrate⟩ := hentry e₀
    rw [hsame.clock, hlast, hrate, hsame.delta]
    exact h.1 e₀ he₀
  · rw [queued_of_queueView hsame.view]
    exact h.2

/-- Statistics leave a flow scheduler on schedule. -/
theorem FlowOnSchedule.mapStats (h : FlowOnSchedule S most off cap due s.mem t.flowScheduler ideal)
    (hinv : TenantInv s.mem i t) (hmem : s.mem.next ≤ mem.next) (flowId : ℕ)
    (stats : Stats → Stats) :
    ∃ ideal', FlowOnSchedule S most off cap due mem (t.mapStats flowId stats).flowScheduler ideal' ∧
      Passes ideal ideal' 0 [] := by
  have hsame := t.mapStats_undisturbed flowId stats
  apply h.undisturbed hsame
  apply ((hinv.mapStats flowId stats).flows.weaken hmem).searchable
  exact (congrArg (·.geometry.numBins) hsame.view).trans_le h.searchable.bins

/-- What the condition says of a dequeue that takes a session of the tenant. -/
theorem ServesFlows.asked (h : ServesFlows S most i s c) (hask : c.asksSession = true)
    {q : SessionState FlowSessionContext} {x : FlowSessionContext}
    (htaken : Taken s i t q x flows) :
    flows.virtualTime + virtualTimeDelta flows x.workSize ≤ uint64Max ∧
      ∀ p ∈ putBackPoint s, ∀ u ∈ p.1.tenants i,
        FitsShare S most u.flowScheduler x.flowId x.workSize := by
  cases c with
  | dequeue out now =>
    cases out with
    | true =>
      have hcall := (h t htaken.tenant).2.2 x htaken.chosen htaken.carries.tenant
      rw [htaken.dequeued] at hcall
      exact hcall
    | false => cases hask
  | _ => cases hask

/-- The flow scheduler of a tenant whose token is registered. -/
theorem SchedulerInv.registered_flows (h : SchedulerInv s) (ht : s.tenants i = some t) :
    FlowsInv (registerTenantBacklog s i).2.mem i t.flowScheduler := by
  obtain ⟨hreg, htok⟩ := h.register i
  obtain ⟨u, hu, hcore⟩ := tenants_of_cores ((congrFun htok.cores i).trans (cores_some ht))
  have hflows : u.core.flowScheduler = t.core.flowScheduler := congrArg Tenant.flowScheduler hcore
  change u.flowScheduler = t.flowScheduler at hflows
  exact hflows ▸ (hreg.tenants i u hu).flows

/-- What a call makes of the flow scheduler of a tenant and of its ideal queue. -/
theorem FlowEffect.onSchedule (heff : FlowEffect s c i t gs') (hinv : SchedulerInv s)
    (ht : s.tenants i = some t) (hmost : most < 2 ^ 62)
    (hserves : ServesFlows S most i s c)
    (hsearch : Searchable (⟨mem', gs'⟩ : GroupState FlowSessionContext))
    (h : FlowOnSchedule S most off t.flowScheduler.totalCapacity due s.mem t.flowScheduler ideal) :
    ∃ off' due' ideal',
      FlowOnSchedule S most off' t.flowScheduler.totalCapacity due' mem' gs' ideal' ∧
      Passes ideal ideal' (flowCharge i s c) (leaves i s c) := by
  have htenant := hinv.tenants i t ht
  obtain ⟨hset, hdrop, hcall⟩ := hserves t ht
  cases heff with
  | edited retagged left entered =>
    obtain ⟨ideal', hnext, hpass⟩ := h.retagged retagged hsearch hset hdrop
    rw [flowCharge_of_nil left, left]
    exact ⟨off, due, ideal', hnext, hpass⟩
  | @accepted j f w now mem x call tenant context memory fits success result left entered =>
    subst call
    have hflows := (htenant.mapStats x.flowId Stats.backlogUp).flows.weaken memory
    obtain ⟨ideal₁, h₁, hpass₁⟩ := h.mapStats htenant memory x.flowId Stats.backlogUp
    have hshare : FitsShare S most t.flowScheduler x.flowId x.workSize := by
      rw [context]
      exact hcall tenant w rfl
    have hname : x.tenantId = i := by rw [context]; rfl
    obtain ⟨off', ideal', hnext, hpass⟩ :=
      h₁.offered hmost hflows hname fits (hshare.mapStats x.flowId Stats.backlogUp)
    rw [flowCharge_of_nil left, left]
    refine ⟨off', due, ideal', ?_, hpass₁.trans hpass⟩
    rw [offerResult] at result
    exact result ▸ hnext.withMem (result ▸ hsearch)
  | missed _ dequeued left entered =>
    obtain ⟨off', ideal', hnext, hpass⟩ := h.missed hmost dequeued
    rw [flowCharge_of_nil left, left]
    exact ⟨off', due, ideal', hnext.withMem hsearch, hpass⟩
  | @putBack q x flows s₁ t₁ asked taken before result left entered =>
    obtain ⟨hroom, hshare⟩ := hserves.asked asked taken
    obtain ⟨off₁, ideal₁, h₁, hpass₁⟩ := h.taken hmost taken.carries taken.dequeued
    have hzero : flowCharge i s c = 0 := by
      simp [flowCharge, ht, before.point]
    have hback := before.inv.registered_flows before.tenant
    -- The clock may have been charged before the session is put back.
    have hcharged : ∃ off₂ due₂ ideal₂, FlowOnSchedule S most off₂ t.flowScheduler.totalCapacity due₂
        (registerTenantBacklog s₁ i).2.mem t₁.flowScheduler ideal₂ ∧ Passes ideal₁ ideal₂ 0 [] := by
      rcases before.flows with heq | heq
      · rw [heq] at hback ⊢
        exact ⟨off₁, _, ideal₁, h₁.withMem (hback.searchable h₁.searchable.bins), .refl ideal₁⟩
      · obtain ⟨off₂, ideal₂, h₂, hpass₂⟩ := h₁.charged hmost taken.carries.fits.2 rfl hroom
        rw [heq] at hback ⊢
        refine ⟨off₂, 0, ideal₂, h₂.withMem (hback.searchable h₂.searchable.bins), ?_, hpass₂.kept⟩
        exact (Nat.le_add_right _ _).trans hpass₂.clock
    obtain ⟨off₂, due₂, ideal₂, h₂, hpass₂⟩ := hcharged
    obtain ⟨off', ideal', hnext, hpass⟩ := h₂.offered hmost hback taken.carries.tenant
      taken.carries.fits (hshare _ before.point t₁ before.tenant)
    rw [hzero, left]
    refine ⟨off', due₂, ideal', ?_, (hpass₁.trans hpass₂).trans hpass⟩
    rw [putBackResult] at result
    exact result ▸ hnext.withMem (result ▸ hsearch)
  | @delivered q x flows asked point taken same left entered =>
    obtain ⟨hroom, -⟩ := hserves.asked asked taken
    obtain ⟨off₁, ideal₁, h₁, hpass₁⟩ := h.taken hmost taken.carries taken.dequeued
    obtain ⟨off₂, ideal₂, h₂, hpass₂⟩ := h₁.charged hmost taken.carries.fits.2 rfl hroom
    obtain ⟨ideal', hnext, hpass⟩ := h₂.undisturbed same hsearch
    have hcharge : flowCharge i s c =
        advanceAt t.flowScheduler.totalCapacity (chargedWork x.workSize) := by
      simp [flowCharge, ht, point, left, virtualTimeDelta_charged]
    have hpasses := (hpass₁.trans hpass₂).trans hpass
    rw [hcharge, left]
    exact ⟨off₂, 0, ideal', hnext, by simpa using hpasses⟩

/-! ## Runs -/

/-- The flow scheduler of tenant `i` follows an ideal queue. -/
structure FlowTimed (S : Shares ℕ) (most i : ℕ) (s : Scheduler)
    (ideal : IdealQueue.State ℕ (SessionState FlowSessionContext)) : Prop where
  inv : SchedulerInv s
  grid : OnGrid s s.cores
  bins : s.grid.numBins ≤ 32768
  absent : s.tenants i = none → ideal.queue = 0
  timed : ∀ t, s.tenants i = some t → ∃ off due,
    FlowOnSchedule S most off t.flowScheduler.totalCapacity due s.mem t.flowScheduler ideal

section Timed
variable (h : FlowTimed S most i s ideal)
include h

theorem FlowTimed.searchable (ht : (Hwfq.after s c).tenants i = some t) :
    Searchable (⟨(Hwfq.after s c).mem, t.flowScheduler⟩ : GroupState FlowSessionContext) := by
  apply ((h.inv.after c).tenants i t ht).flows.searchable
  have hgrid := h.inv.onGrid h.grid c i t.core (cores_some ht)
  exact (congrArg Geometry.numBins (hgrid.trans
    (grid_of_config (h.inv.after_config c)))).trans_le h.bins

theorem FlowTimed.after (habsent : (Hwfq.after s c).tenants i = none → ideal'.queue = 0)
    (htimed : ∀ t, (Hwfq.after s c).tenants i = some t → ∃ off due,
      FlowOnSchedule S most off t.flowScheduler.totalCapacity due (Hwfq.after s c).mem
        t.flowScheduler ideal') :
    FlowTimed S most i (Hwfq.after s c) ideal' :=
  ⟨h.inv.after c, h.inv.onGrid h.grid c, (congrArg Geometry.numBins
    (grid_of_config (h.inv.after_config c))).trans_le h.bins, habsent, htimed⟩

/-- What a call makes of the ideal queue. A tenant that is added has a new one. -/
theorem FlowTimed.step (hmost : most < 2 ^ 62) (hserves : ServesFlows S most i s c) :
    ∃ ideal', FlowTimed S most i (Hwfq.after s c) ideal' ∧
      (ideal.queue ≠ 0 → Passes ideal ideal' (flowCharge i s c) (leaves i s c)) := by
  cases ht : s.tenants i with
  | none =>
    have hempty := h.absent ht
    cases ht' : (Hwfq.after s c).tenants i with
    | none =>
      refine ⟨ideal, h.after (fun _ => hempty) fun t' hbad => ?_, fun hne => absurd hempty hne⟩
      rw [ht'] at hbad
      cases hbad
    | some t' =>
      obtain ⟨cap, maxEntries, mem, hfresh⟩ := h.inv.new_slot ht ht'
      refine ⟨IdealQueue.State.init ℕ (SessionState FlowSessionContext),
        h.after (fun _ => rfl) fun u hu => ?_, fun hne => absurd hempty hne⟩
      rw [ht'] at hu
      cases hu
      have hstart : FlowOnSchedule S most 0 cap 0 mem t'.flowScheduler _ :=
        hfresh.onSchedule (h.searchable ht').bins
      rw [hstart.implements.capacity]
      exact ⟨0, 0, hstart.withMem (h.searchable ht')⟩
  | some t =>
    obtain ⟨off, due, hline⟩ := h.timed t ht
    cases ht' : (Hwfq.after s c).tenants i with
    | none =>
      obtain ⟨j, rfl, hj, hok⟩ := h.inv.freed_slot ht ht'
      have hqueued : t.flowScheduler.queued = 0 := (hserves t ht).2.2 hj hok
      have hempty : ideal.queue = 0 := by
        apply Multiset.eq_zero_of_forall_notMem
        intro p hp
        obtain ⟨q, hq, -⟩ := hline.implements.session_of hp
        rw [hqueued] at hq
        exact Multiset.notMem_zero q hq
      refine ⟨ideal, h.after (fun _ => hempty) fun t' hbad => ?_, fun hne => absurd hempty hne⟩
      rw [ht'] at hbad
      cases hbad
    | some t' =>
      obtain ⟨off', due', ideal', hnext, hpass⟩ := (h.inv.flowEffect ht ht').onSchedule h.inv ht
        hmost hserves (h.searchable ht') hline
      refine ⟨ideal', h.after (fun hbad => ?_) fun u hu => ?_, fun _ => hpass⟩
      · rw [ht'] at hbad
        cases hbad
      · rw [ht'] at hu
        cases hu
        rw [hnext.implements.capacity]
        exact ⟨off', due', hnext⟩

/-- A packet that waits stands for a session of the tenant. -/
theorem FlowTimed.busy {p : Packet ℕ (SessionState FlowSessionContext)} (hp : p ∈ ideal.queue) :
    s.queue i ≠ 0 := by
  cases ht : s.tenants i with
  | none =>
    rw [h.absent ht] at hp
    exact absurd hp (Multiset.notMem_zero p)
  | some t =>
    obtain ⟨off, due, hline⟩ := h.timed t ht
    obtain ⟨q, hq, -⟩ := hline.implements.session_of hp
    obtain ⟨x, hcar⟩ := (h.inv.tenants i t ht).flows.carried q hq
    rw [queue_some ht]
    intro hnone
    have hx : x ∈ contexts t.flowScheduler :=
      (Multiset.mem_filterMap (f := SessionState.userData) _).mpr ⟨q, hq, hcar.data⟩
    rw [hnone] at hx
    exact absurd hx (Multiset.notMem_zero x)

theorem FlowTimed.run (hmost : most < 2 ^ 62) {calls : List Call}
    (hcalls : Along Hwfq.after (ServesFlows S most i) s calls) :
    ∃ ideal', FlowTimed S most i (Hwfq.afterRun s calls) ideal' := by
  refine run_invariant (I := fun u => ∃ ideal, FlowTimed S most i u ideal) ?_ ⟨ideal, h⟩ hcalls
  rintro u c ⟨ideal₁, htimed⟩ hc
  exact (htimed.step hmost hc).imp fun _ hnext => hnext.1

/-- A session that is not taken along a run still waits, and its clock has been charged. -/
theorem FlowTimed.waits (hmost : most < 2 ^ 62) {calls : List Call}
    (hcalls : Along Hwfq.after (ServesFlows S most i) s calls)
    {p : Packet ℕ (SessionState FlowSessionContext)} (hp : p ∈ ideal.queue)
    {x : FlowSessionContext} (hx : p.item.userData = some x)
    (hstays : x ∉ (outputs Hwfq.after (leaves i) s calls).flatten) :
    (∃ ideal', FlowTimed S most i (Hwfq.afterRun s calls) ideal' ∧ p ∈ ideal'.queue ∧
      ideal.clock + (outputs Hwfq.after (flowCharge i) s calls).sum ≤ ideal'.clock) ∧
    Along Hwfq.after (fun u _ => u.queue i ≠ 0) s calls := by
  induction calls generalizing s ideal with
  | nil => exact ⟨⟨ideal, h, hp, le_rfl⟩, trivial⟩
  | cons c calls ih =>
    rw [outputs_cons, List.flatten_cons, List.mem_append, not_or] at hstays
    obtain ⟨ideal₁, hnext, hpass⟩ := h.step hmost hcalls.1
    have hpasses := hpass fun hnone => by simp [hnone] at hp
    have hkept := hpasses.kept p hp fun y hy heq => by
      rw [hx] at heq
      cases heq
      exact hstays.1 hy
    obtain ⟨⟨ideal', hlast, hstill, hclock⟩, hbusy⟩ := ih hnext hcalls.2 hkept hstays.2
    refine ⟨⟨ideal', hlast, hstill, ?_⟩, h.busy hp, hbusy⟩
    have hfirst := hpasses.clock
    rw [outputs_cons, List.sum_cons]
    omega

end Timed

/-- A queue in which something waits is punctual. -/
theorem FlowTimed.punctual (h : FlowTimed S most i s ideal)
    {p : Packet ℕ (SessionState FlowSessionContext)} (hp : p ∈ ideal.queue) :
    Punctual S most ideal := by
  cases ht : s.tenants i with
  | none =>
    rw [h.absent ht] at hp
    exact absurd hp (Multiset.notMem_zero p)
  | some t =>
    obtain ⟨off, due, hline⟩ := h.timed t ht
    exact hline.punctual

theorem Made.flowTimed (h : Made s) (hbins : s.grid.numBins ≤ 32768) (S : Shares ℕ) (most i : ℕ) :
    FlowTimed S most i s (IdealQueue.State.init ℕ (SessionState FlowSessionContext)) := by
  obtain ⟨mem, config, hinit⟩ := h
  have hnew := hwfqInit_success hinit
  refine ⟨hnew.inv, hnew.placed.grid, hbins, fun _ => rfl, fun t ht => ?_⟩
  have hnone : s.tenants i = none := congrFun hnew.tenants i
  rw [hnone] at ht
  cases ht

/-- The packet of a session that is accepted for the tenant. -/
theorem FlowTimed.accepted (h : FlowTimed S most i s ideal) (hmost : most < 2 ^ 62)
    {j f : UInt32} {w : Session} {now : UInt64} (hj : j.toNat = i)
    (hserves : ServesFlows S most i s (.enqueue j f (some w) now)) (ht : s.tenants i = some t)
    {entry : EntryConfig} (hentry : findFlowEntry t f.toNat = some entry)
    (haccept : (respond s (.enqueue j f (some w) now)).status = .success) :
    ∃ ideal' p, FlowTimed S most i (Hwfq.after s (.enqueue j f (some w) now)) ideal' ∧
      p ∈ ideal'.queue ∧
      p.item.userData = some (newContext s s.mem.next i f.toNat w now.toNat) ∧
      p.finish = ideal'.clock + (entry.lastFinishTime - t.flowScheduler.virtualTime) +
        serviceIntervalOf w.workSize.toNat (entryRate t.flowScheduler entry) ∧
      p.cost = virtualTimeDelta t.flowScheduler w.workSize.toNat := by
  obtain ⟨t', ht'⟩ : ∃ t', (Hwfq.after s (.enqueue j f (some w) now)).tenants i = some t' := by
    cases hat : (Hwfq.after s (.enqueue j f (some w) now)).tenants i with
    | some t' => exact ⟨t', rfl⟩
    | none =>
      obtain ⟨k, hbad, -⟩ := h.inv.freed_slot ht hat
      cases hbad
  have hentered : enters i s (.enqueue j f (some w) now) =
      [newContext s s.mem.next i f.toNat w now.toNat] := by
    rw [enters, if_pos ⟨hj, haccept⟩, hj]
  have heff := h.inv.flowEffect ht ht'
  have hsearch := h.searchable ht'
  cases heff with
  | edited _ _ entered =>
    rw [hentered] at entered
    cases entered
  | missed asked => cases asked
  | putBack asked => cases asked
  | delivered asked => cases asked
  | @accepted j' f' w' now' mem x call tenant context memory fits success result left entered =>
    cases call
    obtain ⟨off, due, hline⟩ := h.timed t ht
    obtain ⟨ideal₁, h₁, -⟩ :=
      hline.mapStats (h.inv.tenants i t ht) memory f.toNat Stats.backlogUp
    have hsame := t.mapStats_undisturbed f.toNat Stats.backlogUp
    have hshare := ((hserves t ht).2.2 hj w rfl).mapStats f.toNat Stats.backlogUp
    obtain ⟨g, hfind, hkept⟩ := t.mapStats_entries f.toNat Stats.backlogUp f.toNat
    have hfound : groupSchedulerFindEntry (t.mapStats f.toNat Stats.backlogUp).flowScheduler
        f.toNat = some (g entry) := by
      rw [hfind]
      exact congrArg (Option.map g) hentry
    obtain ⟨hlast, hrate⟩ := hkept entry
    subst context
    rcases enqueue_cases mem (t.mapStats f.toNat Stats.backlogUp).flowScheduler f.toNat
        w.workSize.toNat (some (newContext s s.mem.next i f.toNat w now.toNat)) true with
      ⟨hbad, -⟩ | ⟨-, haddr, -⟩
    · exact absurd success hbad
    obtain ⟨off', ideal', p, hnext, -, -, hfinish, hcost, hp, hdata⟩ :=
      h₁.accepted hmost hshare hfound haddr
    have hline' : FlowOnSchedule S most off' t.flowScheduler.totalCapacity due
        (offerResult mem t (newContext s s.mem.next i f.toNat w now.toNat)).mem
        t'.flowScheduler ideal' := by
      rw [result]
      exact hnext
    refine ⟨ideal', p, h.after (fun hbad => ?_) fun u hu => ?_, hp, hdata, ?_, ?_⟩
    · rw [ht'] at hbad
      cases hbad
    · rw [ht'] at hu
      cases hu
      rw [hline'.implements.capacity]
      exact ⟨off', due, hline'.withMem hsearch⟩
    · rw [hfinish, hlast, hrate, hsame.clock]
    · rw [hcost, hsame.delta]

/-- While a session that is accepted waits, its tenant has sessions queued and is charged for a
bounded amount. -/
theorem FlowTimed.delay (h : FlowTimed S most i s ideal) (hmost : most < 2 ^ 62) {later : List Call}
    {j f : UInt32} {w : Session} {now : UInt64} (hj : j.toNat = i)
    (hcalls : Along Hwfq.after (ServesFlows S most i) s (.enqueue j f (some w) now :: later))
    (ht : s.tenants i = some t) {entry : EntryConfig} (hentry : findFlowEntry t f.toNat = some entry)
    (haccept : (respond s (.enqueue j f (some w) now)).status = .success)
    (hwaits : newContext s s.mem.next i f.toNat w now.toNat ∉
      (outputs Hwfq.after (leaves i) (Hwfq.after s (.enqueue j f (some w) now)) later).flatten) :
    (outputs Hwfq.after (flowCharge i) (Hwfq.after s (.enqueue j f (some w) now)) later).sum +
          virtualTimeDelta t.flowScheduler w.workSize.toNat ≤
        (entry.lastFinishTime - t.flowScheduler.virtualTime) +
          serviceIntervalOf w.workSize.toNat (entryRate t.flowScheduler entry) + most ∧
      Along Hwfq.after (fun u _ => u.queue i ≠ 0) (Hwfq.after s (.enqueue j f (some w) now)) later := by
  obtain ⟨ideal₁, p, h₁, hp, hdata, hfinish, hcost⟩ :=
    h.accepted hmost hj hcalls.1 ht hentry haccept
  obtain ⟨⟨ideal₂, h₂, hstill, hclock⟩, hbusy⟩ := h₁.waits hmost hcalls.2 hp hdata hwaits
  have hbound := (h₂.punctual hstill).bound hstill
  refine ⟨?_, hbusy⟩
  omega

/-- Flows with rates of 20 and 40 reserve 25 and 50 of a capacity of 100. -/
def threeQuarters : Shares ℕ where
  flows := {1, 2}
  weight f := if f = 1 then 25 else 50
  total := 100
  positive := Nat.succ_pos 99
  fits := by decide

end Hwfq
