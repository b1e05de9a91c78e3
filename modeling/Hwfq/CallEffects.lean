import Hwfq.ConfigurationCalls
import Hwfq.PublicCalls

/-!
# What a public call can do

One constructor for each kind of change a call makes to the scheduler, with the
guards it has passed. Everything that is said of runs is derived from these.
-/
namespace Hwfq

/-- What a call that names flow `f` of tenant `t`, or adds one, does to the flow
scheduler of `t`. The tenant is in slot `i`. -/
inductive FlowUpdate (mem : Allocator) (i : UInt32) (t : Tenant) :
    Call → Response → GroupScheduler FlowSessionContext → Prop
  | exhausted {a ret mem' flows}
      (alloc : allocEntryOf mem t.flowScheduler = (.error ret, mem', flows)) :
      FlowUpdate mem i t (.addFlow i (some a) true) { status := .noMemory } flows
  | admitted {a id mem' flows flows'} (valid : validateAllocation a = true)
      (alloc : allocEntryOf mem t.flowScheduler = (.ok id, mem', flows))
      (configured : groupSchedulerConfigureEntry flows id a = (.success, flows')) :
      FlowUpdate mem i t (.addFlow i (some a) true) { id := some id } flows'
  | rolledBack {a id mem' flows status flows'} (valid : validateAllocation a = true)
      (alloc : allocEntryOf mem t.flowScheduler = (.ok id, mem', flows))
      (failed : status ≠ .success)
      (configured : groupSchedulerConfigureEntry flows id a = (status, flows')) :
      FlowUpdate mem i t (.addFlow i (some a) true) { status := status } (freeEntryOf flows' id)
  | reconfigured {f a status flows'} (valid : validateAllocation a = true)
      (find : (findFlowEntry t f.toNat).isSome = true)
      (configured : groupSchedulerConfigureEntry t.flowScheduler f.toNat a = (status, flows')) :
      FlowUpdate mem i t (.reconfigureFlow i f (some a)) { status := status } flows'
  | retired {f entry} (find : findFlowEntry t f.toNat = some entry)
      (idle : entry.stats.currentBacklog = 0) :
      FlowUpdate mem i t (.removeFlow i f) {}
        (freeEntryOf (groupSchedulerRemoveEntry t.flowScheduler f.toNat).2 f.toNat)

inductive Effect (s : Scheduler) : Call → Response → Scheduler → Prop
  | idle {c r s'} (failed : r.status ≠ .success) (nothing : r.delivery = none)
      (tokens : TokensOnly s s') : Effect s c r s'
  | added {a addr flows mem i s'} (admits : Admits s s' i (newTenant addr i a flows))
      (valid : validateAllocation a = true) (fits : wouldExceedCapacity s a none = false)
      (blank : Blank flows.entries)
      (store : flows.entries.maxEntries = u32 (s.config.maxFlowsPerTenant.toNat + 1))
      (fresh : Fresh s.numGroups s.binsPerGroup (tenantShare s.totalCapacity a)
        (u32 (s.config.maxFlowsPerTenant.toNat + 1)) (⟨mem, flows⟩ : GroupState _)) :
      Effect s (.addTenant (some a) true) { id := some i } s'
  | reallocated {i a t} (tenant : s.tenants i.toNat = some t) (valid : validateAllocation a = true)
      (fits : wouldExceedCapacity s a (some t.allocation) = false) :
      Effect s (.configureTenant i (some a)) {} (reallocated s i.toNat t a)
  | removed {i t} (tenant : s.tenants i.toNat = some t) (idle : t.hasBacklog = false) :
      Effect s (.removeTenant i) { callbacks := cleanupCalls t } (tenantRemoved s i.toNat t)
  | flows {i t c r flows n s'} (update : FlowUpdate s.mem i t c r flows)
      (change : FlowsChange s s' i.toNat t flows n) : Effect s c r s'
  | accepted {i f w now t c mem callbacks s'} (tenant : s.tenants i.toNat = some t)
      (size : w.workSize ≠ 0) (flow : (findFlowEntry t f.toNat).isSome = true)
      (context : c = newContext s s.mem.next i.toNat f.toNat w now.toNat)
      (success : (offerResult mem t c).status = .success) (created : s.mem.next < s'.mem.next)
      (changes : Changes s s' (Function.update s.cores i.toNat
        (some { t.core.mapStats c.flowId Stats.backlogUp with
          flowScheduler := (offerResult mem t c).gs }))) :
      Effect s (.enqueue i f (some w) now) { callbacks := callbacks } s'
  | rejected {i f w now t r s'} (tenant : s.tenants i.toNat = some t)
      (flow : (findFlowEntry t f.toNat).isSome = true) (failed : r.status ≠ .success)
      (nothing : r.delivery = none)
      (changes : Changes s s' (Function.update s.cores i.toNat
        (some ((t.core.mapStats f.toNat Stats.backlogUp).mapStats f.toNat Stats.backlogDown)))) :
      Effect s (.enqueue i f (some w) now) r s'
  | missed {out now i t flows r s'} (tenant : s.tenants i = some t)
      (dequeued : groupSchedulerDequeue t.flowScheduler = (none, flows))
      (failed : r.status ≠ .success) (nothing : r.delivery = none)
      (changes : Changes s s'
        (Function.update s.cores i (some { t.core with flowScheduler := flows }))) :
      Effect s (.dequeue out now) r s'
  | putBack {now i t q c flows s₁ t₁ r} (taken : Taken s i t q c flows)
      (before : PutBack s s₁ i t t₁ c flows) (failed : r.status ≠ .success)
      (nothing : r.delivery = none) : Effect s (.dequeue true now) r (putBack s₁ i c)
  | delivered {now i t q c flows t' s'} (taken : Taken s i t q c flows)
      (delivers : Delivers s s' i t t' c flows now.toNat) :
      Effect s (.dequeue true now)
        { delivery := some ⟨c.tenantId, c.flowId, c.userData, c.workSize, c.enqueueTimeNs⟩ } s'
  | completed {i f work found cores callbacks s'}
      (lookup : inFlightLookup s work i.toNat f.toNat = some found)
      (stats : cores = mapStatsAt s.cores i.toNat f.toNat Stats.backlogDownIfPositive ∨
        cores = mapStatsAt (mapStatsAt s.cores i.toNat f.toNat Stats.backlogDownIfPositive) i.toNat
          f.toNat (Stats.addCompletion found.workSize))
      (ends : Ends s s' found cores) :
      Effect s (.complete i f work) { callbacks := callbacks } s'
  | cancelled {i f work found callbacks s'}
      (lookup : inFlightLookup s work i.toNat f.toNat = some found)
      (ends : Ends s s' found
        (mapStatsAt s.cores i.toNat f.toNat Stats.backlogDownIfPositive)) :
      Effect s (.cancel i f work) { callbacks := callbacks } s'
  | timedOut {now n callbacks s'} (only : FlightOnly s s')
      (perm : s.inFlight.Perm (s.inFlight.filter (isTimedOut now.toNat) ++ s'.inFlight)) :
      Effect s (.checkTimeouts now) { timeoutCount := n, callbacks := callbacks } s'
  | reset {i f s'} (reset : StatsReset s s') : Effect s (.resetStats i f) {} s'

variable {s s' : Scheduler} {c : Call} {r : Response}

/-- The whole change of a dequeue that puts its session back. -/
theorem PutBack.changes_all {i : ℕ} {t t₁ : Tenant} {q : SessionState FlowSessionContext}
    {x : FlowSessionContext} {s₁ : Scheduler} {flows : GroupScheduler FlowSessionContext}
    (h : PutBack s s₁ i t t₁ x flows) (htaken : Taken s i t q x flows) :
    Changes s (putBack s₁ i x) (Function.update s.cores i
      (some { t.core with flowScheduler := (putBackResult s₁ i t₁ x).gs })) := by
  have hput := h.inv.putBack h.tenant htaken.carries.tenant htaken.carries.fits
  have hall := h.changes.trans hput.2
  rwa [h.changes.cores, Function.update_idem, h.core] at hall

theorem Effect.config (h : Effect s c r s') : s'.config = s.config := by
  cases h with
  | idle _ _ tokens => exact tokens.config
  | added admits => exact admits.config
  | reallocated => rfl
  | removed => rfl
  | flows _ change => exact change.config
  | accepted _ _ _ _ _ _ changes => exact changes.config
  | rejected _ _ _ _ changes => exact changes.config
  | missed _ _ _ _ changes => exact changes.config
  | putBack taken before => exact (before.changes_all taken).config
  | delivered _ delivers => exact delivers.config
  | completed _ _ ends => exact ends.config
  | cancelled _ ends => exact ends.config
  | timedOut only => exact only.config
  | reset reset =>
    rw [reset.same]

/-- Memory is only taken, and grants go on. -/
theorem Effect.memory (h : Effect s c r s') :
    s.mem.next ≤ s'.mem.next ∧ (s.mem.AlwaysOk → s'.mem.AlwaysOk) := by
  cases h with
  | idle _ _ tokens => exact ⟨tokens.next, tokens.granted⟩
  | added admits => exact ⟨admits.next, admits.granted⟩
  | reallocated => exact ⟨le_rfl, id⟩
  | removed => exact ⟨le_rfl, id⟩
  | flows _ change => exact ⟨change.next, change.granted⟩
  | accepted _ _ _ _ _ _ changes => exact ⟨changes.next, changes.granted⟩
  | rejected _ _ _ _ changes => exact ⟨changes.next, changes.granted⟩
  | missed _ _ _ _ changes => exact ⟨changes.next, changes.granted⟩
  | putBack taken before =>
    have hall := before.changes_all taken
    exact ⟨hall.next, hall.granted⟩
  | delivered _ delivers => exact ⟨delivers.next, delivers.granted⟩
  | completed _ _ ends => exact ⟨ends.next, ends.granted⟩
  | cancelled _ ends => exact ⟨ends.next, ends.granted⟩
  | timedOut only => exact ⟨only.mem ▸ le_rfl, fun hs => only.mem ▸ hs⟩
  | reset reset =>
    rw [reset.same]
    exact ⟨le_rfl, id⟩

/-- A call that can take a session out of a queue. -/
def Call.asksSession : Call → Bool
  | .dequeue out _ => out
  | _ => false

/-- What a dequeue reports of a session. -/
def FlowSessionContext.delivery (x : FlowSessionContext) : Delivery :=
  ⟨x.tenantId, x.flowId, x.userData, x.workSize, x.enqueueTimeNs⟩

/-- The session that a dequeue would choose. -/
def chosen (s : Scheduler) : Option FlowSessionContext :=
  match (dequeueSelect s).1 with
  | .selected _ c => some c
  | .refused _ => none

theorem Taken.chosen {i : ℕ} {t : Tenant} {q : SessionState FlowSessionContext}
    {x : FlowSessionContext} {flows : GroupScheduler FlowSessionContext}
    (h : Taken s i t q x flows) : chosen s = some x := by
  rw [Hwfq.chosen, h.selected]

/-- A session that was selected and is not put back is delivered. -/
theorem dequeue_delivers (hchosen : (chosen s).isSome = true) (hpoint : putBackPoint s = none)
    (now : ℕ) : (hwfqDequeue s true now).1 = .success := by
  unfold chosen at hchosen
  unfold putBackPoint at hpoint
  rw [hwfqDequeue, if_neg (by decide)]
  generalize dequeueSelect s = selection at hchosen hpoint ⊢
  obtain ⟨choice, s₁⟩ := selection
  cases choice with
  | refused status => cases hchosen
  | selected id context =>
    dsimp only at hpoint ⊢
    by_cases hover : overCapacity s₁ context = true
    · rw [if_pos hover] at hpoint
      cases hpoint
    rw [if_neg hover] at hpoint ⊢
    generalize hwfqAlloc (chargeFlow s₁ id context.workSize).mem 1 = grant at hpoint ⊢
    obtain ⟨addr, mem⟩ := grant
    cases addr with
    | none => cases hpoint
    | some addr => rfl

/-- A delivery adds an entry to the in-flight list; other calls at most take some out. -/
theorem Effect.inFlight (h : Effect s c r s') (hinv : SchedulerInv s) :
    (∃ now i t q x flows t', c = .dequeue true now ∧ Taken s i t q x flows ∧
      Delivers s s' i t t' x flows now.toNat) ∨ s'.inFlight.Subperm s.inFlight := by
  have hremove : ∀ found ∈ s.inFlight, (inFlightRemove s found).inFlight.Subperm s.inFlight :=
    fun found hfound => (List.sublist_cons_self found _).subperm.trans
      (inFlightRemove_perm hinv.flight hfound).symm.subperm
  cases h with
  | idle _ _ tokens => exact .inr (tokens.inFlight ▸ List.Subperm.refl _)
  | added admits => exact .inr (admits.inFlight ▸ List.Subperm.refl _)
  | reallocated => exact .inr (List.Subperm.refl _)
  | removed => exact .inr (List.Subperm.refl _)
  | flows _ change => exact .inr (change.inFlight ▸ List.Subperm.refl _)
  | accepted _ _ _ _ _ _ changes => exact .inr (changes.inFlight ▸ List.Subperm.refl _)
  | rejected _ _ _ _ changes => exact .inr (changes.inFlight ▸ List.Subperm.refl _)
  | missed _ _ _ _ changes => exact .inr (changes.inFlight ▸ List.Subperm.refl _)
  | putBack taken before =>
    exact .inr ((before.changes_all taken).inFlight ▸ List.Subperm.refl _)
  | delivered taken delivers => exact .inl ⟨_, _, _, _, _, _, _, rfl, taken, delivers⟩
  | completed _ _ ends => exact .inr (ends.inFlight ▸ hremove _ ends.mem_inFlight)
  | cancelled _ ends => exact .inr (ends.inFlight ▸ hremove _ ends.mem_inFlight)
  | timedOut _ perm =>
    exact .inr ((List.sublist_append_right _ _).subperm.trans perm.symm.subperm)
  | reset reset =>
    rw [reset.same]
    exact .inr (List.Subperm.refl _)

/-! ## Every call has one of these effects -/

theorem SchedulerInv.addTenant_effect (h : SchedulerInv s) (allocation : Option Allocation)
    (out : Bool) :
    Effect s (.addTenant allocation out) (respond s (.addTenant allocation out))
      (after s (.addTenant allocation out)) := by
  have hcall := (h.addTenant allocation out).2
  simp only [respond, after, exec]
  have hout : out = false → hwfqAddTenant s allocation out = (.invalidArg, none, s) := by
    rintro rfl
    cases allocation <;> rfl
  cases out with
  | false =>
    rw [hout rfl]
    exact .idle (by simp) rfl (Changes.refl s)
  | true =>
    generalize hwfqAddTenant s allocation true = result at hcall ⊢
    obtain ⟨status, id, s'⟩ := result
    rcases hcall with ⟨hbad, -, htok⟩ |
      ⟨a, addr, flows, mem, i, rfl, hvalid, hfits, rfl, rfl, hadm, hblank, hstore, hfresh⟩
    · exact .idle hbad rfl htok
    · exact .added hadm hvalid hfits hblank hstore hfresh

theorem SchedulerInv.addFlow_effect (h : SchedulerInv s) (i : UInt32)
    (allocation : Option Allocation) (out : Bool) :
    Effect s (.addFlow i allocation out) (respond s (.addFlow i allocation out))
      (after s (.addFlow i allocation out)) := by
  have hcall := (h.addFlow i.toNat allocation out).2
  simp only [respond, after, exec]
  cases out with
  | false =>
    have hout : hwfqAddFlow s i.toNat allocation false = (.invalidArg, none, s) := by
      cases allocation <;> rfl
    rw [hout]
    exact .idle (by simp) rfl (Changes.refl s)
  | true =>
    generalize hwfqAddFlow s i.toNat allocation true = result at hcall ⊢
    obtain ⟨status, id, s'⟩ := result
    dsimp only at hcall ⊢
    rcases hcall with ⟨hbad, heq⟩ | ⟨a, t, ret, mem, flows, rfl, -, hvalid, -, halloc,
      ⟨e, rfl, rfl, rfl, hch⟩ | ⟨id, flows', rfl, hconf, ⟨rfl, rfl, hch⟩ | ⟨hbad, rfl, hch⟩⟩⟩
    · cases heq
      exact .idle hbad rfl (Changes.refl s)
    · exact .flows (.exhausted halloc) hch
    · exact .flows (.admitted hvalid halloc hconf) hch
    · exact .flows (.rolledBack hvalid halloc hbad hconf) hch

theorem SchedulerInv.enqueue_effect (h : SchedulerInv s) (i f : UInt32) (work : Option Session)
    (now : UInt64) :
    Effect s (.enqueue i f work now) (respond s (.enqueue i f work now))
      (after s (.enqueue i f work now)) := by
  simp only [respond, after, exec]
  rcases h.enqueue i.toNat f.toNat work now.toNat with ⟨-, hbad, htok⟩ | ⟨s₁, t, c, hinv, hoff, heq⟩
  · exact .idle hbad rfl htok
  · have hoffer := hinv.offer (hoff.tenants ▸ hoff.tenant) hoff.context.1 hoff.context.2.2
    rw [← heq, hoff.allocated.cores] at hoffer
    have hflow := hoff.context.2.1
    obtain ⟨w, rfl, hsize, hc⟩ := hoff.work
    obtain ⟨-, hstatus, ⟨hok, hch⟩ | ⟨hbad, hch⟩⟩ := hoffer
    · rw [hstatus, hok]
      have hcreated := hoff.created.symm.trans_le hch.next
      exact .accepted hoff.tenant hsize hoff.flow hc hok hcreated (hoff.allocated.trans hch)
    · rw [hflow] at hch
      exact .rejected hoff.tenant hoff.flow (hstatus ▸ hbad) rfl (hoff.allocated.trans hch)

theorem SchedulerInv.effect (h : SchedulerInv s) (c : Call) :
    Effect s c (respond s c) (after s c) := by
  cases c with
  | addTenant a out => exact h.addTenant_effect a out
  | configureTenant i a =>
    have hcall := (h.configureTenant i.toNat a).2
    simp only [respond, after, exec]
    rcases hcall with ⟨hbad, heq⟩ | ⟨a, t, rfl, ht, hvalid, hfits, heq⟩
    · rw [heq]
      exact .idle hbad rfl (Changes.refl s)
    · rw [heq]
      exact .reallocated ht hvalid hfits
  | removeTenant i =>
    have hcall := (h.removeTenant i.toNat).2
    simp only [respond, after, exec]
    rcases hcall with ⟨hbad, heq⟩ | ⟨t, ht, hidle, heq⟩
    · have hsame : (hwfqRemoveTenant s i.toNat).2.2 = s := congrArg Prod.snd heq
      rw [hsame]
      exact .idle hbad rfl (Changes.refl s)
    · rw [heq]
      exact .removed ht hidle
  | addFlow i a out => exact h.addFlow_effect i a out
  | reconfigureFlow i f a =>
    have hcall := (h.reconfigureFlow i.toNat f.toNat a).2
    simp only [respond, after, exec]
    rcases hcall with ⟨hbad, heq⟩ | ⟨a, t, rfl, ht, hvalid, hfind, hstatus, hch⟩
    · rw [heq]
      exact .idle hbad rfl (Changes.refl s)
    · exact .flows (.reconfigured hvalid hfind (Prod.ext hstatus.symm rfl)) hch
  | removeFlow i f =>
    have hcall := (h.removeFlow i.toNat f.toNat).2
    simp only [respond, after, exec]
    rcases hcall with ⟨hbad, heq⟩ | ⟨t, entry, ht, hfind, hidle, hok, hch⟩
    · rw [heq]
      exact .idle hbad rfl (Changes.refl s)
    · rw [hok]
      exact .flows (.retired hfind hidle) hch
  | enqueue i f work now => exact h.enqueue_effect i f work now
  | dequeue out now =>
    have hcall := (h.dequeue out now.toNat).2
    simp only [respond, after, exec]
    generalize (hwfqDequeue s out now.toNat).1 = status at hcall ⊢
    generalize (hwfqDequeue s out now.toNat).2.1 = delivery at hcall ⊢
    generalize (hwfqDequeue s out now.toNat).2.2 = s' at hcall ⊢
    cases hcall with
    | refused failed _ changes => exact .idle failed rfl changes
    | missed failed _ tenant dequeued changes => exact .missed tenant dequeued failed rfl changes
    | putBack failed asked taken back =>
      subst asked
      exact .putBack taken back failed rfl
    | delivered asked taken delivers =>
      subst asked
      exact .delivered taken delivers
  | complete i f work =>
    have hcall := (h.complete work i.toNat f.toNat).2
    simp only [respond, after, exec]
    rcases hcall with ⟨-, heq⟩ | ⟨found, cores, hfound, hok, hcores, hends⟩
    · rw [heq]
      exact .idle (by simp) rfl (Changes.refl s)
    · rw [hok]
      exact .completed hfound (hcores.imp And.right And.right) hends
  | cancel i f work =>
    have hcall := (h.cancel work i.toNat f.toNat).2
    simp only [respond, after, exec]
    rcases hcall with ⟨-, heq⟩ | ⟨found, hfound, hok, hends⟩
    · rw [heq]
      exact .idle (by simp) rfl (Changes.refl s)
    · rw [hok]
      exact .cancelled hfound hends
  | checkTimeouts now => exact .timedOut (h.checkTimeouts now.toNat).2.1 (h.checkTimeouts now.toNat).2.2
  | resetStats i f => exact .reset (resetStats_reset s i.toNat f.toNat)

end Hwfq
