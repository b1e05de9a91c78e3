import Hwfq.SchedulerLedgers
import Hwfq.SessionHistory

/-!
# What a public call does to a flow scheduler

A call enters a session into the flow scheduler of a tenant, takes one out and perhaps puts it
back, or has one of its entries configured or retired. Nothing else that a call does touches the
queue of a flow scheduler, its clock or the finish tags of its entries.
-/
namespace Hwfq

/-! ## Finish tags -/

section Tags
variable {α : Type*} {mem : Allocator} {live : Finset ℕ} {gs gs' gs'' : GroupScheduler α}
  {set set' drop drop' : Option ℕ}

/-- The finish tag of an active entry. -/
def finishTag (gs : GroupScheduler α) (id : ℕ) : Option ℕ :=
  (activeEntry gs id).map (·.lastFinishTime)

/-- `gs'` queues what `gs` does; one entry has its tag set to zero, one has lost it. -/
structure Retagged (set drop : Option ℕ) (gs gs' : GroupScheduler α) : Prop where
  view : gs'.queueView = gs.queueView
  capacity : gs'.totalCapacity = gs.totalCapacity
  tags : ∀ id, finishTag gs' id =
    if set = some id then some 0 else if drop = some id then none else finishTag gs id

/-- `gs'` queues and tags as `gs` does. -/
abbrev Undisturbed (gs gs' : GroupScheduler α) : Prop := Retagged none none gs gs'

theorem Undisturbed.of_active (hview : gs'.queueView = gs.queueView)
    (hcap : gs'.totalCapacity = gs.totalCapacity)
    (hact : ∀ id, activeEntry gs' id = activeEntry gs id) : Undisturbed gs gs' := by
  refine ⟨hview, hcap, fun id => ?_⟩
  rw [if_neg (by simp), if_neg (by simp), finishTag, hact, finishTag]

theorem Undisturbed.refl (gs : GroupScheduler α) : Undisturbed gs gs := .of_active rfl rfl fun _ => rfl

theorem Undisturbed.retagged (h : Undisturbed gs gs') (h' : Retagged set drop gs' gs'') :
    Retagged set drop gs gs'' := by
  refine ⟨h'.view.trans h.view, h'.capacity.trans h.capacity, fun id => ?_⟩
  rw [h'.tags, h.tags]
  simp

theorem Retagged.same (h : Retagged set drop gs gs') (h' : Undisturbed gs' gs'') :
    Retagged set drop gs gs'' := by
  refine ⟨h'.view.trans h.view, h'.capacity.trans h.capacity, fun id => ?_⟩
  rw [h'.tags, if_neg (by simp), if_neg (by simp), h.tags]

/-- A configuration that succeeds sets the tag of its entry, one that fails does nothing. -/
theorem PooledInv.configure_retagged (h : PooledInv mem gs live) (id : ℕ) (a : Allocation) :
    Retagged (if (groupSchedulerConfigureEntry gs id a).1 = .success then some id else none) none
      gs (groupSchedulerConfigureEntry gs id a).2 := by
  rcases h.configure_cases id a with ⟨hbad, heq⟩ | ⟨hok, -, entry, -, -, -, hact⟩
  · rw [heq, if_neg hbad]
    exact Undisturbed.refl gs
  · rw [if_pos hok]
    refine ⟨configureEntry_queueView h.group.sums id a,
      congrArg Bounds.totalCapacity (configureEntry_bounds h.group.sums id a), fun j => ?_⟩
    rw [finishTag, hact]
    by_cases hj : j = id
    · rw [if_pos hj, if_pos (congrArg some hj.symm)]
      rfl
    · rw [if_neg hj, if_neg (fun heq => hj (Option.some.inj heq).symm), if_neg (by simp)]
      rfl

theorem PooledInv.remove_retagged (h : PooledInv mem gs live) {id : ℕ}
    (hact : (activeEntry gs id).isSome = true) :
    Retagged none (some id) gs (freeEntryOf (groupSchedulerRemoveEntry gs id).2 id) := by
  obtain ⟨hpool, hgone⟩ := h.removeEntry hact
  have hnone : activeEntry (groupSchedulerRemoveEntry gs id).2 id = none := by
    rw [hgone, if_pos rfl]
  have hfree := (hpool.free (h.pool.mem_of_active hact) hnone).2
  refine ⟨removeEntry_queueView gs id,
    congrArg Bounds.totalCapacity (removeEntry_bounds gs id), fun j => ?_⟩
  rw [if_neg (by simp), finishTag, hfree, hgone]
  by_cases hj : j = id
  · rw [if_pos hj, if_pos (congrArg some hj.symm)]
    rfl
  · rw [if_neg hj, if_neg (fun heq => hj (Option.some.inj heq).symm)]
    rfl

theorem PooledInv.alloc_same (h : PooledInv mem gs live) :
    Undisturbed gs (allocEntryOf mem gs).2.2 := by
  obtain ⟨-, hact, hview, -⟩ := h.alloc le_rfl
  exact .of_active hview rfl hact

end Tags

variable {s s' : Scheduler} {c : Call} {r : Response} {i : ℕ} {t : Tenant}

/-! ## The entries of a tenant -/

theorem Tenant.mapStats_undisturbed (t : Tenant) (flowId : ℕ) (f : Stats → Stats) :
    Undisturbed t.flowScheduler (t.mapStats flowId f).flowScheduler := by
  refine ⟨t.mapStats_queueView flowId f, ?_, fun id => ?_⟩
  · unfold Tenant.mapStats
    dsimp only
    split_ifs <;> rfl
  · rw [if_neg (by simp), if_neg (by simp), finishTag, finishTag, activeEntry_eq, activeEntry_eq,
      mapStats_findEntry, Option.map_map, Option.map_map, Option.map_map]
    congr 1
    funext e
    dsimp only [Function.comp_apply]
    split_ifs <;> rfl

theorem TenantReset.undisturbed {t' : Tenant} (h : TenantReset t t') :
    Undisturbed t.flowScheduler t'.flowScheduler := by
  obtain ⟨which, hentries⟩ := h.entries
  rw [h.same]
  refine ⟨rfl, rfl, fun id => ?_⟩
  rw [if_neg (by simp), if_neg (by simp), finishTag, finishTag, activeEntry, activeEntry]
  dsimp only
  rw [hentries.get]
  cases hwfqChunkedGet t.flowScheduler.entries id with
  | none => rfl
  | some e =>
    cases which id with
    | false => rfl
    | true =>
      cases hconf : e.configured <;> simp [resetFlowStats, EntryConfig.core, hconf, Option.filter_some]

/-- The flow of tenant `i` that a call has configured. -/
def configuredFlow (s : Scheduler) (i : ℕ) : Call → Option ℕ
  | .addFlow j a out =>
      if j.toNat = i ∧ (respond s (.addFlow j a out)).status = .success then
        (respond s (.addFlow j a out)).id
      else none
  | .reconfigureFlow j f a =>
      if j.toNat = i ∧ (respond s (.reconfigureFlow j f a)).status = .success then some f.toNat
      else none
  | _ => none

/-- The flow of tenant `i` that a call has removed. -/
def retiredFlow (s : Scheduler) (i : ℕ) : Call → Option ℕ
  | .removeFlow j f =>
      if j.toNat = i ∧ (respond s (.removeFlow j f)).status = .success then some f.toNat else none
  | _ => none

theorem FlowUpdate.retagged {j : UInt32} {flows : GroupScheduler FlowSessionContext}
    (h : FlowUpdate s.mem j t c r flows) (hr : respond s c = r)
    (hinv : FlowsInv s.mem j.toNat t.flowScheduler) :
    Retagged (configuredFlow s j.toNat c) (retiredFlow s j.toNat c) t.flowScheduler flows := by
  obtain ⟨live, hpool⟩ := hinv.pooled
  cases h with
  | @exhausted a ret mem flows halloc =>
    have hsame := hpool.alloc_same
    rw [halloc] at hsame
    rw [configuredFlow, hr, if_neg (by simp)]
    exact hsame
  | @admitted a id mem flows₁ flows _ halloc hconf =>
    have hsame := hpool.alloc_same
    obtain ⟨-, -, -, ⟨ret, hret, -⟩ | ⟨id', hret, -, -, hpool', -⟩⟩ := hpool.alloc (le_refl _)
    · rw [halloc] at hret
      cases hret
    rw [halloc] at hsame hpool'
    have hset := hpool'.configure_retagged id a
    rw [hconf, if_pos rfl] at hset
    rw [configuredFlow, hr, if_pos ⟨rfl, rfl⟩]
    exact hsame.retagged hset
  | @rolledBack a id mem flows₁ status flows _ halloc hbad hconf =>
    have hsame := hpool.alloc_same
    obtain ⟨-, hact, -, ⟨ret, hret, -⟩ | ⟨id', hret, hnew, -, hpool', -⟩⟩ := hpool.alloc (le_refl _)
    · rw [halloc] at hret
      cases hret
    rw [halloc] at hret hsame hpool' hact
    cases hret
    have hset := hpool'.configure_cases id a
    rw [hconf] at hset
    obtain ⟨-, rfl⟩ : status ≠ .success ∧ flows = flows₁ :=
      hset.resolve_right fun hok => hbad hok.1
    have hnone : activeEntry flows id = none := by
      rw [hact]
      exact activeEntry_eq_none (hpool.pool.idle id hnew)
    have hfree := (hpool'.free (Finset.mem_insert_self _ _) hnone).2
    rw [configuredFlow, hr, if_neg fun hok => hbad hok.2]
    exact hsame.same (.of_active rfl rfl hfree)
  | @reconfigured f a status flows _ _ hconf =>
    have hset := hpool.configure_retagged f.toNat a
    rw [hconf] at hset
    simp only [configuredFlow, retiredFlow, hr]
    simpa using hset
  | @retired f entry find _ =>
    rw [retiredFlow, hr, if_pos ⟨rfl, rfl⟩]
    exact hpool.remove_retagged (activeEntry_of_findFlowEntry (by rw [find]; rfl))

theorem no_flow_of_failed (hbad : (respond s c).status ≠ .success) (i : ℕ) :
    configuredFlow s i c = none ∧ retiredFlow s i c = none := by
  cases c with
  | addFlow j a out => exact ⟨if_neg fun hok => hbad hok.2, rfl⟩
  | reconfigureFlow j f a => exact ⟨if_neg fun hok => hbad hok.2, rfl⟩
  | removeFlow j f => exact ⟨rfl, if_neg fun hok => hbad hok.2⟩
  | _ => exact ⟨rfl, rfl⟩

theorem FlowUpdate.elsewhere {j : UInt32} {flows : GroupScheduler FlowSessionContext}
    (h : FlowUpdate s.mem j t c r flows) (hi : i ≠ j.toNat) :
    configuredFlow s i c = none ∧ retiredFlow s i c = none := by
  cases h with
  | retired => exact ⟨rfl, if_neg fun hok => hi hok.1.symm⟩
  | _ => exact ⟨if_neg fun hok => hi hok.1.symm, rfl⟩

/-! ## Sessions that come and go -/

/-- The sessions that a call takes out of the flow scheduler of tenant `i`. -/
def leaves (i : ℕ) (s : Scheduler) (c : Call) : List FlowSessionContext :=
  if c.asksSession then ((chosen s).filter (·.tenantId = i)).toList else []

/-- The sessions that a call enters into the flow scheduler of tenant `i`: the one that is
accepted, or the one that a dequeue puts back. -/
def enters (i : ℕ) (s : Scheduler) : Call → List FlowSessionContext
  | .enqueue j f (some w) now =>
      if j.toNat = i ∧ (respond s (.enqueue j f (some w) now)).status = .success then
        [newContext s s.mem.next j.toNat f.toNat w now.toNat]
      else []
  | .dequeue true _ =>
      match putBackPoint s with
      | some p => if p.2.1 = i ∧ takesBack p then [p.2.2] else []
      | none => []
  | _ => []

/-- What a call does to the flow scheduler of tenant `i`, which becomes `gs'`. -/
inductive FlowEffect (s : Scheduler) (c : Call) (i : ℕ) (t : Tenant)
    (gs' : GroupScheduler FlowSessionContext) : Prop
  | edited (retagged : Retagged (configuredFlow s i c) (retiredFlow s i c) t.flowScheduler gs')
      (left : leaves i s c = []) (entered : enters i s c = [])
  | accepted {j f : UInt32} {w : Session} {now : UInt64} {mem : Allocator} {x : FlowSessionContext}
      (call : c = .enqueue j f (some w) now) (tenant : j.toNat = i)
      (context : x = newContext s s.mem.next i f.toNat w now.toNat)
      (memory : s.mem.next ≤ mem.next) (fits : 0 < x.workSize ∧ x.workSize ≤ uint64Max)
      (success : (offerResult mem t x).status = .success) (result : gs' = (offerResult mem t x).gs)
      (left : leaves i s c = []) (entered : enters i s c = [x])
  | missed (asked : c.asksSession = true)
      (dequeued : groupSchedulerDequeue t.flowScheduler = (none, gs'))
      (left : leaves i s c = []) (entered : enters i s c = [])
  | putBack {q : SessionState FlowSessionContext} {x : FlowSessionContext}
      {flows : GroupScheduler FlowSessionContext} {s₁ : Scheduler} {t₁ : Tenant}
      (asked : c.asksSession = true) (taken : Taken s i t q x flows)
      (before : PutBack s s₁ i t t₁ x flows) (result : gs' = (putBackResult s₁ i t₁ x).gs)
      (left : leaves i s c = [x])
      (entered : enters i s c = if (putBackResult s₁ i t₁ x).status = .success then [x] else [])
  | delivered {q : SessionState FlowSessionContext} {x : FlowSessionContext}
      {flows : GroupScheduler FlowSessionContext}
      (asked : c.asksSession = true) (point : putBackPoint s = none) (taken : Taken s i t q x flows)
      (same : Undisturbed (groupSchedulerUpdateVirtualTime flows x.workSize) gs')
      (left : leaves i s c = [x]) (entered : enters i s c = [])

/-! ## Calls that leave the flow schedulers alone -/

/-- A tenant that is there before and after has its flow scheduler left alone. -/
def FlowsAgree (cores cores' : ℕ → Option Tenant) : Prop :=
  ∀ i t u, cores i = some t → cores' i = some u → Undisturbed t.flowScheduler u.flowScheduler

section Agree
variable {cores cores' : ℕ → Option Tenant}

theorem FlowsAgree.refl (cores : ℕ → Option Tenant) : FlowsAgree cores cores := by
  intro i t u ht hu
  rw [ht] at hu
  cases hu
  exact .refl t.flowScheduler

theorem FlowsAgree.update (cores : ℕ → Option Tenant) {j : ℕ} {v : Option Tenant}
    (hv : ∀ t u, cores j = some t → v = some u → Undisturbed t.flowScheduler u.flowScheduler) :
    FlowsAgree cores (Function.update cores j v) := by
  intro i t u ht hu
  by_cases hi : i = j
  · subst hi
    rw [Function.update_self] at hu
    exact hv t u ht hu
  · rw [Function.update_of_ne hi] at hu
    exact FlowsAgree.refl cores i t u ht hu

theorem FlowsAgree.mapStatsAt (h : FlowsAgree cores cores') (j flowId : ℕ) (f : Stats → Stats) :
    FlowsAgree cores (mapStatsAt cores' j flowId f) := by
  intro i t u ht hu
  unfold Hwfq.mapStatsAt at hu
  by_cases hi : i = j
  · subst hi
    rw [Function.update_self] at hu
    obtain ⟨v, hv, rfl⟩ := Option.map_eq_some_iff.mp hu
    exact (h i t v ht hv).same (v.mapStats_undisturbed flowId f)
  · rw [Function.update_of_ne hi] at hu
    exact h i t u ht hu

end Agree

/-- The calls that can reach a flow scheduler. -/
def Call.asksFlows : Call → Bool
  | .addFlow _ _ _ | .reconfigureFlow _ _ _ | .removeFlow _ _ | .enqueue _ _ _ _ => true
  | .dequeue _ _ => true
  | _ => false

theorem Effect.flowsAgree (h : Effect s c r s') (hc : c.asksFlows = false) :
    FlowsAgree s.cores s'.cores := by
  cases h with
  | idle _ _ tokens => exact tokens.cores ▸ .refl s.cores
  | @added a addr flows mem i _ admits _ _ _ _ _ =>
    rw [cores_of_tenants admits.tenants]
    apply FlowsAgree.update
    intro t u ht
    rw [Scheduler.cores, admits.free] at ht
    cases ht
  | @reallocated i a t tenant =>
    rw [Hwfq.reallocated, setTenant_cores]
    apply FlowsAgree.update
    intro t' u ht hu
    rw [cores_some tenant] at ht
    cases ht
    cases hu
    exact .refl t.flowScheduler
  | @removed i t =>
    have hcores : (tenantRemoved s i.toNat t).cores = Function.update s.cores i.toNat none :=
      cores_of_tenants (v := none) rfl
    rw [hcores]
    apply FlowsAgree.update
    intro t u _ hu
    cases hu
  | flows update => cases update <;> cases hc
  | completed _ stats ends =>
    rw [ends.cores]
    rcases stats with rfl | rfl
    · exact (FlowsAgree.refl s.cores).mapStatsAt _ _ _
    · exact ((FlowsAgree.refl s.cores).mapStatsAt _ _ _).mapStatsAt _ _ _
  | cancelled _ ends =>
    rw [ends.cores]
    exact (FlowsAgree.refl s.cores).mapStatsAt _ _ _
  | timedOut only =>
    have hcores : s'.cores = s.cores := by
      funext j
      rw [Scheduler.cores, only.tenants, Scheduler.cores]
    exact hcores ▸ .refl s.cores
  | reset reset =>
    intro i t u ht hu
    obtain ⟨t₀, ht₀, rfl⟩ := tenants_of_cores ht
    obtain ⟨u₀, hu₀, rfl⟩ := tenants_of_cores hu
    rcases reset.tenants i with ⟨hnone, -⟩ | ⟨t', u', ht', hu', hr⟩
    · rw [hnone] at ht₀
      cases ht₀
    · rw [ht₀] at ht'
      rw [hu₀] at hu'
      cases ht'
      cases hu'
      exact hr.undisturbed
  | _ => cases hc

/-! ## One call -/

section Calls
variable {t' : Tenant} (h : SchedulerInv s) (ht : s.tenants i = some t)

theorem FlowEffect.of_same (hset : configuredFlow s i c = none) (hdrop : retiredFlow s i c = none)
    {gs' : GroupScheduler FlowSessionContext} (hsame : Undisturbed t.flowScheduler gs')
    (hleft : leaves i s c = []) (hentered : enters i s c = []) : FlowEffect s c i t gs' := by
  apply FlowEffect.edited
  · rw [hset, hdrop]
    exact hsame
  · exact hleft
  · exact hentered

include ht in
/-- The tenant of another slot has changed. -/
theorem unmoved {j : ℕ} {u : Tenant} (hj : i ≠ j)
    (hcores : s'.cores = Function.update s.cores j (some u)) (ht' : s'.tenants i = some t') :
    Undisturbed t.flowScheduler t'.flowScheduler := by
  have hat := cores_some ht'
  rw [hcores, Function.update_of_ne hj, cores_some ht] at hat
  have hflows : t.core.flowScheduler = t'.core.flowScheduler :=
    congrArg Tenant.flowScheduler (Option.some.inj hat)
  exact Undisturbed.of_active (congrArg GroupScheduler.queueView hflows).symm
    (congrArg GroupScheduler.totalCapacity hflows).symm
    fun id => congrArg (activeEntry · id) hflows.symm

theorem flows_of_update {u : Tenant} (hcores : s'.cores = Function.update s.cores i (some u))
    (ht' : s'.tenants i = some t') : t'.flowScheduler = u.flowScheduler := by
  have hat := cores_some ht'
  rw [hcores, Function.update_self] at hat
  have hflows : t'.core.flowScheduler = u.flowScheduler :=
    congrArg Tenant.flowScheduler (Option.some.inj hat).symm
  exact hflows

include h ht in
theorem SchedulerInv.flowEdit_effect (hedit : c.editsFlows = true)
    (hflow : c.configuresTenant = false) (ht' : (Hwfq.after s c).tenants i = some t') :
    FlowEffect s c i t t'.flowScheduler := by
  have hleft : leaves i s c = [] := by
    cases c <;> first | rfl | cases hedit
  have hentered : enters i s c = [] := by
    cases c <;> first | rfl | cases hedit
  have hcall := h.effect c
  generalize hr : respond s c = r at hcall
  generalize Hwfq.after s c = s' at hcall ht'
  cases hcall with
  | idle failed _ tokens =>
    obtain ⟨hset, hdrop⟩ := no_flow_of_failed (hr ▸ failed) i
    have hsame := FlowsAgree.refl s.cores i t.core t'.core (cores_some ht)
      (tokens.cores ▸ cores_some ht')
    exact .of_same hset hdrop hsame hleft hentered
  | @flows j u _ _ gs _ _ update change =>
    have hcores := cores_of_tenants change.tenants
    by_cases hi : i = j.toNat
    · subst hi
      have hsame := change.tenant
      rw [ht] at hsame
      cases hsame
      apply FlowEffect.edited
      · rw [flows_of_update hcores ht']
        exact update.retagged hr (h.tenants _ t ht).flows
      · exact hleft
      · exact hentered
    · obtain ⟨hset, hdrop⟩ := update.elsewhere hi
      exact .of_same hset hdrop (unmoved ht hi hcores ht') hleft hentered
  | added => cases hflow
  | removed => cases hflow
  | _ => cases hedit

include h ht in
theorem SchedulerInv.enqueue_flowEffect (j f : UInt32) (work : Option Session) (now : UInt64)
    (ht' : (Hwfq.after s (.enqueue j f work now)).tenants i = some t') :
    FlowEffect s (.enqueue j f work now) i t t'.flowScheduler := by
  have hfailed : (respond s (.enqueue j f work now)).status ≠ .success →
      enters i s (.enqueue j f work now) = [] := by
    intro hbad
    cases work with
    | none => rfl
    | some w => exact if_neg fun hok => hbad hok.2
  have hstatus : (respond s (.enqueue j f work now)).status =
      (hwfqEnqueue s j.toNat f.toNat work now.toNat).1 := rfl
  rw [show Hwfq.after s (.enqueue j f work now) =
    (hwfqEnqueue s j.toNat f.toNat work now.toNat).2.2 from rfl] at ht'
  rcases h.enqueue j.toNat f.toNat work now.toNat with ⟨-, hbad, htok⟩ | ⟨s₁, u, x, hinv, hoff, heq⟩
  · have hsame := FlowsAgree.refl s.cores i t.core t'.core (cores_some ht)
      (htok.cores ▸ cores_some ht')
    exact .of_same rfl rfl hsame rfl (hfailed (hstatus ▸ hbad))
  have hoffer := hinv.offer (hoff.tenants ▸ hoff.tenant) hoff.context.1 hoff.context.2.2
  rw [← heq, hoff.allocated.cores] at hoffer
  obtain ⟨-, hoffered, hcase⟩ := hoffer
  rw [hoffered] at hstatus
  obtain ⟨w, rfl, hsize, hcontext⟩ := hoff.work
  by_cases hi : i = j.toNat
  · subst hi
    have hthere := hoff.tenant
    rw [ht] at hthere
    cases hthere
    have hnext : s.mem.next ≤ s₁.mem.next := (Nat.le_succ _).trans_eq hoff.created.symm
    rcases hcase with ⟨hok, hch⟩ | ⟨hbad, hch⟩
    · refine .accepted rfl rfl hcontext hnext hoff.context.2.2 hok (flows_of_update hch.cores ht') rfl ?_
      rw [enters, if_pos ⟨rfl, hstatus.trans hok⟩, hcontext]
    · refine .of_same rfl rfl ?_ rfl (hfailed (hstatus ▸ hbad))
      rw [flows_of_update hch.cores ht']
      exact (t.core.mapStats_undisturbed _ _).same (Tenant.mapStats_undisturbed _ _ _)
  · have hsame : Undisturbed t.flowScheduler t'.flowScheduler := by
      rcases hcase with ⟨-, hch⟩ | ⟨-, hch⟩
      · exact unmoved ht hi hch.cores ht'
      · exact unmoved ht hi hch.cores ht'
    exact .of_same rfl rfl hsame rfl (if_neg fun hok => hi hok.1.symm)

theorem leaves_asked {x : FlowSessionContext} (hchosen : chosen s = some x) (i : ℕ) (now : UInt64) :
    leaves i s (.dequeue true now) = if x.tenantId = i then [x] else [] := by
  have hasks : (Call.dequeue true now).asksSession = true := rfl
  rw [leaves, if_pos hasks, hchosen, Option.filter_some]
  by_cases hi : x.tenantId = i <;> simp [hi]

theorem leaves_refused (hchosen : chosen s = none) (i : ℕ) (now : UInt64) :
    leaves i s (.dequeue true now) = [] := by
  have hasks : (Call.dequeue true now).asksSession = true := rfl
  rw [leaves, if_pos hasks, hchosen]
  rfl

theorem enters_asked {s₁ : Scheduler} {k : ℕ} {x : FlowSessionContext} {t₁ : Tenant}
    (hpoint : putBackPoint s = some (s₁, k, x)) (ht₁ : s₁.tenants k = some t₁) (i : ℕ)
    (now : UInt64) : enters i s (.dequeue true now) =
      if k = i ∧ (putBackResult s₁ k t₁ x).status = .success then [x] else [] := by
  rw [enters, hpoint]
  exact if_congr (and_congr_right fun _ => takesBack_iff ht₁) rfl rfl

theorem enters_kept (hpoint : putBackPoint s = none) (i : ℕ) (now : UInt64) :
    enters i s (.dequeue true now) = [] := by
  rw [enters, hpoint]

include h ht in
theorem SchedulerInv.dequeue_flowEffect (now : UInt64)
    (ht' : (Hwfq.after s (.dequeue true now)).tenants i = some t') :
    FlowEffect s (.dequeue true now) i t t'.flowScheduler := by
  have hcall : DequeueEffect s true now.toNat _ _ (Hwfq.after s (.dequeue true now)) :=
    (h.dequeue true now.toNat).2
  have hnone : (hwfqDequeue s true now.toNat).1 ≠ .success → putBackPoint s = none →
      chosen s = none := by
    intro hbad hpoint
    cases hchosen : chosen s with
    | none => rfl
    | some x => exact absurd (dequeue_delivers (Option.isSome_of_eq_some hchosen) hpoint _) hbad
  generalize Hwfq.after s (.dequeue true now) = s' at hcall ht'
  generalize (hwfqDequeue s true now.toNat).1 = status at hcall hnone
  generalize (hwfqDequeue s true now.toNat).2.1 = delivery at hcall
  cases hcall with
  | refused failed point changes =>
    have hsame := FlowsAgree.refl s.cores i t.core t'.core (cores_some ht)
      (changes.cores ▸ cores_some ht')
    have hchosen := hnone failed (point rfl)
    exact .of_same rfl rfl hsame (leaves_refused hchosen i now) (enters_kept (point rfl) i now)
  | @missed _ k u gs _ failed point tenant dequeued changes =>
    have hchosen := hnone failed (point rfl)
    have hleft := leaves_refused hchosen i now
    have hentered := enters_kept (point rfl) i now
    by_cases hi : i = k
    · subst hi
      rw [ht] at tenant
      cases tenant
      rw [flows_of_update changes.cores ht']
      exact .missed rfl dequeued hleft hentered
    · exact .of_same rfl rfl (unmoved ht hi changes.cores ht') hleft hentered
  | @putBack _ k u t₁ q x gs s₁ failed _ taken back =>
    have hcores := (back.changes_all taken).cores
    have hleft := leaves_asked taken.chosen i now
    have hentered := enters_asked back.point back.tenant i now
    rw [taken.carries.tenant] at hleft
    by_cases hi : i = k
    · subst hi
      rw [if_pos rfl] at hleft
      have hsame := taken.tenant
      rw [ht] at hsame
      cases hsame
      refine .putBack rfl taken back (flows_of_update hcores ht') hleft ?_
      rw [hentered]
      exact if_congr (and_iff_right rfl) rfl rfl
    · rw [if_neg (Ne.symm hi)] at hleft
      rw [if_neg fun hok => hi hok.1.symm] at hentered
      exact .of_same rfl rfl (unmoved ht hi hcores ht') hleft hentered
  | @delivered k u u' q x gs _ _ taken delivers =>
    have hleft := leaves_asked taken.chosen i now
    have hentered := enters_kept delivers.point i now
    rw [taken.carries.tenant] at hleft
    by_cases hi : i = k
    · subst hi
      rw [if_pos rfl] at hleft
      have hsame := taken.tenant
      rw [ht] at hsame
      cases hsame
      refine .delivered rfl delivers.point taken ?_ hleft hentered
      rw [flows_of_update delivers.cores ht']
      rcases delivers.tenant with rfl | ⟨w, rfl⟩
      · exact .refl _
      · exact Tenant.mapStats_undisturbed
          { t.core with flowScheduler := groupSchedulerUpdateVirtualTime gs x.workSize } _ _
    · rw [if_neg (Ne.symm hi)] at hleft
      exact .of_same rfl rfl (unmoved ht hi delivers.cores ht') hleft hentered

include h ht in
/-- What a call does to the flow scheduler of a tenant that is there before and after it. -/
theorem SchedulerInv.flowEffect (ht' : (Hwfq.after s c).tenants i = some t') :
    FlowEffect s c i t t'.flowScheduler := by
  cases hasks : c.asksFlows with
  | false =>
    have hsame := (h.effect c).flowsAgree hasks i t.core t'.core (cores_some ht) (cores_some ht')
    cases c with
    | addTenant | configureTenant | removeTenant | complete | cancel | checkTimeouts | resetStats =>
      exact .of_same rfl rfl hsame rfl rfl
    | _ => cases hasks
  | true =>
    cases c with
    | addFlow => exact h.flowEdit_effect ht rfl rfl ht'
    | reconfigureFlow => exact h.flowEdit_effect ht rfl rfl ht'
    | removeFlow => exact h.flowEdit_effect ht rfl rfl ht'
    | enqueue j f work now => exact h.enqueue_flowEffect ht j f work now ht'
    | dequeue out now =>
      cases out with
      | true => exact h.dequeue_flowEffect ht now ht'
      | false =>
        rw [show Hwfq.after s (.dequeue false now) = s from rfl, ht] at ht'
        cases ht'
        exact .of_same rfl rfl (.refl t.flowScheduler) rfl rfl
    | _ => cases hasks

end Calls

/-! ## Tenants that come and go -/

/-- What a call that edits tenants or flows does to the slots. -/
inductive SlotEffect (s : Scheduler) : Call → Response → (ℕ → Option Tenant) → Prop
  | same {c : Call} {r : Response} : SlotEffect s c r s.cores
  | added {c : Call} {r : Response} {j cap maxEntries : ℕ} {u : Tenant} {mem : Allocator}
      (free : s.tenants j = none) (fresh : Fresh s.numGroups s.binsPerGroup cap maxEntries
        (⟨mem, u.flowScheduler⟩ : GroupState FlowSessionContext)) :
      SlotEffect s c r (Function.update s.cores j (some u))
  | freed {j : UInt32} {r : Response} (success : r.status = .success) :
      SlotEffect s (.removeTenant j) r (Function.update s.cores j.toNat none)
  | changed {c : Call} {r : Response} {j : ℕ} {t u : Tenant} (tenant : s.tenants j = some t) :
      SlotEffect s c r (Function.update s.cores j (some u))

theorem Effect.slots (h : Effect s c r s') (hedit : c.editsFlows = true) :
    SlotEffect s c r s'.cores := by
  cases h with
  | idle _ _ tokens => exact tokens.cores ▸ .same
  | added admits _ _ _ _ fresh => exact cores_of_tenants admits.tenants ▸ .added admits.free fresh
  | @removed j u =>
    have hcores : (Hwfq.tenantRemoved s j.toNat u).cores = Function.update s.cores j.toNat none :=
      cores_of_tenants (v := none) rfl
    exact hcores ▸ .freed rfl
  | flows _ change => exact cores_of_tenants change.tenants ▸ .changed change.tenant
  | _ => cases hedit

section Slots
variable (h : SchedulerInv s)
include h

/-- A dequeue takes a session of a tenant that is there, and puts it back to that one. -/
theorem SchedulerInv.asked_tenant : (chosen s = none ∧ putBackPoint s = none) ∨
    ∃ x, chosen s = some x ∧ (s.tenants x.tenantId).isSome = true ∧
      ∀ p ∈ putBackPoint s, p.2.1 = x.tenantId := by
  rcases h.select with ⟨system, -, heq, -⟩ | ⟨token, system, t, flows, -, ht, -, hinv, hcase⟩
  · left
    refine ⟨?_, putBackPoint_refused heq⟩
    rw [chosen, heq]
  rcases hcase with ⟨-, heq⟩ | ⟨q, x, htake, hcar, heq⟩
  · left
    refine ⟨?_, putBackPoint_refused heq⟩
    rw [chosen, heq]
  · right
    have hsel := Selected.of_select ht htake hcar heq hinv
    refine ⟨x, hsel.taken.chosen, ?_, ?_⟩
    · rw [hcar.tenant, ht]
      rfl
    · intro p hp
      rw [hsel.putBackPoint_eq, Option.mem_def] at hp
      rw [hcar.tenant]
      by_cases hcap : overCapacity (afterSelect s system token.entryId t flows) x = true
      · rw [if_pos hcap] at hp
        cases hp
        rfl
      · rw [if_neg hcap] at hp
        split at hp
        · cases hp
          rfl
        · cases hp

/-- Nothing enters or leaves a slot that is free. -/
theorem SchedulerInv.quiet_slot (hnone : s.tenants i = none) (c : Call) :
    leaves i s c = [] ∧ enters i s c = [] := by
  cases c with
  | dequeue out now =>
    cases out with
    | false => exact ⟨rfl, rfl⟩
    | true =>
      rcases h.asked_tenant with ⟨hchosen, hpoint⟩ | ⟨x, hchosen, hthere, hback⟩
      · exact ⟨leaves_refused hchosen i now, enters_kept hpoint i now⟩
      · have hne : x.tenantId ≠ i := by
          intro heq
          rw [heq, hnone] at hthere
          cases hthere
        constructor
        · rw [leaves_asked hchosen, if_neg hne]
        · rw [enters]
          cases hpoint : putBackPoint s with
          | none => rfl
          | some p => exact if_neg fun hok => hne ((hback p hpoint).symm.trans hok.1)
  | enqueue j f work now =>
    refine ⟨rfl, ?_⟩
    cases work with
    | none => rfl
    | some w =>
      apply if_neg
      rintro ⟨hj, hok⟩
      have hcall := h.effect (.enqueue j f (some w) now)
      generalize respond s (.enqueue j f (some w) now) = r at hcall hok
      generalize Hwfq.after s (.enqueue j f (some w) now) = s' at hcall
      cases hcall with
      | idle failed => exact failed hok
      | accepted tenant =>
        rw [hj, hnone] at tenant
        cases tenant
      | rejected _ _ failed => exact failed hok
      | _ => contradiction
  | _ => exact ⟨rfl, rfl⟩

/-- A tenant comes with a fresh flow scheduler. -/
theorem SchedulerInv.new_slot {t' : Tenant} (hnone : s.tenants i = none)
    (ht' : (Hwfq.after s c).tenants i = some t') :
    ∃ cap maxEntries mem, Fresh s.numGroups s.binsPerGroup cap maxEntries
      (⟨mem, t'.flowScheduler⟩ : GroupState FlowSessionContext) := by
  have hcore : s.cores i = none := by
    rw [Scheduler.cores, hnone]
    rfl
  have hat := cores_some ht'
  cases hedit : c.editsFlows with
  | false =>
    have hfollow := (h.effect c).tenantsFollow hedit i
    rw [hcore, hat] at hfollow
    cases hfollow
  | true =>
    have hslots := (h.effect c).slots hedit
    generalize (Hwfq.after s c).cores = cores at hslots hat
    cases hslots with
    | same =>
      rw [hcore] at hat
      cases hat
    | freed =>
      rw [Function.update_apply] at hat
      split_ifs at hat
      rw [hcore] at hat
      cases hat
    | @added _ _ _ cap maxEntries u mem _ fresh =>
      rw [Function.update_apply] at hat
      split_ifs at hat
      · have hflows : u.flowScheduler = t'.core.flowScheduler :=
          congrArg Tenant.flowScheduler (Option.some.inj hat)
        rw [hflows] at fresh
        exact ⟨cap, maxEntries, mem, fresh⟩
      · rw [hcore] at hat
        cases hat
    | @changed _ _ j t u tenant =>
      rw [Function.update_apply] at hat
      split_ifs at hat with hi
      · rw [hi, tenant] at hnone
        cases hnone
      · rw [hcore] at hat
        cases hat

/-- A tenant goes when it is removed. -/
theorem SchedulerInv.freed_slot (ht : s.tenants i = some t)
    (hnone : (Hwfq.after s c).tenants i = none) :
    ∃ j, c = .removeTenant j ∧ j.toNat = i ∧ (respond s c).status = .success := by
  have hcore := cores_some ht
  have hat : (Hwfq.after s c).cores i = none := by
    rw [Scheduler.cores, hnone]
    rfl
  cases hedit : c.editsFlows with
  | false =>
    have hfollow := (h.effect c).tenantsFollow hedit i
    rw [hcore, hat] at hfollow
    cases hfollow
  | true =>
    have hslots := (h.effect c).slots hedit
    generalize (Hwfq.after s c).cores = cores at hslots hat
    cases hslots with
    | same =>
      rw [hcore] at hat
      cases hat
    | @freed j _ success =>
      by_cases hi : i = j.toNat
      · exact ⟨j, rfl, hi.symm, success⟩
      · rw [Function.update_of_ne hi, hcore] at hat
        cases hat
    | _ =>
      rw [Function.update_apply] at hat
      split_ifs at hat
      rw [hcore] at hat
      cases hat

end Slots

end Hwfq
