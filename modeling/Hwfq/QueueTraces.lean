import Hwfq.CallEffects
import Hwfq.TenantShares

/-!
# Traces of the queues

A call that configures no tenant works on the system scheduler through its queue only:
it puts tokens in, takes tokens out and moves the clock. A call that adds and removes no
flow works on the flow schedulers in the same way, and on the statistics.
-/
namespace Hwfq

/-! ## Traces of one queue -/

/-- `gs'` comes from `gs` by enqueues, dequeues and updates of the clock. -/
inductive QueueTrace {α : Type*} : GroupScheduler α → GroupScheduler α → Prop
  | refl (gs : GroupScheduler α) : QueueTrace gs gs
  | enqueue {gs gs' : GroupScheduler α} (mem : Allocator) (id w : ℕ) (ud : Option α) (cf : Bool) :
      QueueTrace gs gs' → QueueTrace gs (groupSchedulerEnqueue mem gs' id w ud cf).gs
  | dequeue {gs gs' : GroupScheduler α} :
      QueueTrace gs gs' → QueueTrace gs (groupSchedulerDequeue gs').2
  | update {gs gs' : GroupScheduler α} (w : ℕ) :
      QueueTrace gs gs' → QueueTrace gs (groupSchedulerUpdateVirtualTime gs' w)

section Traces
variable {α : Type*} {gs gs' gs'' : GroupScheduler α}

theorem QueueTrace.trans (h : QueueTrace gs gs') (h' : QueueTrace gs' gs'') : QueueTrace gs gs'' := by
  induction h' with
  | refl => exact h
  | enqueue mem id w ud cf _ ih => exact ih.enqueue mem id w ud cf
  | dequeue _ ih => exact ih.dequeue
  | update w _ ih => exact ih.update w

/-- `gs'` comes from `gs` by enqueues of tokens. -/
inductive TokenTrace : GroupScheduler α → GroupScheduler α → Prop
  | refl (gs : GroupScheduler α) : TokenTrace gs gs
  | enqueue {gs gs' : GroupScheduler α} (mem : Allocator) (id : ℕ) (ud : Option α) (cf : Bool) :
      TokenTrace gs gs' → TokenTrace gs (groupSchedulerEnqueue mem gs' id tenantQuantumSize ud cf).gs

theorem TokenTrace.trans (h : TokenTrace gs gs') (h' : TokenTrace gs' gs'') : TokenTrace gs gs'' := by
  induction h' with
  | refl => exact h
  | enqueue mem id ud cf _ ih => exact ih.enqueue mem id ud cf

theorem TokenTrace.queueTrace (h : TokenTrace gs gs') : QueueTrace gs gs' := by
  induction h with
  | refl => exact .refl _
  | enqueue mem id ud cf _ ih => exact ih.enqueue mem id tenantQuantumSize ud cf

end Traces

variable {s s' s₁ : Scheduler} {c : Call} {r : Response} {i : ℕ} {t : Tenant}

/-- The system scheduler of `s'` comes from that of `s` by tokens put in. -/
def Registers (s s' : Scheduler) : Prop := TokenTrace s.systemScheduler s'.systemScheduler

theorem Registers.of_eq (h : s'.systemScheduler = s.systemScheduler) : Registers s s' := by
  unfold Registers
  rw [h]
  exact .refl _

theorem Registers.trans {s₂ : Scheduler} (h : Registers s s₁) (h' : Registers s₁ s₂) :
    Registers s s₂ := TokenTrace.trans h h'

theorem Registers.register (s : Scheduler) (i : ℕ) :
    Registers s (registerTenantBacklog s i).2 := by
  have hstep : ∀ t : Tenant, Registers s { s with systemScheduler :=
      (groupSchedulerEnqueue s.mem s.systemScheduler t.tenantId tenantQuantumSize (some t.ptr)
        false).gs } := fun t =>
    (TokenTrace.refl s.systemScheduler).enqueue s.mem t.tenantId (some t.ptr) false
  unfold registerTenantBacklog
  cases s.tenants i with
  | none => exact .of_eq rfl
  | some t =>
    dsimp only
    split_ifs
    · exact .of_eq rfl
    · exact hstep t
    · exact hstep t

theorem Registers.putBack (s : Scheduler) (i : ℕ) (x : FlowSessionContext) :
    Registers s (putBack s i x) := by
  have hreg := Registers.register s i
  unfold Hwfq.putBack
  dsimp only
  cases (registerTenantBacklog s i).2.tenants i with
  | none => exact hreg
  | some t => exact hreg

theorem chargeFlow_system (s : Scheduler) (i w : ℕ) :
    (chargeFlow s i w).systemScheduler = s.systemScheduler := by
  unfold chargeFlow
  cases s.tenants i <;> rfl

theorem recordWait_system (s : Scheduler) (i : ℕ) (x : FlowSessionContext) (now : ℕ) :
    (recordWait s i x now).systemScheduler = s.systemScheduler := by
  unfold recordWait
  cases s.tenants i with
  | none => rfl
  | some t =>
    dsimp only
    split_ifs <;> rfl

theorem updateStats_system (s : Scheduler) (tenantId flowId : ℕ) (f : Stats → Stats) :
    (updateStats s tenantId flowId f).systemScheduler = s.systemScheduler := by
  unfold updateStats
  split_ifs
  · cases s.tenants tenantId <;> rfl
  · rfl

theorem Registers.registerIfBacklogged (s : Scheduler) (i : ℕ) :
    Registers s (registerIfBacklogged s i) := by
  unfold Hwfq.registerIfBacklogged
  cases s.tenants i with
  | none => exact .of_eq rfl
  | some t =>
    dsimp only
    split_ifs
    · exact .of_eq rfl
    · exact .register s i

theorem Registers.serveCompleted (s : Scheduler) (i : ℕ) :
    Registers s (serveCompleted s i).2 := by
  unfold Hwfq.serveCompleted
  split_ifs
  · cases s.tenants i with
    | none => exact .of_eq rfl
    | some t =>
      dsimp only
      split_ifs
      · exact .of_eq rfl
      · exact .register s i
  · exact .of_eq rfl

theorem Registers.enqueue (s : Scheduler) (tenantId flowId : ℕ) (work : Option Session)
    (now : ℕ) : Registers s (hwfqEnqueue s tenantId flowId work now).2.2 := by
  have hoffer : ∀ (s₁ : Scheduler) (t : Tenant) (x : FlowSessionContext),
      Registers s₁ (offerSession s₁ tenantId flowId t x).2.2 := by
    intro s₁ t x
    unfold offerSession
    dsimp only
    split_ifs
    · refine Registers.trans ?_ (.register _ tenantId)
      exact .of_eq rfl
    · exact .of_eq rfl
  unfold hwfqEnqueue
  cases work with
  | none => exact .of_eq rfl
  | some w =>
    dsimp only
    split_ifs
    · exact .of_eq rfl
    · exact .of_eq rfl
    · exact .of_eq rfl
    · cases s.configuredTenant tenantId with
      | none => exact .of_eq rfl
      | some t =>
        dsimp only
        split_ifs
        · exact .of_eq rfl
        · split
          · exact .of_eq rfl
          · rename_i addr mem _
            have hstart : Registers s { s with mem := mem } := .of_eq rfl
            exact hstart.trans (hoffer _ t _)

/-- The system scheduler of `s'` comes from that of `s` through its queue. -/
def SystemTrace (s s' : Scheduler) : Prop := QueueTrace s.systemScheduler s'.systemScheduler

theorem SystemTrace.of_eq (h : s'.systemScheduler = s.systemScheduler) : SystemTrace s s' := by
  unfold SystemTrace
  rw [h]
  exact .refl _

theorem SystemTrace.registers {s₂ : Scheduler} (h : SystemTrace s s₁) (h' : Registers s₁ s₂) :
    SystemTrace s s₂ := QueueTrace.trans h h'.queueTrace

theorem SystemTrace.select (s : Scheduler) : SystemTrace s (dequeueSelect s).2 := by
  have htake := (QueueTrace.refl s.systemScheduler).dequeue
  unfold dequeueSelect SystemTrace
  split_ifs
  · exact .refl _
  generalize groupSchedulerDequeue s.systemScheduler = taken at htake
  obtain ⟨token, system⟩ := taken
  cases token with
  | none => exact htake
  | some token =>
    dsimp only
    split
    · exact htake
    · rename_i t _
      have hcharge := htake.update token.workSize
      generalize groupSchedulerDequeue t.flowScheduler = session
      obtain ⟨session, flows⟩ := session
      cases session.bind (·.userData) with
      | none => exact hcharge
      | some x => exact hcharge

theorem SystemTrace.hwfqDequeue (s : Scheduler) (out : Bool) (now : ℕ) :
    SystemTrace s (hwfqDequeue s out now).2.2 := by
  have hselect := SystemTrace.select s
  unfold Hwfq.hwfqDequeue
  split_ifs
  · exact .of_eq rfl
  generalize dequeueSelect s = selected at hselect ⊢
  obtain ⟨selection, s₁⟩ := selected
  cases selection with
  | refused status => exact hselect
  | selected i x =>
    dsimp only at hselect ⊢
    split_ifs
    · exact hselect.registers (.putBack s₁ i x)
    have hcharge := hselect.registers (.of_eq (chargeFlow_system s₁ i x.workSize))
    generalize chargeFlow s₁ i x.workSize = s₂ at hcharge ⊢
    split
    · rename_i mem _
      have hfail : SystemTrace s { s₂ with mem := mem } := hcharge
      exact hfail.registers (.putBack _ i x)
    · rename_i addr mem _
      have hadd : SystemTrace s (addInFlight { s₂ with mem := mem } (newInFlightEntry x addr now)) :=
        hcharge
      unfold deliverSession
      dsimp only
      have hwait := hadd.registers (.of_eq (recordWait_system _ i x now))
      exact hwait.registers (.registerIfBacklogged _ i)

theorem Registers.complete (s : Scheduler) (work : Option Session) (tenantId flowId : ℕ) :
    Registers s (hwfqComplete s work tenantId flowId).2.2 := by
  unfold hwfqComplete
  cases inFlightLookup s work tenantId flowId with
  | none => exact .of_eq rfl
  | some found =>
    dsimp only
    have hdown : Registers s (updateStats (takeInFlight s found) tenantId flowId
        Stats.backlogDownIfPositive) := .of_eq (updateStats_system _ _ _ _)
    generalize updateStats (takeInFlight s found) tenantId flowId Stats.backlogDownIfPositive = s₁
      at hdown ⊢
    split_ifs
    · exact (hdown.trans (.of_eq (updateStats_system _ _ _ _))).trans (.serveCompleted _ tenantId)
    · exact hdown.trans (.serveCompleted s₁ tenantId)

theorem cancel_system (s : Scheduler) (work : Option Session) (tenantId flowId : ℕ) :
    (hwfqCancel s work tenantId flowId).2.2.systemScheduler = s.systemScheduler := by
  unfold hwfqCancel
  cases inFlightLookup s work tenantId flowId with
  | none => rfl
  | some found => exact updateStats_system (takeInFlight s found) found.tenantId found.flowId _

/-- A call that adds, changes or removes a tenant. -/
def Call.configuresTenant : Call → Bool
  | .addTenant _ _ => true
  | .configureTenant _ _ => true
  | .removeTenant _ => true
  | _ => false

/-- A call that adds, changes or removes a flow, or all flows of a tenant. -/
def Call.editsFlows : Call → Bool
  | .addTenant _ _ => true
  | .removeTenant _ => true
  | .addFlow _ _ _ => true
  | .reconfigureFlow _ _ _ => true
  | .removeFlow _ _ => true
  | _ => false

/-- The system scheduler knows nothing of flows. -/
theorem SchedulerInv.flowEdit_system (h : SchedulerInv s) (hc : c.configuresTenant = false)
    (hedit : c.editsFlows = true) : (Hwfq.after s c).systemScheduler = s.systemScheduler := by
  cases c with
  | addFlow i a out =>
    rcases (h.addFlow i.toNat a out).2 with ⟨-, heq⟩ | ⟨a, t, ret, mem, flows, -, -, -, -, -,
      ⟨e, -, -, -, hch⟩ | ⟨id, flows', -, -, ⟨-, -, hch⟩ | ⟨-, -, hch⟩⟩⟩
    · exact congrArg (fun r => r.2.systemScheduler) heq
    · exact hch.systemScheduler
    · exact hch.systemScheduler
    · exact hch.systemScheduler
  | reconfigureFlow i f a =>
    rcases (h.reconfigureFlow i.toNat f.toNat a).2 with ⟨-, heq⟩ | ⟨a, t, -, -, -, -, -, hch⟩
    · exact congrArg Scheduler.systemScheduler heq
    · exact hch.systemScheduler
  | removeFlow i f =>
    rcases (h.removeFlow i.toNat f.toNat).2 with ⟨-, heq⟩ | ⟨t, entry, -, -, -, -, hch⟩
    · exact congrArg Scheduler.systemScheduler heq
    · exact hch.systemScheduler
  | addTenant a out => cases hc
  | removeTenant i => cases hc
  | _ => cases hedit

/-- A call that asks for no session at most puts tokens in. -/
theorem SchedulerInv.registers (h : SchedulerInv s) (hc : c.configuresTenant = false)
    (hquiet : c.asksSession = false) : Registers s (Hwfq.after s c) := by
  by_cases hedit : c.editsFlows = true
  · exact .of_eq (h.flowEdit_system hc hedit)
  cases c with
  | enqueue i f work now => exact .enqueue s i.toNat f.toNat work now.toNat
  | dequeue out now =>
    obtain rfl : out = false := hquiet
    exact .of_eq rfl
  | complete i f work => exact .complete s work i.toNat f.toNat
  | cancel i f work => exact .of_eq (cancel_system s work i.toNat f.toNat)
  | checkTimeouts now => exact .of_eq (h.checkTimeouts now.toNat).2.1.systemScheduler
  | resetStats i f =>
    have hsame := congrArg Scheduler.systemScheduler (resetStats_reset s i.toNat f.toNat).same
    exact .of_eq hsame
  | configureTenant i a => cases hc
  | _ => exact absurd rfl hedit

theorem SchedulerInv.systemTrace (h : SchedulerInv s) (hc : c.configuresTenant = false) :
    SystemTrace s (Hwfq.after s c) := by
  by_cases hquiet : c.asksSession = false
  · exact (h.registers hc hquiet).queueTrace
  · cases c with
    | dequeue out now => exact .hwfqDequeue s out now.toNat
    | _ => exact absurd rfl hquiet

/-! ## Traces of the tenants -/

/-- What a call does to statistics, resets apart. -/
inductive StatsUpdate : Call → (Stats → Stats) → Prop
  | backlogUp {i f work now} : StatsUpdate (.enqueue i f work now) Stats.backlogUp
  | backlogDown {i f work now} : StatsUpdate (.enqueue i f work now) Stats.backlogDown
  | addWait {out now} (waitTimeNs : ℕ) :
      StatsUpdate (.dequeue out now) (Stats.addWait waitTimeNs)
  | completed {i f work} : StatsUpdate (.complete i f work) Stats.backlogDownIfPositive
  | addCompletion {i f work} (workSize : ℕ) :
      StatsUpdate (.complete i f work) (Stats.addCompletion workSize)
  | cancelled {i f work} : StatsUpdate (.cancel i f work) Stats.backlogDownIfPositive

def Call.resetsStats : Call → Bool
  | .resetStats _ _ => true
  | _ => false

/-- `u` comes from `t` by traces of its queue, the updates of statistics that call `c`
makes, and changes of the allocation. -/
inductive TenantTrace (c : Call) (t : Tenant) : Tenant → Prop
  | refl : TenantTrace c t t
  | queue {u : Tenant} {flows : GroupScheduler FlowSessionContext} (h : TenantTrace c t u)
      (trace : QueueTrace u.flowScheduler flows) : TenantTrace c t { u with flowScheduler := flows }
  | stats {u : Tenant} {f : Stats → Stats} (h : TenantTrace c t u) (flowId : ℕ)
      (update : StatsUpdate c f) : TenantTrace c t (u.mapStats flowId f)
  | reset {u u' : Tenant} (h : TenantTrace c t u) (resets : c.resetsStats = true)
      (reset : TenantReset u u') : TenantTrace c t u'
  | allocation {u : Tenant} (h : TenantTrace c t u) (a : Allocation) :
      TenantTrace c t { u with allocation := a }

/-- The same tenants are there, each with a trace from the earlier one. -/
def TenantsFollow (c : Call) (cores cores' : ℕ → Option Tenant) : Prop :=
  ∀ i, Option.Rel (TenantTrace c) (cores i) (cores' i)

section Follow
variable {cores cores' : ℕ → Option Tenant}

theorem TenantsFollow.refl (c : Call) (cores : ℕ → Option Tenant) : TenantsFollow c cores cores := by
  intro i
  cases cores i with
  | none => exact .none
  | some t => exact .some .refl

theorem TenantsFollow.write {u u' : Tenant} (h : TenantsFollow c cores cores') (hu : cores i = some u)
    (hu' : TenantTrace c u u') : TenantsFollow c cores (Function.update cores' i (some u')) := by
  intro j
  by_cases hj : j = i
  · subst hj
    rw [Function.update_self, hu]
    exact .some hu'
  · rw [Function.update_of_ne hj]
    exact h j

theorem TenantsFollow.mapStatsAt (h : TenantsFollow c cores cores') (i flowId : ℕ)
    {f : Stats → Stats} (update : StatsUpdate c f) :
    TenantsFollow c cores (mapStatsAt cores' i flowId f) := by
  intro j
  have hj := h j
  unfold Hwfq.mapStatsAt
  by_cases hji : j = i
  · subst hji
    rw [Function.update_self]
    generalize cores j = u at hj ⊢
    generalize cores' j = u' at hj ⊢
    cases hj with
    | none => exact .none
    | some htrace => exact .some (htrace.stats flowId update)
  · rw [Function.update_of_ne hji]
    exact hj

/-- What every tenant keeps along its trace. -/
theorem TenantsFollow.every {P : Tenant → Prop} (h : TenantsFollow c cores cores')
    (hP : ∀ t u, P t → TenantTrace c t u → P u) (hs : EveryTenant P cores) :
    EveryTenant P cores' := by
  intro i u hu
  have hi := h i
  rw [hu] at hi
  cases ht : cores i with
  | none =>
    rw [ht] at hi
    cases hi
  | some t =>
    rw [ht] at hi
    cases hi with
    | some htrace => exact hP t u (hs i t ht) htrace

end Follow

theorem Taken.tenantTrace {q : SessionState FlowSessionContext} {x : FlowSessionContext}
    {flows : GroupScheduler FlowSessionContext} (h : Taken s i t q x flows) :
    QueueTrace t.flowScheduler flows := by
  have htrace := (QueueTrace.refl t.flowScheduler).dequeue
  rw [h.dequeued] at htrace
  exact htrace

theorem Effect.tenantsFollow (h : Effect s c r s') (hc : c.editsFlows = false) :
    TenantsFollow c s.cores s'.cores := by
  have hwrite : ∀ {i : ℕ} {t u : Tenant} {cores : ℕ → Option Tenant}, s.tenants i = some t →
      cores = Function.update s.cores i (some u) → TenantTrace c t.core u →
      TenantsFollow c s.cores cores := by
    intro i t u cores ht hcores htrace
    rw [hcores]
    exact (TenantsFollow.refl _ s.cores).write (cores_some ht) htrace
  cases h with
  | idle _ _ tokens => exact tokens.cores ▸ .refl _ _
  | added => cases hc
  | @reallocated i a t tenant _ _ =>
    exact hwrite tenant (setTenant_cores _ _ _) (TenantTrace.refl.allocation a)
  | removed => cases hc
  | flows update => cases update <;> cases hc
  | @accepted i f w now t x mem callbacks _ tenant _ _ _ _ _ changes =>
    have hup : TenantTrace (.enqueue i f (some w) now) t.core _ :=
      TenantTrace.refl.stats x.flowId .backlogUp
    exact hwrite tenant changes.cores (hup.queue ((QueueTrace.refl _).enqueue _ _ _ _ _))
  | rejected tenant _ _ _ changes =>
    exact hwrite tenant changes.cores ((TenantTrace.refl.stats _ .backlogUp).stats _ .backlogDown)
  | @missed _ _ i t flows _ _ tenant dequeued _ _ changes =>
    have htrace := (QueueTrace.refl t.flowScheduler).dequeue
    rw [dequeued] at htrace
    exact hwrite tenant changes.cores ((TenantTrace.refl (t := t.core)).queue htrace)
  | @putBack _ i t q x flows s₁ t₁ _ taken before =>
    refine hwrite taken.tenant (before.changes_all taken).cores
      ((TenantTrace.refl (t := t.core)).queue (QueueTrace.enqueue _ _ _ _ _ ?_))
    rcases before.flows with hsame | hcharged
    · exact hsame ▸ taken.tenantTrace
    · exact hcharged ▸ taken.tenantTrace.update x.workSize
  | @delivered now i t q x flows t' _ taken delivers =>
    have hcharged : TenantTrace (.dequeue true now) t.core _ :=
      TenantTrace.refl.queue (taken.tenantTrace.update x.workSize)
    refine hwrite taken.tenant delivers.cores ?_
    rcases delivers.tenant with rfl | ⟨w, rfl⟩
    · exact hcharged
    · exact hcharged.stats x.flowId (.addWait w)
  | @completed i f work found _ _ _ _ stats ends =>
    have hdown : TenantsFollow (.complete i f work) s.cores
        (Hwfq.mapStatsAt s.cores i.toNat f.toNat Stats.backlogDownIfPositive) :=
      (TenantsFollow.refl _ s.cores).mapStatsAt _ _ .completed
    rw [ends.cores]
    rcases stats with rfl | rfl
    · exact hdown
    · exact hdown.mapStatsAt _ _ (.addCompletion found.workSize)
  | cancelled _ ends =>
    exact ends.cores ▸ (TenantsFollow.refl _ s.cores).mapStatsAt _ _ .cancelled
  | timedOut only =>
    have hcores : s'.cores = s.cores := by
      funext j
      rw [Scheduler.cores, only.tenants, Scheduler.cores]
    exact hcores ▸ .refl _ _
  | reset reset =>
    intro i
    rw [Scheduler.cores, Scheduler.cores]
    rcases reset.tenants i with ⟨hnone, hnone'⟩ | ⟨t, t', ht, ht', hr⟩
    · rw [hnone, hnone']
      exact .none
    · rw [ht, ht', Option.map_some, Option.map_some]
      have hcore : TenantReset t.core t'.core :=
        ⟨congrArg Tenant.core hr.same, hr.backlog, hr.entries⟩
      exact .some (TenantTrace.refl.reset rfl hcore)

end Hwfq
