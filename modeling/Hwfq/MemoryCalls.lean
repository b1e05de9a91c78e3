import Hwfq.MemoryLedger

/-!
# What the calls do to memory

One lemma for each function: what it holds before and after, beside what has an owner, and
what it frees. Only a session that a dequeue puts back in vain is still held at the end.
-/
namespace Hwfq
open BlockTallies

variable {s s₁ : Scheduler} {i : ℕ} {t : Tenant}

/-! ## Tokens and put-backs -/

theorem register_cores (s : Scheduler) (i : ℕ) : (registerTenantBacklog s i).2.cores = s.cores := by
  unfold registerTenantBacklog
  cases ht : s.tenants i with
  | none => rfl
  | some t =>
    dsimp only
    split_ifs
    · rfl
    · rw [setTenant_cores]
      exact Function.update_eq_self_iff.mpr (cores_some ht).symm
    · rfl

theorem Paid.register (s : Scheduler) (i : ℕ) (b : SchedulerBlocks) (held : Multiset ℕ) :
    Paid s (registerTenantBacklog s i).2 b b held held (registerFrees s i) := by
  have hshape := (Registers.register s i).queueTrace.shape
  have hcores := register_cores s i
  unfold registerFrees
  unfold registerTenantBacklog at hshape hcores ⊢
  cases ht : s.tenants i with
  | none => exact .refl s b held
  | some t =>
    rw [ht] at hshape hcores
    dsimp only at hshape hcores ⊢
    have htally := (groupEnqueue_tally s.mem s.systemScheduler t.tenantId tenantQuantumSize
      (some t.ptr) false).frame held
    split_ifs at hshape hcores ⊢
    · exact .refl s b held
    · exact .tokens hcores rfl rfl hshape htally
    · exact .tokens hcores rfl rfl hshape htally

theorem flowsEnqueue_tally (mem : Allocator) (flows : GroupScheduler FlowSessionContext)
    (x : FlowSessionContext) (held : Multiset ℕ) :
    let r := groupSchedulerEnqueue mem flows x.flowId x.workSize (some x) true
    Tally mem.next r.mem.next (x.addr ::ₘ held + flowsLive flows)
      ((if r.status = .success then held else x.addr ::ₘ held) + flowsLive r.gs)
      (groupEnqueueFrees mem flows x.flowId x.workSize (some x) true) := by
  intro r
  have htally : Tally mem.next r.mem.next flows.sessions r.gs.sessions _ :=
    groupEnqueue_tally mem flows x.flowId x.workSize (some x) true
  apply htally.exchange
  unfold flowsLive
  split_ifs with hok
  · have hctx : contexts r.gs = x ::ₘ contexts flows := contexts_enqueue hok
    rw [hctx, Multiset.map_cons, ← Multiset.singleton_add, ← Multiset.singleton_add]
    abel
  · have hsame : r.gs = flows := by
      rcases enqueue_cases mem flows x.flowId x.workSize (some x) true with
        ⟨-, heq, -⟩ | ⟨hgood, -⟩
      · exact heq
      · exact absurd hgood hok
    rw [hsame]

theorem flowsEnqueue_shape (mem : Allocator) (flows : GroupScheduler FlowSessionContext)
    (id w : ℕ) (ud : Option FlowSessionContext) (cf : Bool) :
    (groupSchedulerEnqueue mem flows id w ud cf).gs.entries.shape = flows.entries.shape :=
  ((QueueTrace.refl flows).enqueue mem id w ud cf).shape

/-- A session that is put back is queued again, or nobody owns its context any more. -/
theorem Paid.putBack (ht : s.tenants i = some t) (hi : i < s.maxTenants) (x : FlowSessionContext)
    (b : SchedulerBlocks) (held : Multiset ℕ) :
    Paid s (putBack s i x) b b (x.addr ::ₘ held)
      (if takesBack (s, i, x) then held else x.addr ::ₘ held) (putBackFrees s i x) := by
  have hreg := Paid.register s i b (x.addr ::ₘ held)
  have hcores := (congrFun (register_cores s i) i).trans (cores_some ht)
  obtain ⟨t₁, ht₁, hcore⟩ := tenants_of_cores hcores
  have hflows : t₁.core.flowScheduler = t.core.flowScheduler :=
    congrArg Tenant.flowScheduler hcore
  change t₁.flowScheduler = t.flowScheduler at hflows
  have hconfig : (registerTenantBacklog s i).2.config = s.config := by
    unfold registerTenantBacklog
    rw [ht]
    dsimp only
    split_ifs <;> rfl
  have hmax : i < (registerTenantBacklog s i).2.maxTenants := by
    unfold Scheduler.maxTenants
    rw [hconfig]
    exact hi
  have hback := takesBack_iff (x := x) ht
  rw [putBackResult, ← hflows] at hback
  unfold Hwfq.putBack putBackFrees
  generalize (registerTenantBacklog s i).2 = s₁ at hreg ht₁ hmax hback ⊢
  dsimp only
  rw [ht₁]
  dsimp only
  have htally := flowsEnqueue_tally s₁.mem t₁.flowScheduler x held
  have hshape := flowsEnqueue_shape s₁.mem t₁.flowScheduler x.flowId x.workSize (some x) true
  have hput := Paid.setFlows (b := b) ht₁ hmax hshape htally
  have hall := hreg.trans hput
  rw [Multiset.coe_add] at hall
  refine hall.of_eq rfl ?_ rfl
  simp only [hback]

/-! ## Enqueue -/

theorem Paid.offer (ht : s.tenants i = some t) (hi : i < s.maxTenants) (x : FlowSessionContext)
    (b : SchedulerBlocks) (held : Multiset ℕ) :
    Paid s (offerSession s i x.flowId t x).2.2 b b (x.addr ::ₘ held) held
      (offerFrees s i x.flowId t x) := by
  have hup := t.owned_mapStats x.flowId Stats.backlogUp
  have htally := flowsEnqueue_tally s.mem (t.mapStats x.flowId Stats.backlogUp).flowScheduler x held
  have hshape := flowsEnqueue_shape s.mem (t.mapStats x.flowId Stats.backlogUp).flowScheduler
    x.flowId x.workSize (some x) true
  obtain ⟨-, hstart, hflows⟩ := by
    simpa only [Tenant.owned, Prod.mk.injEq] using hup
  rw [hflows] at htally
  rw [hstart] at hshape
  unfold offerSession offerFrees
  dsimp only
  generalize groupSchedulerEnqueue s.mem (t.mapStats x.flowId Stats.backlogUp).flowScheduler
    x.flowId x.workSize (some x) true = r at htally hshape ⊢
  generalize groupEnqueueFrees s.mem (t.mapStats x.flowId Stats.backlogUp).flowScheduler
    x.flowId x.workSize (some x) true = freed at htally ⊢
  dsimp only at htally
  split_ifs at htally ⊢
  · have hput : Paid s ({ s with mem := r.mem }.setTenant i
        { t.mapStats x.flowId Stats.backlogUp with flowScheduler := r.gs }) b b (x.addr ::ₘ held)
        held freed := .setTenant ht hi rfl hshape htally
    have hall := hput.trans (.register _ i b held)
    rwa [Multiset.coe_add] at hall
  · have hdown := Tenant.owned_mapStats
      { t.mapStats x.flowId Stats.backlogUp with flowScheduler := r.gs } x.flowId Stats.backlogDown
    simp only [Tenant.owned, Prod.mk.injEq] at hdown
    obtain ⟨haddr, hend, hkept⟩ := hdown
    rw [← hkept] at htally
    have hput : Paid s ({ s with mem := r.mem }.setTenant i (Tenant.mapStats
        { t.mapStats x.flowId Stats.backlogUp with flowScheduler := r.gs } x.flowId
        Stats.backlogDown)) b b (x.addr ::ₘ held) (x.addr ::ₘ held) freed :=
      .setTenant ht hi haddr (hend.trans hshape) htally
    have hall := hput.trans (.free _ b held {x.addr})
    rwa [← Multiset.coe_singleton, Multiset.coe_add] at hall

/-- The context that an enqueue allocates is queued or freed. -/
theorem Paid.enqueue (s : Scheduler) (i f : ℕ) (work : Option Session) (now : ℕ)
    (b : SchedulerBlocks) :
    Paid s (hwfqEnqueue s i f work now).2.2 b b 0 0 (enqueueFrees s i f work now) := by
  unfold hwfqEnqueue enqueueFrees
  cases work with
  | none => exact .refl s b 0
  | some w =>
    dsimp only
    split_ifs with hsize hslot hreserved
    · exact .refl s b 0
    · exact .refl s b 0
    · exact .refl s b 0
    cases ht : s.configuredTenant i with
    | none => exact .refl s b 0
    | some t =>
      dsimp only
      split_ifs
      · exact .refl s b 0
      cases halloc : hwfqAlloc s.mem 1 with
      | mk p mem =>
        cases p with
        | none => exact .refused halloc b 0
        | some addr =>
          have hgranted := Paid.granted halloc b 0
          have hslot' : ({ s with mem := mem } : Scheduler).tenants i = some t :=
            configuredTenant_some ht
          have hoffer := Paid.offer hslot' (Nat.lt_of_not_le hslot)
            (newContext s addr i f w now) b 0
          have hall := hgranted.trans hoffer
          rwa [zero_add] at hall

/-! ## Dequeue -/

/-- A token names its tenant. -/
theorem SchedulerInv.token_tenant (h : SchedulerInv s) {token : SessionState TenantPtr}
    {system : GroupScheduler TenantPtr}
    (hd : groupSchedulerDequeue s.systemScheduler = (some token, system))
    (ht : s.tenants token.entryId = some t) :
    token.userData.bind ({ s with systemScheduler := system } : Scheduler).tenantAt = some t := by
  obtain ⟨f, hface, -, hdata, -, -⟩ := h.system.take hd
  obtain ⟨u, hu, rfl⟩ : ∃ u, s.tenants token.entryId = some u ∧ u.face = f :=
    Option.map_eq_some_iff.mp hface
  obtain rfl := Option.some.inj (ht.symm.trans hu)
  rw [hdata]
  simp [Scheduler.tenantAt, ht, Tenant.face]

theorem Paid.missedToken (h : SchedulerInv s) {system : GroupScheduler TenantPtr}
    (hd : groupSchedulerDequeue s.systemScheduler = (none, system)) (b : SchedulerBlocks)
    (held : Multiset ℕ) : Paid s { s with systemScheduler := system } b b held held 0 := by
  have hshape := (QueueTrace.refl s.systemScheduler).dequeue.shape
  have hsame := sessions_missed h.system.group.calendar hd
  rw [hd] at hshape
  apply Paid.tokens
  · rfl
  · rfl
  · rfl
  · exact hshape
  · rw [hsame]
    exact .refl _ _

/-- A token is taken, the clock of the system moves, and the token is freed. -/
theorem Paid.takenToken (h : SchedulerInv s) {token : SessionState TenantPtr}
    {system : GroupScheduler TenantPtr}
    (hd : groupSchedulerDequeue s.systemScheduler = (some token, system)) (w : ℕ)
    (b : SchedulerBlocks) (held : Multiset ℕ) :
    Paid s { s with systemScheduler := groupSchedulerUpdateVirtualTime system w } b b held held
      {token.addr} := by
  have htrace := (QueueTrace.refl s.systemScheduler).dequeue
  have htaken := sessions_taken h.system.group.calendar hd
  rw [hd] at htrace
  apply Paid.tokens
  · rfl
  · rfl
  · rfl
  · exact (htrace.update w).shape
  · rw [htaken, sessions_update, ← Multiset.singleton_add, add_left_comm]
    exact .free _ _ _

/-- A tenant is asked for a session, and what it gives up is what the call holds. -/
theorem Paid.asked {system : GroupScheduler TenantPtr} {flows : GroupScheduler FlowSessionContext}
    {held taken : Multiset ℕ} {b : SchedulerBlocks} (ht : s.tenants i = some t)
    (hi : i < s.maxTenants) {freed : Multiset ℕ} (hd : (groupSchedulerDequeue t.flowScheduler).2 = flows)
    (hflows : flowsLive t.flowScheduler = taken + flowsLive flows)
    (htoken : Paid s { s with systemScheduler :=
      groupSchedulerUpdateVirtualTime system tenantQuantumSize } b b held held freed) :
    Paid s (afterSelect s system i t flows) b b held (taken + held) freed := by
  have hshape := (QueueTrace.refl t.flowScheduler).dequeue.shape
  rw [hd] at hshape
  have hask : Paid { s with systemScheduler :=
      groupSchedulerUpdateVirtualTime system tenantQuantumSize } (afterSelect s system i t flows) b b
      held (taken + held) 0 := by
    apply Paid.setTenant (t := t)
    · exact ht
    · exact hi
    · rfl
    · exact hshape
    · apply Tally.of_eq
      rw [hflows]
      dsimp only
      abel
  have hall := htoken.trans hask
  rwa [add_zero] at hall

theorem SchedulerInv.selectFrees_some (h : SchedulerInv s) {token : SessionState TenantPtr}
    {system : GroupScheduler TenantPtr}
    (hd : groupSchedulerDequeue s.systemScheduler = (some token, system))
    (ht : s.tenants token.entryId = some t) :
    selectFrees s = match (groupSchedulerDequeue t.flowScheduler).1 with
      | none => ([token.addr], none)
      | some q =>
          match q.userData with
          | none => ([token.addr, q.addr], none)
          | some _ => ([token.addr], some q.addr) := by
  have hsome : groupSchedulerIsEmpty s.systemScheduler = false := by
    by_contra hempty
    rw [groupSchedulerDequeue, if_pos (by simpa [groupSchedulerIsEmpty] using hempty)] at hd
    cases hd
  have hat := h.token_tenant hd ht
  unfold selectFrees
  rw [hsome, hd]
  dsimp only
  rw [hat]
  rfl

/-- What a selection holds: the session that it has taken and its context. -/
theorem SchedulerInv.select_paid (h : SchedulerInv s) (b : SchedulerBlocks) (held : Multiset ℕ) :
    (∃ status s₁, dequeueSelect s = (.refused status, s₁) ∧
        Paid s s₁ b b held held (selectFrees s).1) ∨
      ∃ s₁ i t q x flows, Selected s s₁ i t q x flows ∧ (selectFrees s).2 = some q.addr ∧
        Paid s s₁ b b held ({q.addr, x.addr} + held) (selectFrees s).1 := by
  rcases h.select with ⟨system, hd, heq, -⟩ | ⟨token, system, t, flows, hd, ht, -, hinv, hcase⟩
  · refine .inl ⟨_, _, heq, ?_⟩
    have hnothing : (selectFrees s).1 = [] := by
      unfold selectFrees
      rw [hd]
      split_ifs <;> rfl
    rw [hnothing]
    exact .missedToken h hd b held
  · have htoken := Paid.takenToken h hd tenantQuantumSize b held
    have hfrees := h.selectFrees_some hd ht
    have hmax := h.lt_maxTenants ht
    have hflows := (h.tenants token.entryId t ht).flows
    rcases hcase with ⟨hmiss, heq⟩ | ⟨q, x, htake, hcar, heq⟩
    · refine .inl ⟨_, _, heq, ?_⟩
      rw [hfrees, hmiss]
      have hsame : flowsLive t.flowScheduler = 0 + flowsLive flows := by
        rw [zero_add, flowsLive, flowsLive, sessions_missed hflows.group.calendar hmiss,
          (hflows.miss hmiss).2]
      have hall := Paid.asked ht hmax (congrArg Prod.snd hmiss) hsame htoken
      rwa [zero_add] at hall
    · refine .inr ⟨_, _, t, q, x, flows, .of_select ht htake hcar heq hinv, ?_, ?_⟩
      · rw [hfrees, htake]
        dsimp only
        rw [hcar.data]
      · rw [hfrees, htake]
        dsimp only
        rw [hcar.data]
        obtain ⟨-, x', hcar', hctx⟩ := hflows.take htake
        obtain rfl := Option.some.inj (hcar.data.symm.trans hcar'.data)
        have hgive : flowsLive t.flowScheduler = {q.addr, x.addr} + flowsLive flows := by
          rw [flowsLive, sessions_taken hflows.group.calendar htake, hctx, Multiset.map_cons,
            flowsLive, Multiset.insert_eq_cons, ← Multiset.singleton_add,
            ← Multiset.singleton_add x.addr, ← Multiset.singleton_add q.addr]
          abel
        exact .asked ht hmax (congrArg Prod.snd htake) hgive htoken

theorem Paid.charge (ht : s.tenants i = some t) (w : ℕ) (b : SchedulerBlocks) (held : Multiset ℕ) :
    Paid s (chargeFlow s i w) b b held held 0 := by
  have hshape := ((QueueTrace.refl t.flowScheduler).update w).shape
  have howned : ({ t with flowScheduler := groupSchedulerUpdateVirtualTime t.flowScheduler w } :
      Tenant).owned = t.owned := by
    unfold Tenant.owned
    dsimp only
    rw [hshape, flowsLive_update]
  unfold chargeFlow
  rw [ht]
  exact .sameTenant ht howned b held

theorem Paid.recordWait (s : Scheduler) (i : ℕ) (x : FlowSessionContext) (now : ℕ)
    (b : SchedulerBlocks) (held : Multiset ℕ) :
    Paid s (recordWait s i x now) b b held held 0 := by
  unfold Hwfq.recordWait
  cases ht : s.tenants i with
  | none => exact .refl s b held
  | some t =>
    dsimp only
    split_ifs
    · exact .sameTenant ht (t.owned_mapStats _ _) b held
    · exact .sameTenant ht (t.owned_mapStats _ _) b held
    · exact .refl s b held

theorem Paid.registerIfBacklogged (s : Scheduler) (i : ℕ) (b : SchedulerBlocks)
    (held : Multiset ℕ) :
    Paid s (registerIfBacklogged s i) b b held held (registerIfBackloggedFrees s i) := by
  unfold Hwfq.registerIfBacklogged registerIfBackloggedFrees
  cases s.tenants i with
  | none => exact .refl s b held
  | some t =>
    dsimp only
    split_ifs
    · exact .refl s b held
    · exact .register s i b held

/-- The in-flight entry takes over the block that the call has allocated. -/
theorem Paid.deliver (s : Scheduler) (i : ℕ) (x : FlowSessionContext) (addr : Addr) (now : ℕ)
    (b : SchedulerBlocks) (held : Multiset ℕ) :
    Paid s (deliverSession s i x addr now).2.2 b b (addr ::ₘ held) held
      (registerIfBackloggedFrees (Hwfq.recordWait
        (addInFlight s (newInFlightEntry x addr now)) i x now) i) := by
  have hadd : Paid s (addInFlight s (newInFlightEntry x addr now)) b b (addr ::ₘ held) held 0 := by
    have honly : FlightOnly s (addInFlight s (newInFlightEntry x addr now)) :=
      ⟨rfl, rfl, rfl, rfl, rfl, rfl, rfl⟩
    apply Paid.flight honly
    have hlist : flightLive (addInFlight s (newInFlightEntry x addr now)) =
        flightLive s + {addr} := by
      unfold flightLive addInFlight inFlightInsert
      dsimp only
      rw [List.map_append, ← Multiset.coe_add]
      rfl
    rw [hlist, ← Multiset.singleton_add]
    abel
  have hwait := hadd.trans (.recordWait _ i x now b held)
  have hall := hwait.trans (.registerIfBacklogged _ i b held)
  rwa [add_zero, zero_add] at hall

/-- A put-back at the end of a dequeue, which frees the session at `a` after it. -/
theorem Paid.putBackTaken (ht : s.tenants i = some t) (hi : i < s.maxTenants)
    (x : FlowSessionContext) (a : Addr) (b : SchedulerBlocks) :
    Paid s (Hwfq.putBack s i x) b b ({a, x.addr} + 0)
      (if takesBack (s, i, x) then 0 else {x.addr}) (putBackFrees s i x ++ [a] : List Addr) := by
  have hput := Paid.putBack ht hi x b {a}
  have hfree := Paid.free (Hwfq.putBack s i x) b (if takesBack (s, i, x) then 0 else {x.addr}) {a}
  have hkeep : (if takesBack (s, i, x) then {a} else x.addr ::ₘ {a} : Multiset ℕ) =
      {a} + if takesBack (s, i, x) then 0 else {x.addr} := by
    split_ifs
    · rw [add_zero]
    · rw [← Multiset.singleton_add, add_comm]
  rw [hkeep] at hput
  refine (hput.trans hfree).of_eq ?_ rfl ?_
  · rw [add_zero, Multiset.pair_comm]
    rfl
  · rw [← Multiset.coe_add, Multiset.coe_singleton]

theorem map_addr_ite (p : Prop) [Decidable p] (x : FlowSessionContext) :
    (if p then 0 else {x} : Multiset FlowSessionContext).map (·.addr) = if p then 0 else {x.addr} := by
  split_ifs
  · rfl
  · rfl

/-- A dequeue from where it has selected the session `q` with context `x`. -/
theorem Selected.dequeue_paid {q : SessionState FlowSessionContext} {x : FlowSessionContext}
    {flows : GroupScheduler FlowSessionContext} {b : SchedulerBlocks}
    (h : Selected s s₁ i t q x flows) (htaken : (selectFrees s).2 = some q.addr)
    (hpaid : Paid s s₁ b b 0 ({q.addr, x.addr} + 0) (selectFrees s).1) (hi : i < s.maxTenants)
    (now : UInt64) :
    Paid s (hwfqDequeue s true now.toNat).2.2 b b 0
      ((lost s (.dequeue true now)).map (·.addr)) (dequeueFrees s true now.toNat) := by
  have hmax : i < s₁.maxTenants := by
    unfold Scheduler.maxTenants
    rw [h.changes.config]
    exact hi
  have hpoint := h.putBackPoint_eq
  have hout : ¬ (!true) = true := by simp
  rw [h.dequeue_eq now.toNat, dequeueFrees, if_neg hout, h.choice]
  dsimp only
  rw [htaken, Option.toList_some]
  by_cases hcap : overCapacity s₁ x = true
  · rw [if_pos hcap] at hpoint ⊢
    rw [if_pos hcap, lost_some rfl hpoint]
    have hall := hpaid.trans (.putBackTaken h.tenant hmax x q.addr b)
    refine hall.of_eq rfl (map_addr_ite _ x) ?_
    rw [Multiset.coe_add, List.append_assoc]
  rw [if_neg hcap] at hpoint ⊢
  rw [if_neg hcap]
  have hcharged := (hpaid.trans (.charge h.tenant x.workSize b _)).of_eq rfl rfl (add_zero _).symm
  obtain ⟨-, htenant, hchanges⟩ := h.charge
  have hmax₂ : i < (chargeFlow s₁ i x.workSize).maxTenants := by
    unfold Scheduler.maxTenants
    rw [hchanges.config]
    exact hi
  generalize chargeFlow s₁ i x.workSize = s₂ at hpoint hcharged htenant hmax₂ ⊢
  cases halloc : hwfqAlloc s₂.mem 1 with
  | mk p mem =>
    rw [halloc] at hpoint
    cases p with
    | none =>
      dsimp only at hpoint ⊢
      rw [lost_some rfl hpoint]
      have hrefused := hcharged.trans (.refused halloc b _)
      have hslot : ({ s₂ with mem := mem } : Scheduler).tenants i = _ := htenant
      have hall := hrefused.trans (.putBackTaken hslot hmax₂ x q.addr b)
      refine hall.of_eq rfl (map_addr_ite _ x) ?_
      rw [List.append_assoc, ← Multiset.coe_add, add_zero]
    | some addr =>
      dsimp only at hpoint ⊢
      rw [lost_none hpoint, Multiset.map_zero]
      have hgranted := hcharged.trans (.granted halloc b _)
      have hdelivered := hgranted.trans (.deliver _ i x addr now.toNat b _)
      have hall := hdelivered.trans (.free _ b 0 {q.addr, x.addr})
      refine hall.of_eq rfl rfl ?_
      rw [add_zero, ← Multiset.coe_add, ← Multiset.coe_add, add_right_comm, Multiset.pair_comm]
      rfl

theorem SchedulerInv.dequeue_paid (h : SchedulerInv s) (out : Bool) (now : UInt64)
    (b : SchedulerBlocks) :
    Paid s (hwfqDequeue s out now.toNat).2.2 b b 0 ((lost s (.dequeue out now)).map (·.addr))
      (dequeueFrees s out now.toNat) := by
  cases out with
  | false =>
    rw [lost_quiet rfl]
    exact .refl s b 0
  | true =>
    rcases h.select_paid b 0 with ⟨status, s₁, heq, hpaid⟩ |
      ⟨s₁, i, t, q, x, flows, hsel, htaken, hpaid⟩
    · have hfrees : dequeueFrees s true now.toNat = (selectFrees s).1 := by
        rw [dequeueFrees, heq]
        rfl
      rw [lost_none (putBackPoint_refused heq), dequeue_refused heq, hfrees]
      exact hpaid
    · exact hsel.dequeue_paid htaken hpaid (h.lt_maxTenants hsel.taken.tenant) now

/-! ## The ends of a session -/

theorem Paid.takeInFlight (h : SchedulerInv s) {found : InFlightEntry} (hin : found ∈ s.inFlight)
    (b : SchedulerBlocks) (held : Multiset ℕ) :
    Paid s (takeInFlight s found) b b held held {found.addr} := by
  apply Paid.flight (takeInFlight_flightOnly s found)
  have hperm := (inFlightRemove_perm h.flight hin).map (·.addr)
  have hlist : flightLive s = found.addr ::ₘ flightLive (Hwfq.takeInFlight s found) :=
    Multiset.coe_eq_coe.mpr hperm
  rw [hlist, ← Multiset.singleton_add]
  abel

theorem Paid.updateStats (s : Scheduler) (tenantId flowId : ℕ) (f : Stats → Stats)
    (b : SchedulerBlocks) (held : Multiset ℕ) :
    Paid s (updateStats s tenantId flowId f) b b held held 0 := by
  unfold Hwfq.updateStats
  split_ifs
  · cases ht : s.tenants tenantId with
    | none => exact .refl s b held
    | some t =>
      dsimp only
      split_ifs
      · exact .sameTenant ht (t.owned_mapStats flowId f) b held
      · have hsame : ({ t with stats := f t.stats } : Tenant).owned = t.owned := rfl
        exact .sameTenant ht hsame b held
  · exact .refl s b held

theorem Paid.serveCompleted (s : Scheduler) (i : ℕ) (b : SchedulerBlocks) (held : Multiset ℕ) :
    Paid s (serveCompleted s i).2 b b held held (serveFrees s i) := by
  unfold Hwfq.serveCompleted serveFrees
  split_ifs
  · cases s.tenants i with
    | none => exact .refl s b held
    | some t =>
      dsimp only
      split_ifs
      · exact .refl s b held
      · exact .register s i b held
  · exact .refl s b held

theorem SchedulerInv.complete_paid (h : SchedulerInv s) (work : Option Session)
    (tenantId flowId : ℕ) (b : SchedulerBlocks) :
    Paid s (hwfqComplete s work tenantId flowId).2.2 b b 0 0
      (completeFrees s work tenantId flowId) := by
  unfold hwfqComplete completeFrees
  cases hfind : inFlightLookup s work tenantId flowId with
  | none => exact .refl s b 0
  | some found =>
    obtain ⟨hin, -, -⟩ := inFlightLookup_some h.flight hfind
    have htake := Paid.takeInFlight h hin b 0
    have hdown := htake.trans (.updateStats _ tenantId flowId Stats.backlogDownIfPositive b 0)
    dsimp only
    generalize Hwfq.updateStats (Hwfq.takeInFlight s found) tenantId flowId
      Stats.backlogDownIfPositive = s₁ at hdown ⊢
    rw [add_zero] at hdown
    split_ifs
    · have hadd := hdown.trans (.updateStats s₁ tenantId flowId
        (Stats.addCompletion found.workSize) b 0)
      rw [add_zero] at hadd
      exact hadd.trans (.serveCompleted _ tenantId b 0)
    · exact hdown.trans (.serveCompleted s₁ tenantId b 0)

theorem SchedulerInv.cancel_paid (h : SchedulerInv s) (work : Option Session)
    (tenantId flowId : ℕ) (b : SchedulerBlocks) :
    Paid s (hwfqCancel s work tenantId flowId).2.2 b b 0 0 (cancelFrees s work tenantId flowId) := by
  unfold hwfqCancel cancelFrees
  cases hfind : inFlightLookup s work tenantId flowId with
  | none => exact .refl s b 0
  | some found =>
    obtain ⟨hin, -, -⟩ := inFlightLookup_some h.flight hfind
    have htake := Paid.takeInFlight h hin b 0
    exact htake.trans (.updateStats _ _ _ _ b 0)

theorem SchedulerInv.timeouts_paid (h : SchedulerInv s) (now : ℕ) (b : SchedulerBlocks) :
    Paid s (hwfqCheckTimeouts s now).2.2 b b 0 0 (timeoutFrees s now) := by
  obtain ⟨-, honly, hlist, hperm⟩ := h.scanTimeouts now
  apply Paid.flight honly
  have hmoved := Multiset.coe_eq_coe.mpr (hperm.map (·.addr))
  rw [List.map_append, ← Multiset.coe_add] at hmoved
  have hfrees : (timeoutFrees s now : Multiset ℕ) =
      ((s.inFlight.filter (isTimedOut now)).map (·.addr) : List Addr) := by
    unfold timeoutFrees
    rw [hlist, List.map_reverse]
    exact Multiset.coe_reverse _
  rw [hfrees]
  unfold flightLive
  rw [hmoved]
  abel

end Hwfq
