import Hwfq.FlightTable

/-!
# Where the accepted sessions are

A session that was accepted is queued for its tenant, in flight, ended, or disposed
of with its tenant. Each call moves sessions between these places, and what was
there before and came in is what is there afterwards and went out.
-/
namespace Hwfq
open GuardedRuns Bins

variable {s s' : Scheduler} {c : Call} {r : Response}

/-! ## The queues of all tenants -/

/-- The contexts queued for the tenant in slot `i`. -/
def queueOf (tenants : ℕ → Option Tenant) (i : ℕ) : Multiset FlowSessionContext :=
  (tenants i).elim 0 fun t => contexts t.flowScheduler

def Scheduler.queue (s : Scheduler) : ℕ → Multiset FlowSessionContext := queueOf s.tenants

/-- The contexts queued for any tenant. -/
def Scheduler.queuedSessions (s : Scheduler) : Multiset FlowSessionContext :=
  ∑ i ∈ Finset.range s.maxTenants, s.queue i

theorem queueOf_cores (s : Scheduler) : queueOf s.cores = s.queue := by
  funext i
  rw [Scheduler.queue, queueOf, queueOf, Scheduler.cores]
  cases s.tenants i <;> rfl

theorem queue_of_cores {cores : ℕ → Option Tenant} (h : s.cores = cores) : s.queue = queueOf cores :=
  h ▸ (queueOf_cores s).symm

theorem queue_some {i : ℕ} {t : Tenant} (ht : s.tenants i = some t) :
    s.queue i = contexts t.flowScheduler := by
  rw [Scheduler.queue, queueOf, ht, Option.elim_some]

theorem queue_none {i : ℕ} (ht : s.tenants i = none) : s.queue i = 0 := by
  rw [Scheduler.queue, queueOf, ht, Option.elim_none]

theorem queueOf_update (tenants : ℕ → Option Tenant) (i : ℕ) (v : Option Tenant) :
    queueOf (Function.update tenants i v) =
      Function.update (queueOf tenants) i (v.elim 0 fun t => contexts t.flowScheduler) := by
  funext j
  by_cases hj : j = i
  · rw [hj, queueOf, Function.update_self, Function.update_self]
  · rw [queueOf, Function.update_of_ne hj, Function.update_of_ne hj, queueOf]

theorem Scheduler.mem_queuedSessions {x : FlowSessionContext} :
    x ∈ s.queuedSessions ↔ ∃ i < s.maxTenants, x ∈ s.queue i := by
  simp [Scheduler.queuedSessions, Multiset.mem_sum]

/-- A queued context names the slot it is queued in. -/
theorem SchedulerInv.queued_tenant (h : SchedulerInv s) {i : ℕ} {x : FlowSessionContext}
    (hx : x ∈ s.queue i) : x.tenantId = i := by
  cases ht : s.tenants i with
  | none => simp [queue_none ht] at hx
  | some t =>
    rw [queue_some ht] at hx
    obtain ⟨q, -, hcar⟩ := (h.tenants i t ht).flows.mem_contexts hx
    exact hcar.tenant

theorem SchedulerInv.queue_filter (h : SchedulerInv s) (i : ℕ) :
    s.queuedSessions.filter (fun x => x.tenantId = i) = s.queue i := by
  rw [Scheduler.queuedSessions, filter_sum, Finset.sum_eq_single i]
  · exact Multiset.filter_eq_self.mpr fun x hx => h.queued_tenant hx
  · intro j _ hj
    exact Multiset.filter_eq_nil.mpr fun x hx hi => hj ((h.queued_tenant hx).symm.trans hi)
  · intro hi
    cases ht : s.tenants i with
    | none => rw [queue_none ht, Multiset.filter_zero]
    | some t => exact absurd (Finset.mem_range.mpr (h.lt_maxTenants ht)) hi

/-! ## What a call moves -/

/-- The session that an enqueue has accepted. -/
def accepted (s : Scheduler) : Call → Multiset FlowSessionContext
  | .enqueue i f (some w) now =>
      if (respond s (.enqueue i f (some w) now)).status = .success then
        {newContext s s.mem.next i.toNat f.toNat w now.toNat}
      else 0
  | _ => 0

/-- The session that a dequeue has delivered, with its entry in the in-flight table. -/
def delivered (s : Scheduler) (c : Call) : Multiset (FlowSessionContext × InFlightEntry) :=
  match chosen s, newEntry s c with
  | some x, some e => {(x, e)}
  | _, _ => 0

/-- The sessions in flight that a call ends. -/
def ended (s : Scheduler) : Call → Multiset InFlightEntry
  | .complete i f work | .cancel i f work => (inFlightLookup s work i.toNat f.toNat).toList
  | .checkTimeouts now => (s.inFlight.filter (isTimedOut now.toNat) : List InFlightEntry)
  | _ => 0

/-- The sessions that are still queued when their tenant is removed. -/
def disposed (s : Scheduler) : Call → Multiset FlowSessionContext
  | .removeTenant i =>
      if (respond s (.removeTenant i)).status = .success then s.queue i.toNat else 0
  | _ => 0

/-- The flow scheduler takes the session that a dequeue puts back. -/
def takesBack (p : Scheduler × ℕ × FlowSessionContext) : Prop :=
  ∀ t ∈ p.1.tenants p.2.1, (registerTenantBacklog p.1 p.2.1).2.mem.ok 0 = true ∧
    ∃ e, Admissible t.flowScheduler p.2.2.flowId p.2.2.workSize e

instance (p : Scheduler × ℕ × FlowSessionContext) : Decidable (takesBack p) :=
  inferInstanceAs (Decidable (∀ t ∈ p.1.tenants p.2.1,
    (registerTenantBacklog p.1 p.2.1).2.mem.ok 0 = true ∧
      ∃ e, Admissible t.flowScheduler p.2.2.flowId p.2.2.workSize e))

/-- The session that a dequeue has put back in vain. -/
def lost (s : Scheduler) (c : Call) : Multiset FlowSessionContext :=
  if c.asksSession then
    match putBackPoint s with
    | some p => if takesBack p then 0 else {p.2.2}
    | none => 0
  else 0

theorem nothing_moved (h : SchedulerInv s) (hbad : (respond s c).status ≠ .success) :
    accepted s c = 0 ∧ delivered s c = 0 ∧ ended s c = 0 ∧ disposed s c = 0 := by
  have hmade : newEntry s c = none := by
    cases c <;> simp_all [newEntry]
  have hends : ∀ {i f work}, EndsOne c i f work →
      inFlightLookup s work i.toNat f.toNat = none := fun hc => by
    rcases endsOne_cases h hc with ⟨hnone, -, -⟩ | ⟨found, -, hok, -⟩
    · exact hnone
    · exact absurd hok hbad
  refine ⟨?_, ?_, ?_, ?_⟩
  · cases c with
    | enqueue i f work now => cases work <;> simp_all [accepted]
    | _ => rfl
  · rw [delivered, hmade]
    cases chosen s <;> rfl
  · cases c with
    | complete i f work => simp [ended, hends (.complete i f work)]
    | cancel i f work => simp [ended, hends (.cancel i f work)]
    | checkTimeouts now => exact absurd rfl hbad
    | _ => rfl
  · cases c with
    | removeTenant i => exact if_neg hbad
    | _ => rfl

/-! ## The balance of one call -/

theorem queuedSessions_same (hconf : s'.config = s.config) (hqueue : s'.queue = s.queue) :
    s'.queuedSessions = s.queuedSessions := by
  have hmax : s'.maxTenants = s.maxTenants := congrArg (·.maxTenants.toNat) hconf
  rw [Scheduler.queuedSessions, Scheduler.queuedSessions, hmax, hqueue]

/-- One queue is exchanged for another. -/
theorem queuedSessions_exchange {i : ℕ} {m : Multiset FlowSessionContext}
    (hconf : s'.config = s.config) (hlt : i < s.maxTenants)
    (hqueue : s'.queue = Function.update s.queue i m) :
    s'.queuedSessions + s.queue i = s.queuedSessions + m := by
  have hmax : s'.maxTenants = s.maxTenants := congrArg (·.maxTenants.toNat) hconf
  rw [Scheduler.queuedSessions, Scheduler.queuedSessions, hmax, hqueue]
  exact sum_update id s.queue m hlt

/-- One session leaves a queue. -/
theorem queuedSessions_take {i : ℕ} {x : FlowSessionContext} {m : Multiset FlowSessionContext}
    (hconf : s'.config = s.config) (hlt : i < s.maxTenants)
    (hqueue : s'.queue = Function.update s.queue i m) (htake : s.queue i = x ::ₘ m) :
    s.queuedSessions = s'.queuedSessions + {x} := by
  have hexchange := queuedSessions_exchange hconf hlt hqueue
  rw [htake, ← Multiset.singleton_add, ← add_assoc] at hexchange
  exact (add_right_cancel hexchange).symm

/-- A tenant changes and its queue becomes that of `v`. -/
theorem queue_update {i : ℕ} {v : Option Tenant} (hcores : s'.cores = Function.update s.cores i v) :
    s'.queue = Function.update s.queue i (v.elim 0 fun t => contexts t.flowScheduler) := by
  rw [queue_of_cores hcores, queueOf_update, queueOf_cores]

theorem queue_keep {i : ℕ} {t u : Tenant} (ht : s.tenants i = some t)
    (hcores : s'.cores = Function.update s.cores i (some u))
    (hsame : contexts u.flowScheduler = contexts t.flowScheduler) : s'.queue = s.queue := by
  rw [queue_update hcores, Option.elim_some, hsame, ← queue_some ht, Function.update_eq_self]

theorem Tenant.mapStats_contexts (t : Tenant) (f : ℕ) (g : Stats → Stats) :
    contexts (t.mapStats f g).flowScheduler = contexts t.flowScheduler :=
  contexts_of_queueView (t.mapStats_queueView f g)

theorem contexts_offer {mem : Allocator} {i : ℕ} {t : Tenant} {x : FlowSessionContext}
    (ht : s.tenants i = some t) (hok : (offerResult mem t x).status = .success) :
    contexts (offerResult mem t x).gs = x ::ₘ s.queue i := by
  rw [queue_some ht, ← t.mapStats_contexts x.flowId Stats.backlogUp]
  exact contexts_enqueue hok

theorem queueOf_mapStatsAt (cores : ℕ → Option Tenant) (i f : ℕ) (g : Stats → Stats) :
    queueOf (mapStatsAt cores i f g) = queueOf cores := by
  rw [mapStatsAt, queueOf_update]
  apply Function.update_eq_self_iff.mpr
  rw [queueOf]
  cases cores i with
  | none => rfl
  | some t => exact t.mapStats_contexts f g

theorem FlowUpdate.queueView {i : UInt32} {t : Tenant}
    {flows : GroupScheduler FlowSessionContext} (h : FlowUpdate s.mem i t c r flows)
    (hinv : TenantInv s.mem i.toNat t) : flows.queueView = t.flowScheduler.queueView := by
  have hsums := hinv.flows.group.sums
  have halloc : ∀ {ret mem' flows'}, allocEntryOf s.mem t.flowScheduler = (ret, mem', flows') →
      flows'.queueView = t.flowScheduler.queueView ∧ SumsFit flows' := by
    intro ret mem' flows' heq
    obtain rfl : flows' = (allocEntryOf s.mem t.flowScheduler).2.2 := by rw [heq]
    exact ⟨rfl, ⟨hsums.1, hsums.2⟩⟩
  cases h with
  | exhausted alloc => exact (halloc alloc).1
  | @admitted a id mem' flows₀ flows valid alloc configured =>
    have hview := configureEntry_queueView (halloc alloc).2 id a
    rw [configured] at hview
    exact hview.trans (halloc alloc).1
  | @rolledBack a id mem' flows₀ status flows valid alloc failed configured =>
    have hview := configureEntry_queueView (halloc alloc).2 id a
    rw [configured] at hview
    exact hview.trans (halloc alloc).1
  | @reconfigured f a status flows valid find configured =>
    have hview := configureEntry_queueView hsums f.toNat a
    rw [configured] at hview
    exact hview
  | retired => exact removeEntry_queueView t.flowScheduler _

/-- The balances of a call: what was queued and what was in flight. -/
structure Balanced (s : Scheduler) (c : Call) : Prop where
  queued : s.queuedSessions + accepted s c =
    (after s c).queuedSessions + ((delivered s c).map Prod.fst + disposed s c + lost s c)
  flight : (s.inFlight : Multiset InFlightEntry) + (delivered s c).map Prod.snd =
    ((after s c).inFlight : Multiset InFlightEntry) + ended s c

theorem delivered_none (h : newEntry s c = none) : delivered s c = 0 := by
  rw [delivered, h]
  cases chosen s <;> rfl

theorem delivered_chosen {x : FlowSessionContext} (hx : x ∈ (delivered s c).map Prod.fst) :
    x ∈ chosen s := by
  rw [delivered] at hx
  cases hchosen : chosen s with
  | none => simp [hchosen] at hx
  | some y =>
    cases hentry : newEntry s c with
    | none => simp [hchosen, hentry] at hx
    | some e =>
      rw [hchosen, hentry, Multiset.map_singleton, Multiset.mem_singleton] at hx
      exact hx ▸ rfl

theorem newEntry_quiet (hc : c.asksSession = false) : newEntry s c = none := by
  cases c with
  | dequeue out now =>
    obtain rfl : out = false := hc
    rfl
  | _ => rfl

theorem lost_quiet (hc : c.asksSession = false) : lost s c = 0 := by
  rw [lost, hc]
  exact if_neg (by simp)

theorem lost_none (h : putBackPoint s = none) : lost s c = 0 := by
  rw [lost, h]
  exact ite_self 0

theorem lost_some {p : Scheduler × ℕ × FlowSessionContext} (hc : c.asksSession = true)
    (h : putBackPoint s = some p) : lost s c = if takesBack p then 0 else {p.2.2} := by
  rw [lost, if_pos hc, h]

/-- The balance of a call that moves no session. -/
theorem Balanced.still (hs : after s c = s') (hconf : s'.config = s.config)
    (hqueue : s'.queue = s.queue) (hflight : s'.inFlight = s.inFlight) (hacc : accepted s c = 0)
    (hdel : delivered s c = 0) (hend : ended s c = 0) (hdis : disposed s c = 0)
    (hlost : lost s c = 0) : Balanced s c := by
  constructor
  · rw [hacc, hdel, hdis, hlost, hs, queuedSessions_same hconf hqueue]
    rfl
  · rw [hdel, hend, hs, hflight]
    rfl

/-- The balance of a call that ends one session in flight. -/
theorem Balanced.ends {found : InFlightEntry} {cores : ℕ → Option Tenant} (h : SchedulerInv s)
    (hs : after s c = s') (hends : Ends s s' found cores) (hcores : queueOf cores = s.queue)
    (hacc : accepted s c = 0) (hdel : delivered s c = 0) (hend : ended s c = {found})
    (hdis : disposed s c = 0) (hlost : lost s c = 0) : Balanced s c := by
  constructor
  · rw [hacc, hdel, hdis, hlost, hs,
      queuedSessions_same hends.config ((queue_of_cores hends.cores).trans hcores)]
    rfl
  · rw [hdel, hend, hs, hends.inFlight, Multiset.map_zero, add_zero,
      Multiset.coe_eq_coe.mpr (inFlightRemove_perm h.flight hends.mem_inFlight),
      ← Multiset.cons_coe, ← Multiset.singleton_add, add_comm]

/-- The balance of a call that asks no tenant for a session. -/
theorem balanced_quiet (heff : Effect s c r s') (h : SchedulerInv s)
    (hr : respond s c = r) (hs : after s c = s') (hc : c.asksSession = false) :
    Balanced s c := by
  have hdel := delivered_none (newEntry_quiet (s := s) hc)
  have hlost := lost_quiet (s := s) hc
  have hconf := heff.config
  cases heff with
  | idle failed _ tokens =>
    obtain ⟨hacc, -, hend, hdis⟩ := nothing_moved h (hr ▸ failed)
    exact .still hs hconf ((queue_of_cores tokens.cores).trans (queueOf_cores s)) tokens.inFlight
      hacc hdel hend hdis hlost
  | @added a addr flows mem i _ admits _ _ _ _ fresh =>
    refine .still hs hconf ?_ admits.inFlight rfl hdel rfl rfl hlost
    have hempty : contexts flows = 0 := by
      rw [contexts, fresh.queued, Multiset.filterMap_zero]
    rw [queue_update (cores_of_tenants admits.tenants), ← queue_none admits.free]
    exact (congrArg _ (hempty.trans (queue_none admits.free).symm)).trans
      (Function.update_eq_self i s.queue)
  | @reallocated i a t tenant =>
    exact .still hs hconf (queue_keep tenant (setTenant_cores _ i.toNat _) rfl) rfl rfl hdel rfl rfl
      hlost
  | @removed i t tenant idle =>
    have hdis : disposed s (.removeTenant i) = s.queue i.toNat := if_pos (by rw [hr])
    have hqueue : (tenantRemoved s i.toNat t).queue = Function.update s.queue i.toNat 0 :=
      queue_update (v := none) (cores_of_tenants (v := none) rfl)
    have hexchange := @queuedSessions_exchange s (tenantRemoved s i.toNat t) _ _ rfl
      (h.lt_maxTenants tenant) hqueue
    constructor
    · rw [hdel, hdis, hlost, hs, Multiset.map_zero, zero_add, add_zero, hexchange]
      rfl
    · rw [hdel, hs]
      rfl
  | @flows i t _ _ flows _ _ update change =>
    have hsame := contexts_of_queueView (update.queueView (h.tenants _ t change.tenant))
    have hqueue := queue_keep change.tenant (cores_of_tenants change.tenants) hsame
    cases update with
    | retired => exact .still hs hconf hqueue change.inFlight rfl hdel rfl rfl hlost
    | _ => exact .still hs hconf hqueue change.inFlight rfl hdel rfl rfl hlost
  | @accepted i f w now t x _ _ _ tenant size flow context success created changes =>
    have hacc : accepted s (.enqueue i f (some w) now) = {x} := by
      rw [accepted, if_pos (by rw [hr]), context]
    have hqueue := (queue_update changes.cores).trans (congrArg _ (contexts_offer tenant success))
    have hexchange := queuedSessions_exchange hconf (h.lt_maxTenants tenant) hqueue
    rw [← Multiset.singleton_add, ← add_assoc] at hexchange
    constructor
    · rw [hacc, hdel, hlost, hs, add_right_cancel hexchange]
      exact (add_zero _).symm
    · rw [hdel, hs, changes.inFlight]
      rfl
  | rejected tenant flow failed nothing changes =>
    obtain ⟨hacc, -, hend, hdis⟩ := nothing_moved h (hr ▸ failed)
    refine .still hs hconf (queue_keep tenant changes.cores ?_) changes.inFlight hacc hdel hend hdis
      hlost
    exact (Tenant.mapStats_contexts _ _ _).trans (Tenant.mapStats_contexts _ _ _)
  | missed tenant dequeued failed nothing changes =>
    obtain ⟨hacc, -, hend, hdis⟩ := nothing_moved h (hr ▸ failed)
    refine .still hs hconf (queue_keep tenant changes.cores ?_) changes.inFlight hacc hdel hend hdis
      hlost
    exact ((h.tenants _ _ tenant).flows.miss dequeued).2
  | putBack => cases hc
  | delivered => cases hc
  | @completed i f work found cores _ _ lookup stats ends =>
    have hend : ended s (.complete i f work) = {found} := by
      rw [ended, lookup]
      rfl
    refine .ends h hs ends ?_ rfl hdel hend rfl hlost
    rcases stats with rfl | rfl
    · rw [queueOf_mapStatsAt, queueOf_cores]
    · rw [queueOf_mapStatsAt, queueOf_mapStatsAt, queueOf_cores]
  | @cancelled i f work found _ _ lookup ends =>
    have hend : ended s (.cancel i f work) = {found} := by
      rw [ended, lookup]
      rfl
    refine .ends h hs ends ?_ rfl hdel hend rfl hlost
    rw [queueOf_mapStatsAt, queueOf_cores]
  | @timedOut now _ _ _ only perm =>
    have hqueue : s'.queue = s.queue := by rw [Scheduler.queue, only.tenants, Scheduler.queue]
    constructor
    · rw [hdel, hlost, hs, queuedSessions_same hconf hqueue]
      rfl
    · rw [hdel, hs, Multiset.map_zero, add_zero, Multiset.coe_eq_coe.mpr perm, ← Multiset.coe_add,
        add_comm]
      rfl
  | @reset i f _ reset =>
    have hlist : s'.inFlight = s.inFlight := by rw [reset.same]
    refine .still hs hconf ?_ hlist rfl hdel rfl rfl hlost
    funext j
    rcases reset.tenants j with ⟨hnone, hnone'⟩ | ⟨t, t', ht, ht', hreset⟩
    · rw [queue_none hnone, queue_none hnone']
    · rw [queue_some ht, queue_some ht', hreset.same]
      rfl

/-- A session leaves the queue of its tenant. -/
theorem Taken.queue {i : ℕ} {t : Tenant} {q : SessionState FlowSessionContext}
    {x : FlowSessionContext} {flows : GroupScheduler FlowSessionContext}
    (htaken : Taken s i t q x flows) (h : SchedulerInv s) :
    s.queue i = x ::ₘ contexts flows := by
  obtain ⟨-, x', hcar, hsplit⟩ := (h.tenants i t htaken.tenant).flows.take htaken.dequeued
  have hsame := htaken.carries.data
  rw [hcar.data, Option.some.injEq] at hsame
  rw [queue_some htaken.tenant, hsplit, hsame]

theorem takesBack_iff {s₁ : Scheduler} {i : ℕ} {t : Tenant} {x : FlowSessionContext}
    (ht : s₁.tenants i = some t) :
    takesBack (s₁, i, x) ↔ (putBackResult s₁ i t x).status = .success := by
  rw [putBackResult, enqueue_success_iff, takesBack]
  simp [ht]

theorem PutBack.contexts_same {s₁ : Scheduler} {i : ℕ} {t t₁ : Tenant} {x : FlowSessionContext}
    {flows : GroupScheduler FlowSessionContext} (hput : PutBack s s₁ i t t₁ x flows) :
    contexts t₁.flowScheduler = contexts flows := by
  rcases hput.flows with heq | heq
  · rw [heq]
  · rw [heq, contexts_update]

/-- A successful dequeue delivers the context it has taken, with its new entry. -/
theorem Delivers.delivered {i : ℕ} {t t' : Tenant} {q : SessionState FlowSessionContext}
    {x : FlowSessionContext} {flows : GroupScheduler FlowSessionContext} {now : UInt64}
    (hdel : Delivers s (after s (.dequeue true now)) i t t' x flows now.toNat)
    (htaken : Taken s i t q x flows) (hok : (respond s (.dequeue true now)).status = .success) :
    ∃ addr, s.mem.next ≤ addr ∧
      (after s (.dequeue true now)).inFlight = s.inFlight ++ [newInFlightEntry x addr now.toNat] ∧
      delivered s (.dequeue true now) = {(x, newInFlightEntry x addr now.toNat)} := by
  obtain ⟨addr, hfresh, hlist, -⟩ := hdel.inFlight
  have hlast : (after s (.dequeue true now)).inFlight.getLast? =
      some (newInFlightEntry x addr now.toNat) := by
    rw [hlist]
    exact List.getLast?_concat
  refine ⟨addr, hfresh, hlist, ?_⟩
  rw [Hwfq.delivered, htaken.chosen, newEntry, if_pos hok, hlast]

/-- A dequeue that succeeds delivers one session and reports it as it was accepted. -/
theorem SchedulerInv.delivery (h : SchedulerInv s) {out : Bool} {now : UInt64}
    (hok : (respond s (.dequeue out now)).status = .success) :
    ∃ x addr, s.mem.next ≤ addr ∧
      Hwfq.delivered s (.dequeue out now) = {(x, newInFlightEntry x addr now.toNat)} ∧
      (respond s (.dequeue out now)).delivery =
        some ⟨x.tenantId, x.flowId, x.userData, x.workSize, x.enqueueTimeNs⟩ := by
  cases out with
  | false => cases hok
  | true =>
    have hcall : DequeueEffect s true now.toNat (respond s (.dequeue true now)).status
        (respond s (.dequeue true now)).delivery _ := (h.dequeue true now.toNat).2
    rw [hok] at hcall
    generalize (respond s (.dequeue true now)).delivery = delivery at hcall ⊢
    generalize hs : (hwfqDequeue s true now.toNat).2.2 = s' at hcall
    cases hcall with
    | refused failed _ _ => exact absurd rfl failed
    | missed failed _ _ _ _ => exact absurd rfl failed
    | putBack failed _ _ _ => exact absurd rfl failed
    | delivered _ taken delivers =>
      rw [← hs] at delivers
      obtain ⟨addr, hfresh, -, hmade⟩ := Delivers.delivered delivers taken hok
      exact ⟨_, addr, hfresh, hmade, rfl⟩

/-- The entry of a delivered session says of it what its context says. -/
theorem SchedulerInv.delivered_records (h : SchedulerInv s)
    {p : FlowSessionContext × InFlightEntry} (hp : p ∈ Hwfq.delivered s c) :
    p.2 = newInFlightEntry p.1 p.2.addr p.2.dequeueTimeNs := by
  by_cases hok : (respond s c).status = .success
  · cases c with
    | dequeue out now =>
      obtain ⟨x, addr, -, hmade, -⟩ := h.delivery hok
      rw [hmade, Multiset.mem_singleton] at hp
      rw [hp]
      rfl
    | _ =>
      rw [delivered_none rfl] at hp
      exact absurd hp (Multiset.notMem_zero p)
  · rw [(nothing_moved h hok).2.1] at hp
    exact absurd hp (Multiset.notMem_zero p)

section
variable {i : ℕ} {t : Tenant} {q : SessionState FlowSessionContext} {x : FlowSessionContext}
  {flows : GroupScheduler FlowSessionContext} {now : UInt64}

/-- The balance of a dequeue that puts its choice back. -/
theorem balanced_putBack (h : SchedulerInv s)
    (hbad : (respond s (.dequeue true now)).status ≠ .success) {s₁ : Scheduler} {t₁ : Tenant}
    (htaken : Taken s i t q x flows) (hput : PutBack s s₁ i t t₁ x flows)
    (hs : after s (.dequeue true now) = putBack s₁ i x) : Balanced s (.dequeue true now) := by
  obtain ⟨hacc, hdel, hend, hdis⟩ := nothing_moved h hbad
  have hchanges := hput.changes_all htaken
  have hqueue := queue_update hchanges.cores
  have htake : s.queue i = x ::ₘ contexts t₁.flowScheduler := by
    rw [htaken.queue h, hput.contexts_same]
  have hlost := lost_some (c := .dequeue true now) rfl hput.point
  by_cases hback : takesBack (s₁, i, x)
  · rw [if_pos hback] at hlost
    have hsame : contexts (putBackResult s₁ i t₁ x).gs = s.queue i := by
      rw [htake]
      exact contexts_enqueue ((takesBack_iff hput.tenant).mp hback)
    have hstill : (putBack s₁ i x).queue = s.queue :=
      hqueue.trans ((congrArg _ hsame).trans (Function.update_eq_self i s.queue))
    exact .still hs hchanges.config hstill hchanges.inFlight hacc hdel hend hdis hlost
  · rw [if_neg hback] at hlost
    have hsame : (putBackResult s₁ i t₁ x).gs = t₁.flowScheduler := by
      rcases enqueue_cases (registerTenantBacklog s₁ i).2.mem t₁.flowScheduler x.flowId
        x.workSize (some x) true with ⟨-, hsame, -⟩ | ⟨hok, -⟩
      · exact hsame
      · exact absurd ((takesBack_iff hput.tenant).mpr hok) hback
    constructor
    · rw [hacc, hdel, hdis, hlost, hs, Multiset.map_zero, zero_add, zero_add, add_zero]
      exact queuedSessions_take hchanges.config (h.lt_maxTenants htaken.tenant)
        (hqueue.trans (congrArg (fun gs => Function.update s.queue i (contexts gs)) hsame)) htake
    · rw [hdel, hend, hs, hchanges.inFlight]
      rfl

/-- The balance of a dequeue that delivers. -/
theorem balanced_delivers (h : SchedulerInv s)
    (hok : (respond s (.dequeue true now)).status = .success) {t' : Tenant}
    (htaken : Taken s i t q x flows)
    (hdelivers : Delivers s (after s (.dequeue true now)) i t t' x flows now.toNat) :
    Balanced s (.dequeue true now) := by
  obtain ⟨addr, -, hlist, hmade⟩ := hdelivers.delivered htaken hok
  have hdis : disposed s (.dequeue true now) = 0 := rfl
  have hacc : accepted s (.dequeue true now) = 0 := rfl
  have hend : ended s (.dequeue true now) = 0 := rfl
  have hcontexts : contexts t'.flowScheduler = contexts flows := by
    rcases hdelivers.tenant with rfl | ⟨w, rfl⟩
    · exact contexts_update flows x.workSize
    · exact (Tenant.mapStats_contexts _ _ _).trans (contexts_update flows x.workSize)
  have hqueue := (queue_update hdelivers.cores).trans (congrArg _ hcontexts)
  constructor
  · rw [hmade, hacc, hdis, lost_none hdelivers.point, Multiset.map_singleton, add_zero, add_zero,
      add_zero]
    exact queuedSessions_take hdelivers.config (h.lt_maxTenants htaken.tenant) hqueue
      (htaken.queue h)
  · rw [hmade, hend, hlist, Multiset.map_singleton, add_zero]
    rfl

end

theorem balanced_dequeue (h : SchedulerInv s) (now : UInt64) :
    Balanced s (.dequeue true now) := by
  have hconf := h.after_config (.dequeue true now)
  have hcall : DequeueEffect s true now.toNat (respond s (.dequeue true now)).status _
      (after s (.dequeue true now)) := (h.dequeue true now.toNat).2
  generalize hstatus : (respond s (.dequeue true now)).status = status at hcall
  generalize (hwfqDequeue s true now.toNat).2.1 = delivery at hcall
  generalize hs : after s (.dequeue true now) = s' at hconf hcall
  cases hcall with
  | refused failed point changes =>
    obtain ⟨hacc, hdel, hend, hdis⟩ := nothing_moved h (hstatus ▸ failed)
    exact .still hs hconf ((queue_of_cores changes.cores).trans (queueOf_cores s))
      changes.inFlight hacc hdel hend hdis (lost_none (point rfl))
  | @missed _ i t _ _ failed point tenant dequeued changes =>
    obtain ⟨hacc, hdel, hend, hdis⟩ := nothing_moved h (hstatus ▸ failed)
    exact .still hs hconf (queue_keep tenant changes.cores
      ((h.tenants i t tenant).flows.miss dequeued).2) changes.inFlight hacc hdel hend hdis
      (lost_none (point rfl))
  | putBack failed _ taken back => exact balanced_putBack h (hstatus ▸ failed) taken back hs
  | delivered _ taken delivers => exact balanced_delivers h hstatus taken (hs ▸ delivers)

theorem SchedulerInv.balanced (h : SchedulerInv s) (c : Call) : Balanced s c := by
  cases hc : c.asksSession with
  | false => exact balanced_quiet (h.effect c) h rfl rfl hc
  | true =>
    cases c with
    | dequeue out now =>
      obtain rfl : out = true := hc
      exact balanced_dequeue h now
    | _ => cases hc

end Hwfq
