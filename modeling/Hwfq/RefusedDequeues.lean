import Hwfq.IdleServer
import Hwfq.InternalErrors
import Hwfq.Overtaking
import Hwfq.RemovalGuards
import Hwfq.TokenClock

/-!
# Refused dequeues

A dequeue that finds no token changes nothing. One that is refused after it has taken a token
queues the token and the session again, with new tags behind those of what was queued after
them: whatever overtakes the one or the other is delivered first from then on. One that takes a
token and finds no session loses the token.
-/
namespace Hwfq
open GuardedRuns

variable {s s' u v : Scheduler} {x : FlowSessionContext} {i : ℕ}

/-- The sessions that a run delivers, in their order. -/
def deliveries (s : Scheduler) (calls : List Call) : List Delivery :=
  (outputs after (fun s c => (respond s c).delivery) s calls).flatMap Option.toList

/-- If the dequeue is refused, whatever calls follow deliver what they would have
delivered without it. -/
def Unnoticed (s : Scheduler) (out : Bool) (now : UInt64) : Prop :=
  (respond s (.dequeue out now)).status ≠ .success →
    ∀ calls, deliveries (after s (.dequeue out now)) calls = deliveries s calls

/-- There is no token that the dequeue can choose, or the session that it selects is delivered. -/
def MissesOrDelivers (s : Scheduler) (out : Bool) : Prop :=
  out = true → ¬ Offers s.systemScheduler ∨ (chosen s).isSome = true ∧ putBackPoint s = none

/-! ## Dequeues that put nothing back -/

/-- A dequeue that finds no token leaves everything as it is. -/
theorem TokenClock.dequeue_missed (h : TokenClock s) (hnone : ¬ Offers s.systemScheduler)
    (now : UInt64) : after s (.dequeue true now) = s := by
  obtain ⟨live, hpool, -⟩ := h.inv.system.pooled
  rw [← dequeue_isSome_iff_offers hpool.group.calendar] at hnone
  have hstate : after s (.dequeue true now) = (hwfqDequeue s true now.toNat).2.2 := rfl
  rcases h.inv.select with ⟨system, hd, heq, -⟩ | ⟨token, system, t, flows, hd, -⟩
  · rw [hstate, dequeue_refused heq, h.missed hd]
  · rw [hd] at hnone
    exact absurd rfl hnone

theorem TokenClock.unnoticed (h : TokenClock s) {out : Bool} (hc : MissesOrDelivers s out)
    (now : UInt64) : Unnoticed s out now := by
  intro hbad calls
  cases out with
  | false => rfl
  | true =>
    rcases hc rfl with hnone | ⟨hchosen, hpoint⟩
    · rw [h.dequeue_missed hnone]
    · exact absurd (dequeue_delivers hchosen hpoint now.toNat) hbad

/-! ## Sessions that are not next -/

/-- The queued session has the user data of `x`. -/
def Resembles (x : FlowSessionContext) (q : SessionState FlowSessionContext) : Prop :=
  ∃ y ∈ q.userData, y.userData = x.userData

/-- Another token stands in front of that of the tenant of `x`, or another session of the tenant
in front of all those with the user data of `x`. -/
def NotNext (s : Scheduler) (x : FlowSessionContext) : Prop :=
  (∃ q, Passed s.systemScheduler q (·.entryId = x.tenantId)) ∨
    ∀ t ∈ s.tenants x.tenantId, ∃ q, Passed t.flowScheduler q (Resembles x)

theorem SchedulerInv.selected_of_chosen (h : SchedulerInv s) (hchosen : chosen s = some x) :
    ∃ s₁ t q flows, Selected s s₁ x.tenantId t q x flows := by
  unfold chosen at hchosen
  rcases h.select with ⟨system, -, heq, -⟩ | ⟨token, system, t, flows, -, ht, -, hafter, hcase⟩
  · rw [heq] at hchosen
    cases hchosen
  rcases hcase with ⟨-, heq⟩ | ⟨q, y, htake, hcar, heq⟩
  · rw [heq] at hchosen
    cases hchosen
  · have hselected := Selected.of_select ht htake hcar heq hafter
    rw [heq] at hchosen
    cases hchosen
    rw [← hcar.tenant] at hselected
    exact ⟨_, t, q, flows, hselected⟩

/-- A session that does not fit is put back. -/
theorem SchedulerInv.full_point (h : SchedulerInv s) (hchosen : chosen s = some x)
    (hfull : overCapacity s x = true) : (putBackPoint s).isSome = true := by
  obtain ⟨s₁, t, q, flows, hselected⟩ := h.selected_of_chosen hchosen
  rw [putBackPoint, hselected.choice]
  dsimp only
  rw [if_pos (hselected.capacity.trans hfull)]
  rfl

/-- A session is chosen through the token of its tenant. -/
theorem SchedulerInv.taken_token (h : SchedulerInv s) {t : Tenant}
    {q : SessionState FlowSessionContext} {flows : GroupScheduler FlowSessionContext}
    (htaken : Taken s i t q x flows) :
    ∃ token system, groupSchedulerDequeue s.systemScheduler = (some token, system) ∧
      token.entryId = i := by
  have hsel := htaken.selected
  rcases h.select with ⟨system, -, heq, -⟩ | ⟨token, system, u, gs, hd, -, -, -, hcase⟩
  · rw [heq] at hsel
    cases hsel
  rcases hcase with ⟨-, heq⟩ | ⟨p, y, -, -, heq⟩
  · rw [heq] at hsel
    cases hsel
  · rw [heq] at hsel
    cases hsel
    exact ⟨token, system, hd, rfl⟩

theorem SchedulerInv.taken_of_delivery (h : SchedulerInv s) {now : UInt64} {d : Delivery}
    (hd : (respond s (.dequeue true now)).delivery = some d) :
    ∃ i t q x flows, Taken s i t q x flows ∧ d = x.delivery := by
  have heffect := h.effect (.dequeue true now)
  generalize respond s (.dequeue true now) = r at heffect hd
  generalize Hwfq.after s (.dequeue true now) = s' at heffect
  cases heffect with
  | idle _ nothing => rw [nothing] at hd; cases hd
  | flows update => cases update
  | missed _ _ _ nothing => rw [nothing] at hd; cases hd
  | putBack _ _ _ nothing => rw [nothing] at hd; cases hd
  | delivered taken _ => exact ⟨_, _, _, _, _, taken, (Option.some.inj hd).symm⟩

theorem NotNext.not_delivered (hnext : NotNext s x) (h : SchedulerInv s) (hgrid : OnGrid s s.cores)
    (hbins : s.grid.numBins ≤ 32768) (now : UInt64) :
    (respond s (.dequeue true now)).delivery ≠ some x.delivery := by
  intro hd
  obtain ⟨i, t, p, y, flows, htaken, hsame⟩ := h.taken_of_delivery hd
  obtain ⟨token, system, hdeq, htoken⟩ := h.taken_token htaken
  have hi : i = x.tenantId := by
    rw [← htaken.carries.tenant]
    exact (congrArg Delivery.tenantId hsame).symm
  rcases hnext with ⟨q, hpassed⟩ | hflows
  · exact hpassed.not_chosen (h.tokens_searchable hbins) hdeq (htoken.trans hi)
  · subst hi
    have htenant := htaken.tenant
    obtain ⟨q, hpassed⟩ := hflows t htenant
    have hgeometry : t.flowScheduler.geometry = s.grid := hgrid _ t.core (cores_some htenant)
    have hsearch := (h.tenants _ t htenant).flows.searchable
      ((congrArg Geometry.numBins hgeometry).trans_le hbins)
    apply hpassed.not_chosen hsearch htaken.dequeued
    exact ⟨y, htaken.carries.data, (congrArg Delivery.userData hsame).symm⟩

/-! ## Everything in flight is cancelled -/

/-- `u` has the tokens and the queues of `s`. -/
structure SameQueues (s u : Scheduler) : Prop where
  system : u.systemScheduler = s.systemScheduler
  flows : ∀ i t', u.tenants i = some t' →
    ∃ t, s.tenants i = some t ∧ t'.flowScheduler.queueView = t.flowScheduler.queueView

theorem SameQueues.refl (s : Scheduler) : SameQueues s s := ⟨rfl, fun _ t ht => ⟨t, ht, rfl⟩⟩

theorem SameQueues.trans (h : SameQueues s u) (h' : SameQueues u v) : SameQueues s v := by
  constructor
  · exact h'.system.trans h.system
  · intro i t'' ht''
    obtain ⟨t', ht', hview'⟩ := h'.flows i t'' ht''
    obtain ⟨t, ht, hview⟩ := h.flows i t' ht'
    exact ⟨t, ht, hview'.trans hview⟩

theorem Passed.of_queued {α : Type*} {gs gs' : GroupScheduler α} {q : SessionState α}
    {mine : SessionState α → Prop} (h : Passed gs q mine) (hq : gs'.queued = gs.queued) :
    Passed gs' q mine :=
  ⟨hq ▸ h.queued, hq ▸ h.front⟩

theorem SameQueues.notNext (h : SameQueues s u) (hnext : NotNext s x) : NotNext u x := by
  rcases hnext with hsystem | hflows
  · left
    rw [h.system]
    exact hsystem
  · right
    intro t' ht'
    obtain ⟨t, ht, hview⟩ := h.flows _ t' ht'
    obtain ⟨q, hpassed⟩ := hflows t ht
    exact ⟨q, hpassed.of_queued (queued_of_queueView hview)⟩

/-- One cancel for each session in flight. -/
def cancelAll (es : List InFlightEntry) : List Call :=
  es.map fun e => .cancel (.ofNat e.tenantId) (.ofNat e.flowId) none

/-- The ids of the outstanding sessions came in through arguments of 32 bits. -/
def IdsFit (s : Scheduler) : Prop := ∀ p ∈ s.outstanding, p.1 ≤ uint32Max ∧ p.2 ≤ uint32Max

theorem SchedulerInv.idsFit (h : SchedulerInv s) (hs : IdsFit s) (c : Call) :
    IdsFit (Hwfq.after s c) := by
  intro p hp
  rcases h.mem_outstanding_after hp with hold | hnew
  · exact hs p hold
  · obtain ⟨-, i, f, work, now, -, rfl⟩ := h.entered_configured hnew
    have hi := i.toNat_lt
    have hf := f.toNat_lt
    unfold uint32Max
    dsimp only
    omega

theorem mapStatsAt_none {cores : ℕ → Option Tenant} (h : cores i = none) (j flowId : ℕ)
    (f : Stats → Stats) : mapStatsAt cores j flowId f i = none := by
  unfold mapStatsAt
  by_cases hi : i = j
  · subst hi
    rw [Function.update_self, h]
    rfl
  · rw [Function.update_of_ne hi, h]

/-- The first session in flight is cancelled, and nothing else changes but its counters. -/
theorem SchedulerInv.cancel_first (h : SchedulerInv s) {e : InFlightEntry} {rest : List InFlightEntry}
    (hlist : s.inFlight = e :: rest) (hids : IdsFit s) :
    let c := Call.cancel (.ofNat e.tenantId) (.ofNat e.flowId) none
    SameQueues s (Hwfq.after s c) ∧ (Hwfq.after s c).inFlight = rest ∧ (respond s c).delivery = none := by
  intro c
  have hmem : e ∈ s.inFlight := hlist ▸ List.mem_cons_self
  obtain ⟨hi, hf⟩ : e.tenantId ≤ uint32Max ∧ e.flowId ≤ uint32Max :=
    hids _ (mem_outstanding_flight hmem)
  have hi' : (UInt32.ofNat e.tenantId).toNat = e.tenantId := by
    apply UInt32.toNat_ofNat_of_lt
    unfold uint32Max at hi
    exact Nat.lt_succ_of_le hi
  have hf' : (UInt32.ofNat e.flowId).toNat = e.flowId := by
    apply UInt32.toNat_ofNat_of_lt
    unfold uint32Max at hf
    exact Nat.lt_succ_of_le hf
  have hfirst : inFlightLookup s none (UInt32.ofNat e.tenantId).toNat (UInt32.ofNat e.flowId).toNat =
      some e := by
    rw [hi', hf', inFlightLookup, if_neg (by simp), hlist]
    exact List.find?_cons_of_pos (by simp)
  obtain ⟨-, ⟨hnone, -⟩ | ⟨found, hfound, -, hends⟩⟩ := h.cancel none (UInt32.ofNat e.tenantId).toNat
    (UInt32.ofNat e.flowId).toNat
  · rw [hnone] at hfirst
    cases hfirst
  rw [hfirst, Option.some.injEq] at hfound
  subst hfound
  refine ⟨⟨cancel_system s none _ _, ?_⟩, ?_, rfl⟩
  · intro i t' ht'
    have hat := cores_some ht'
    have hcores : (Hwfq.after s c).cores = _ := hends.cores
    rw [hcores] at hat
    cases ht : s.tenants i with
    | none =>
      rw [mapStatsAt_none (cores_none ht) _ _ _] at hat
      cases hat
    | some t =>
      have hagree := (FlowsAgree.refl s.cores).mapStatsAt (UInt32.ofNat e.tenantId).toNat
        (UInt32.ofNat e.flowId).toNat Stats.backlogDownIfPositive
      exact ⟨t, rfl, (hagree i t.core t'.core (cores_some ht) hat).view⟩
  · have hflight : (Hwfq.after s c).inFlight = _ := hends.inFlight
    rw [hflight, inFlightRemove, hlist]
    simp

theorem deliveries_cons (s : Scheduler) (c : Call) (calls : List Call) :
    deliveries s (c :: calls) = (respond s c).delivery.toList ++ deliveries (after s c) calls := rfl

theorem deliveries_append (s : Scheduler) (calls calls' : List Call) :
    deliveries s (calls ++ calls') = deliveries s calls ++ deliveries (afterRun s calls) calls' := by
  induction calls generalizing s with
  | nil => rfl
  | cons c calls ih =>
    rw [List.cons_append, deliveries_cons, deliveries_cons, ih, List.append_assoc]
    rfl

/-- The table is emptied, and no session is delivered on the way. -/
theorem SchedulerInv.cancelAll (h : SchedulerInv s) (hids : IdsFit s) :
    let calls := Hwfq.cancelAll s.inFlight
    SameQueues s (Hwfq.afterRun s calls) ∧ (Hwfq.afterRun s calls).inFlight = [] ∧
      deliveries s calls = [] := by
  generalize hlist : s.inFlight = es
  induction es generalizing s with
  | nil => exact ⟨.refl s, hlist, rfl⟩
  | cons e es ih =>
    obtain ⟨hsame, hrest, hnone⟩ := h.cancel_first hlist hids
    obtain ⟨hqueues, hempty, hdelivered⟩ := ih (h.after _) (h.idsFit hids _) hrest
    refine ⟨hsame.trans hqueues, hempty, ?_⟩
    rw [Hwfq.cancelAll, List.map_cons, deliveries_cons, hnone]
    exact hdelivered

/-- The choice depends on the queues and the clocks. -/
theorem SameQueues.chosen (h : SameQueues s u) (hs : SchedulerInv s) (hu : SchedulerInv u) :
    chosen u = Hwfq.chosen s := by
  unfold Hwfq.chosen
  rcases hu.select with ⟨system, hd, heq, -⟩ | ⟨token, system, t', flows', hd, ht', -, -, hcase'⟩
  · rcases hs.select with ⟨system₀, -, heq₀, -⟩ | ⟨token, system₀, t, flows, hd₀, -, -, -, -⟩
    · rw [heq, heq₀]
    · rw [h.system, hd₀] at hd
      cases hd
  rcases hs.select with ⟨system₀, hd₀, -, -⟩ | ⟨token₀, system₀, t, flows, hd₀, ht, -, -, hcase⟩
  · rw [h.system, hd₀] at hd
    cases hd
  rw [h.system, hd₀] at hd
  cases hd
  obtain ⟨t₀, ht₀, hview⟩ := h.flows _ t' ht'
  rw [ht] at ht₀
  cases ht₀
  have hcal := (hs.tenants _ t ht).flows.group.calendar
  have hfound := dequeue_of_queueView hcal hview
  rcases hcase with ⟨hmiss, heq⟩ | ⟨q, x, htake, hcar, heq⟩
  · rcases hcase' with ⟨-, heq'⟩ | ⟨q', x', htake', -, -⟩
    · rw [heq, heq']
    · rw [htake', hmiss] at hfound
      cases hfound
  · rcases hcase' with ⟨hmiss', -⟩ | ⟨q', x', htake', hcar', heq'⟩
    · rw [hmiss', htake] at hfound
      cases hfound
    · rw [htake', htake] at hfound
      cases hfound
      have hdata := hcar.data.symm.trans hcar'.data
      rw [heq, heq', Option.some.inj hdata]

/-- An idle server hands out the session that it chooses, if it fits into the capacity. -/
theorem SchedulerInv.idle_delivers (h : SchedulerInv s) (hmem : s.mem.AlwaysOk)
    (hidle : s.inFlight = []) (hchosen : Hwfq.chosen s = some x) (hfits : x.workSize ≤ s.totalCapacity)
    (now : UInt64) : (respond s (.dequeue true now)).delivery = some x.delivery := by
  have hpoint : putBackPoint s = none := by
    apply h.idle_point hmem hidle
    rw [hchosen]
    intro y hy
    cases hy
    exact hfits
  have hok : (respond s (.dequeue true now)).status = .success :=
    dequeue_delivers (Option.isSome_of_eq_some hchosen) hpoint now.toNat
  obtain ⟨y, addr, -, hmade, hreport⟩ := h.delivery hok
  have hy : y ∈ Hwfq.chosen s := by
    apply delivered_chosen
    rw [hmade]
    exact Multiset.mem_singleton_self _
  rw [hchosen, Option.mem_some_iff] at hy
  rw [hreport, ← hy]
  rfl

/-! ## Sessions that are put back -/

/-- The session `x` that a dequeue selects fits into the capacity, but not beside what is in
flight, and is overtaken where it is put back: its token by another one, or the session itself
by another one of its tenant and none of these has its user data. -/
structure Overtaken (s : Scheduler) (x : FlowSessionContext) : Prop where
  selected : chosen s = some x
  full : overCapacity s x = true
  fits : x.workSize ≤ s.totalCapacity
  behind : HasRival s.systemScheduler (·.entryId ≠ x.tenantId) x.tenantId tenantQuantumSize ∨
    ∃ t ∈ s.tenants x.tenantId,
      ((contexts t.flowScheduler).map (·.userData)).count x.userData ≤ 1 ∧
      HasRival t.flowScheduler (·.userData ≠ some x) x.flowId x.workSize

/-- The token that is put in for the one taken is overtaken. -/
theorem SchedulerInv.token_passed (h : SchedulerInv s) (hchosen : chosen s = some x)
    {q : SessionState TenantPtr} (hq : q ∈ s.systemScheduler.queued) (hne : q.entryId ≠ x.tenantId)
    (hahead : Outruns s.systemScheduler q x.tenantId tenantQuantumSize) (now : UInt64) :
    ∃ q', Passed (Hwfq.after s (.dequeue true now)).systemScheduler q' (·.entryId = x.tenantId) := by
  obtain ⟨live, hpool, -⟩ := h.system.pooled
  have hgroup := hpool.group
  have hstate : (Hwfq.after s (.dequeue true now)).systemScheduler =
    (hwfqDequeue s true now.toNat).2.2.systemScheduler := rfl
  obtain ⟨s₁, t, p, flows, hselected⟩ := h.selected_of_chosen hchosen
  obtain ⟨token, system, hd, htoken⟩ := h.taken_token hselected.taken
  rcases h.token_cases now.toNat with ⟨system', hd', -⟩ | ⟨token', system', hd', htrace⟩
  · rw [hd] at hd'
    cases hd'
  rw [hd] at hd'
  cases hd'
  rw [hstate]
  have hqueued := (dequeue_some hgroup.calendar hd).2.2
  have hnext : GroupInv s.mem system := by
    have hdequeue := hgroup.dequeue
    rwa [hd] at hdequeue
  have hrest : q ∈ system.queued := by
    rw [hqueued] at hq
    rcases Multiset.mem_cons.mp hq with rfl | hq
    · exact absurd htoken hne
    · exact hq
  have hothers : ∀ r ∈ system.queued, r.entryId ≠ x.tenantId := by
    have hdistinct := h.system.distinct
    rw [hqueued, Multiset.map_cons, Multiset.nodup_cons] at hdistinct
    intro r hr heq
    apply hdistinct.1
    rw [htoken, ← heq]
    exact Multiset.mem_map_of_mem _ hr
  have hupdated := (hahead.dequeue hgroup.calendar hd).update hnext tenantQuantumSize
  have hleads : Leads (groupSchedulerUpdateVirtualTime system tenantQuantumSize)
      (q.rebase (updateOffset system tenantQuantumSize)) x.tenantId tenantQuantumSize
      (·.entryId = x.tenantId) := by
    apply hupdated.leads (hnext.update tenantQuantumSize)
    · rw [updateVirtualTime_queued]
      exact Multiset.mem_map_of_mem _ hrest
    · rw [updateVirtualTime_queued]
      intro r hr
      obtain ⟨r₀, hr₀, rfl⟩ := Multiset.mem_map.mp hr
      exact hothers r₀ hr₀
  exact ⟨_, (hleads.trace htrace).passed⟩

/-- The session that is put back is overtaken in its flow scheduler. -/
theorem SchedulerInv.session_passed (h : SchedulerInv s) (hchosen : chosen s = some x)
    (hfull : overCapacity s x = true) {t t' : Tenant} (ht : s.tenants x.tenantId = some t)
    (halone : ((contexts t.flowScheduler).map (·.userData)).count x.userData ≤ 1)
    {q : SessionState FlowSessionContext} (hq : q ∈ t.flowScheduler.queued)
    (hne : q.userData ≠ some x) (hahead : Outruns t.flowScheduler q x.flowId x.workSize)
    {now : UInt64} (ht' : (Hwfq.after s (.dequeue true now)).tenants x.tenantId = some t') :
    ∃ q', Passed t'.flowScheduler q' (Resembles x) := by
  have hleft := leaves_asked hchosen x.tenantId now
  rw [if_pos rfl] at hleft
  have hnonempty : leaves x.tenantId s (.dequeue true now) ≠ [] := by
    rw [hleft]
    exact List.cons_ne_nil x []
  have heffect := h.flowEffect ht ht'
  cases heffect with
  | edited _ left _ => exact absurd left hnonempty
  | accepted call => cases call
  | missed _ _ left _ => exact absurd left hnonempty
  | delivered _ point _ _ _ _ =>
    have hpoint := h.full_point hchosen hfull
    rw [point] at hpoint
    cases hpoint
  | @putBack p y flows s₁ t₁ _ taken before result _ _ =>
    rw [taken.chosen, Option.some.injEq] at hchosen
    subst hchosen
    have hflows := (h.tenants _ t ht).flows
    have hgroup := hflows.group
    have hqueued := (dequeue_some hgroup.calendar taken.dequeued).2.2
    have hnext : GroupInv s.mem flows := by
      have hdequeue := hgroup.dequeue
      rwa [taken.dequeued] at hdequeue
    have hrest : q ∈ flows.queued := by
      rw [hqueued] at hq
      rcases Multiset.mem_cons.mp hq with rfl | hq
      · exact absurd taken.carries.data hne
      · exact hq
    have hothers : ∀ r ∈ flows.queued, ¬ Resembles y r := by
      obtain ⟨-, y', hcar, hcontexts⟩ := hflows.take taken.dequeued
      obtain rfl := Option.some.inj (hcar.data.symm.trans taken.carries.data)
      rw [hcontexts, Multiset.map_cons, Multiset.count_cons_self] at halone
      rintro r hr ⟨z, hz, hsame⟩
      have hin : z.userData ∈ (contexts flows).map (·.userData) :=
        Multiset.mem_map_of_mem _ ((Multiset.mem_filterMap (f := SessionState.userData) _).mpr ⟨r, hr, hz⟩)
      rw [hsame] at hin
      have hpos := Multiset.count_pos.mpr hin
      omega
    have hdequeued := hahead.dequeue hgroup.calendar taken.dequeued
    obtain ⟨q', hleads⟩ : ∃ q', Leads t₁.flowScheduler q' y.flowId y.workSize (Resembles y) := by
      rcases before.flows with heq | heq
      · rw [heq]
        exact ⟨q, hdequeued.leads hnext hrest hothers⟩
      · rw [heq]
        refine ⟨_, (hdequeued.update hnext y.workSize).leads (hnext.update y.workSize) ?_ ?_⟩
        · rw [updateVirtualTime_queued]
          exact Multiset.mem_map_of_mem _ hrest
        · rw [updateVirtualTime_queued]
          intro r hr
          obtain ⟨r₀, hr₀, rfl⟩ := Multiset.mem_map.mp hr
          exact hothers r₀ hr₀
    rw [result, putBackResult]
    exact ⟨q', (hleads.enqueue _ (.inl ⟨rfl, rfl⟩) _ _).passed⟩

theorem Overtaken.notNext (hx : Overtaken s x) (h : SchedulerInv s) (now : UInt64) :
    NotNext (after s (.dequeue true now)) x := by
  rcases hx.behind with ⟨q, hq, hne, hahead⟩ | ⟨t, ht, halone, q, hq, hne, hahead⟩
  · exact .inl (h.token_passed hx.selected hq hne hahead now)
  · right
    intro t' ht'
    exact h.session_passed hx.selected hx.full ht halone hq hne hahead ht'

/-- A dequeue that selects nothing, or puts back what it selects, is refused and leaves the table
of sessions in flight alone. -/
theorem SchedulerInv.undelivered (h : SchedulerInv s)
    (hnot : chosen s = none ∨ (putBackPoint s).isSome = true) (now : UInt64) :
    (respond s (.dequeue true now)).status ≠ .success ∧
      (respond s (.dequeue true now)).delivery = none ∧
      (Hwfq.after s (.dequeue true now)).inFlight = s.inFlight := by
  have heffect := h.effect (.dequeue true now)
  generalize respond s (.dequeue true now) = r at heffect ⊢
  generalize Hwfq.after s (.dequeue true now) = s' at heffect ⊢
  cases heffect with
  | idle failed nothing tokens => exact ⟨failed, nothing, tokens.inFlight⟩
  | flows update => cases update
  | missed _ _ failed nothing changes => exact ⟨failed, nothing, changes.inFlight⟩
  | putBack taken before failed nothing =>
    exact ⟨failed, nothing, (before.changes_all taken).inFlight⟩
  | delivered taken delivers =>
    rw [taken.chosen, delivers.point] at hnot
    rcases hnot with hbad | hbad <;> cases hbad

/-- What every run with granted memory keeps true. -/
structure Underway (s : Scheduler) : Prop where
  inv : SchedulerInv s
  granted : s.mem.AlwaysOk
  grid : OnGrid s s.cores
  ids : IdsFit s

theorem Underway.step (h : Underway s) (c : Call) : Underway (after s c) := by
  constructor
  · exact h.inv.after c
  · exact h.inv.afterRun_granted h.granted [c]
  · exact h.inv.onGrid h.grid c
  · exact h.inv.idsFit h.ids c

theorem Underway.run (h : Underway s) (calls : List Call) : Underway (afterRun s calls) :=
  run_invariant_all (fun _ c hs => hs.step c) h calls

theorem Made.underway (h : Made s) (hmem : s.mem.AlwaysOk) : Underway s := by
  have hnamed := h.accounted.named
  obtain ⟨mem, config, hinit⟩ := h
  have hnew := hwfqInit_success hinit
  refine ⟨hnew.inv, hmem, hnew.placed.grid, fun p hp => ?_⟩
  obtain ⟨t, ht, -⟩ := hnamed p hp
  rw [hnew.tenants] at ht
  cases ht

/-- The session that is asked for once everything in flight is cancelled. -/
theorem Underway.emptied (h : Underway s) (now : UInt64) :
    ∃ u, Underway u ∧ SameQueues s u ∧ u.config = s.config ∧ u.inFlight = [] ∧
      deliveries s (cancelAll s.inFlight ++ [.dequeue true now]) =
        (respond u (.dequeue true now)).delivery.toList := by
  obtain ⟨hqueues, hidle, hnothing⟩ := h.inv.cancelAll h.ids
  refine ⟨_, h.run _, hqueues, h.inv.afterRun_config _, hidle, ?_⟩
  rw [deliveries_append, hnothing, List.nil_append, deliveries_cons]
  exact List.append_nil _

/-- On the emptied server the session that comes next is the one chosen. -/
theorem Underway.emptied_delivers (h : Underway s) (hchosen : chosen s = some x)
    (hfits : x.workSize ≤ s.totalCapacity) (now : UInt64) :
    deliveries s (cancelAll s.inFlight ++ [.dequeue true now]) = [x.delivery] := by
  obtain ⟨u, hu, hqueues, hconf, hidle, hasked⟩ := h.emptied now
  have hcapacity : u.totalCapacity = s.totalCapacity := congrArg (·.totalCapacity.toNat) hconf
  have hdelivers := hu.inv.idle_delivers hu.granted hidle
    ((hqueues.chosen h.inv hu.inv).trans hchosen) (hcapacity ▸ hfits) now
  rw [hasked, hdelivers]
  rfl

theorem Underway.noticed (h : Underway s) (hbins : s.grid.numBins ≤ 32768) (hx : Overtaken s x)
    (now : UInt64) : ¬ Unnoticed s true now := by
  intro hsame
  obtain ⟨hbad, -, hflight⟩ := h.inv.undelivered (.inr (h.inv.full_point hx.selected hx.full)) now
  have hafter := h.step (.dequeue true now)
  obtain ⟨u, hu, hqueues, hconf, -, hasked⟩ := hafter.emptied now
  have hgrid : u.grid = s.grid := grid_of_config (hconf.trans (h.inv.after_config _))
  have hcalls := hsame hbad (cancelAll s.inFlight ++ [.dequeue true now])
  rw [hflight] at hasked
  rw [hasked, h.emptied_delivers hx.selected hx.fits] at hcalls
  have hother := (hqueues.notNext (hx.notNext h.inv now)).not_delivered hu.inv hu.grid
    (hgrid ▸ hbins) now
  exact hother (Option.toList_eq_singleton_iff.mp hcalls)

/-! ## Tokens that are lost -/

/-- The dequeue selects no session, and the next one selects `x`, which fits into the capacity:
it takes a token and loses it. -/
structure Forfeits (s : Scheduler) (now : UInt64) (x : FlowSessionContext) : Prop where
  nothing : chosen s = none
  next : chosen (after s (.dequeue true now)) = some x
  fits : x.workSize ≤ s.totalCapacity

theorem Underway.loss_noticed (h : Underway s) {now : UInt64} (hx : Forfeits s now x) :
    ¬ Unnoticed s true now := by
  intro hsame
  obtain ⟨hbad, -, hflight⟩ := h.inv.undelivered (.inl hx.nothing) now
  have hafter := h.step (.dequeue true now)
  have hcapacity : (after s (.dequeue true now)).totalCapacity = s.totalCapacity :=
    congrArg (·.totalCapacity.toNat) (h.inv.after_config _)
  have hdelivers := hafter.emptied_delivers hx.next (hcapacity ▸ hx.fits) now
  obtain ⟨u, hu, hqueues, -, -, hasked⟩ := h.emptied now
  have hnone := (hqueues.chosen h.inv hu.inv).trans hx.nothing
  have hcalls := hsame hbad (cancelAll s.inFlight ++ [.dequeue true now])
  rw [hflight] at hdelivers
  rw [hdelivers, hasked, (hu.inv.undelivered (.inl hnone) now).2.1] at hcalls
  cases hcalls

/-- In every state of every run, a refused dequeue goes unnoticed if it has found no token or
does not put back what it selects. With memory granted, no dequeue goes unnoticed that puts
back a session which is then overtaken (with up to 32768 bins), or that loses a token in front
of another session. -/
theorem refused_dequeue_unnoticed (h : Made s) (calls : List Call) (now : UInt64) :
    let s' := afterRun s calls
    (∀ out, MissesOrDelivers s' out → Unnoticed s' out now) ∧
      (s.mem.AlwaysOk → s.grid.numBins ≤ 32768 → ∀ x, Overtaken s' x → ¬ Unnoticed s' true now) ∧
      (s.mem.AlwaysOk → ∀ x, Forfeits s' now x → ¬ Unnoticed s' true now) := by
  refine ⟨?_, ?_, ?_⟩
  · intro out hc
    exact (h.tokenClock calls).unnoticed hc now
  · intro hmem hbins x hx
    have hgrid : (afterRun s calls).grid = s.grid := grid_of_config (h.inv.afterRun_config calls)
    exact ((h.underway hmem).run calls).noticed (hgrid ▸ hbins) hx now
  · intro hmem x hx
    exact ((h.underway hmem).run calls).loss_noticed hx

/-- Sixteen groups of 4096 bins: the search looks at half of them. -/
def wideConfig : Config :=
  { smallConfig with numGroups := 16, binsPerGroup := 4096 }

theorem wideConfig_accepted : (hwfqInit generousAllocator wideConfig).2.isSome = true := by
  decide +kernel

def wideScheduler : Scheduler := madeWith generousAllocator wideConfig wideConfig_accepted

theorem wideScheduler_made : Made wideScheduler := madeWith_made wideConfig_accepted

/-- The token of a tenant of rate 1 lies in a bin that the search does not visit. -/
def hiddenToken : List Call :=
  [.addTenant (some (.rate 1)) true, .addFlow 0 (some (.weight 1)) true,
    .enqueue 0 1 (some { userData := 7, workSize := 60 }) 0]

/-- One session of size 60 is in flight and two more are queued in the same flow. -/
def atCapacity : List Call :=
  [.addTenant (some (.weight 1)) true, .addFlow 0 (some (.weight 1)) true,
    .enqueue 0 1 (some { userData := 7, workSize := 60 }) 0, .dequeue true 0,
    .enqueue 0 1 (some { userData := 8, workSize := 60 }) 0,
    .enqueue 0 1 (some { userData := 9, workSize := 60 }) 0]

theorem hiddenToken_missed :
    ¬ Offers (afterRun wideScheduler hiddenToken).systemScheduler := by
  have hinv := wideScheduler_made.afterRun hiddenToken
  obtain ⟨live, hpool, -⟩ := hinv.system.pooled
  rw [← dequeue_isSome_iff_offers hpool.group.calendar]
  decide +kernel

/-- The second session of the three. -/
def nextAtCapacity : FlowSessionContext :=
  { addr := 19, tenantId := 0, flowId := 1, userData := 8, workSize := 60, enqueueTimeNs := 0,
    timeoutNs := 0, cleanupFn := false }

theorem atCapacity_overtaken : Overtaken (afterRun smallScheduler atCapacity) nextAtCapacity := by
  obtain ⟨hselected, hfull, hfits, hbehind⟩ :
      chosen (afterRun smallScheduler atCapacity) = some nextAtCapacity ∧
        overCapacity (afterRun smallScheduler atCapacity) nextAtCapacity = true ∧
        nextAtCapacity.workSize ≤ (afterRun smallScheduler atCapacity).totalCapacity ∧
        ∃ t ∈ (afterRun smallScheduler atCapacity).tenants nextAtCapacity.tenantId,
          ((contexts t.flowScheduler).map (·.userData)).count nextAtCapacity.userData ≤ 1 ∧
          HasRival t.flowScheduler (·.userData ≠ some nextAtCapacity) nextAtCapacity.flowId
            nextAtCapacity.workSize := by decide +kernel
  exact ⟨hselected, hfull, hfits, .inr hbehind⟩

/-- The first of two tokens is taken for a session that finishes at the sentinel. -/
def saturatedSession : List Call :=
  [.addTenant (some (.weight 1)) true, .addFlow 0 (some (.rate 1)) true,
    .addTenant (some (.weight 1)) true, .addFlow 1 (some (.weight 1)) true,
    .enqueue 1 1 (some { userData := 8, workSize := 60 }) 0,
    .enqueue 0 1 (some { userData := 7, workSize := 17592186044416 }) 0]

/-- The session of the other tenant. -/
def besideSaturated : FlowSessionContext :=
  { addr := 21, tenantId := 1, flowId := 1, userData := 8, workSize := 60, enqueueTimeNs := 0,
    timeoutNs := 0, cleanupFn := false }

theorem saturatedSession_forfeits :
    Forfeits (afterRun smallScheduler saturatedSession) 0 besideSaturated := by
  obtain ⟨hnothing, hnext, hfits⟩ : chosen (afterRun smallScheduler saturatedSession) = none ∧
      chosen (after (afterRun smallScheduler saturatedSession) (.dequeue true 0)) =
        some besideSaturated ∧
      besideSaturated.workSize ≤ (afterRun smallScheduler saturatedSession).totalCapacity := by
    decide +kernel
  exact ⟨hnothing, hnext, hfits⟩

/-- A dequeue that is not noticed and two that are. -/
theorem refused_dequeue_unnoticed_hidden :
    Unnoticed (afterRun wideScheduler hiddenToken) true 0 ∧
      ¬ Unnoticed (afterRun smallScheduler atCapacity) true 0 ∧
      ¬ Unnoticed (afterRun smallScheduler saturatedSession) true 0 := by
  refine ⟨?_, ?_, ?_⟩
  · exact (refused_dequeue_unnoticed wideScheduler_made hiddenToken 0).1 true fun _ =>
      .inl hiddenToken_missed
  · apply (refused_dequeue_unnoticed smallScheduler_made atCapacity 0).2.1 smallScheduler_granted
    · decide +kernel
    · exact atCapacity_overtaken
  · exact (refused_dequeue_unnoticed smallScheduler_made saturatedSession 0).2.2
      smallScheduler_granted _ saturatedSession_forfeits

/-- After a refused dequeue the later session of the flow is delivered first. -/
theorem refused_dequeue_noticed :
    ¬ Unnoticed (afterRun smallScheduler atCapacity) true 0 := by
  obtain ⟨hbad, hdiffer⟩ :
      (respond (afterRun smallScheduler atCapacity) (.dequeue true 0)).status ≠ .success ∧
        deliveries (after (afterRun smallScheduler atCapacity) (.dequeue true 0))
            [.complete 0 1 none, .dequeue true 0] ≠
          deliveries (afterRun smallScheduler atCapacity) [.complete 0 1 none, .dequeue true 0] := by
    decide +kernel
  exact fun hsame => hdiffer (hsame hbad _)

end Hwfq
