import Hwfq.SessionLedger
import Hwfq.SlotStatistics

/-!
# Outstanding sessions and the counters of the flows

The backlog counter of a flow goes up with each session it accepts and down with each
that is completed or cancelled. The counter is the only guard of the flow's removal, so
what it counts has to cover the sessions that are queued or in flight.
-/
namespace Hwfq
open GuardedRuns

variable {s s' : Scheduler} {c : Call} {r : Response} {i j : ℕ} {t u : Tenant}

/-! ## The outstanding sessions -/

/-- The tenant and the flow that a session was enqueued for. -/
def FlowSessionContext.ids (x : FlowSessionContext) : ℕ × ℕ := (x.tenantId, x.flowId)

def InFlightEntry.ids (e : InFlightEntry) : ℕ × ℕ := (e.tenantId, e.flowId)

/-- The ids of the sessions that are queued or in flight, once for each session. -/
def Scheduler.outstanding (s : Scheduler) : Multiset (ℕ × ℕ) :=
  s.queuedSessions.map FlowSessionContext.ids + (s.inFlight : Multiset InFlightEntry).map InFlightEntry.ids

/-- The ids of a session that the call accepts. -/
def entered (s : Scheduler) (c : Call) : Multiset (ℕ × ℕ) :=
  (accepted s c).map FlowSessionContext.ids

/-- The ids of a session that the call completes or cancels. -/
def settled (s : Scheduler) : Call → Multiset (ℕ × ℕ)
  | .complete i f work | .cancel i f work =>
      ((inFlightLookup s work i.toNat f.toNat).map InFlightEntry.ids).toList
  | _ => 0

/-- The sessions that time out. -/
def timedOut (s : Scheduler) : Call → Multiset InFlightEntry
  | .checkTimeouts now => (s.inFlight.filter (isTimedOut now.toNat) : List InFlightEntry)
  | _ => 0

/-- The ids of the sessions that leave without being settled: they time out, go with
their tenant, or are put back in vain. -/
def dropped (s : Scheduler) (c : Call) : Multiset (ℕ × ℕ) :=
  (timedOut s c).map InFlightEntry.ids + (disposed s c + lost s c).map FlowSessionContext.ids

theorem ended_ids (s : Scheduler) (c : Call) :
    (ended s c).map InFlightEntry.ids + (disposed s c + lost s c).map FlowSessionContext.ids =
      settled s c + dropped s c := by
  rw [dropped, ← add_assoc]
  congr 1
  cases c with
  | complete i f work =>
    rw [ended, settled]
    cases inFlightLookup s work i.toNat f.toNat <;> rfl
  | cancel i f work =>
    rw [ended, settled]
    cases inFlightLookup s work i.toNat f.toNat <;> rfl
  | checkTimeouts now => exact (zero_add _).symm
  | _ => rfl

theorem SchedulerInv.delivered_ids (h : SchedulerInv s) (c : Call) :
    (delivered s c).map (fun p => p.1.ids) = (delivered s c).map (fun p => p.2.ids) := by
  apply Multiset.map_congr rfl
  intro p hp
  rw [h.delivered_records hp]
  rfl

/-- The balance of the outstanding sessions. -/
theorem SchedulerInv.outstanding_balance (h : SchedulerInv s) (c : Call) :
    s.outstanding + entered s c =
      (Hwfq.after s c).outstanding + (settled s c + dropped s c) := by
  have hqueued := congrArg (Multiset.map FlowSessionContext.ids) (h.balanced c).queued
  have hflight := congrArg (Multiset.map InFlightEntry.ids) (h.balanced c).flight
  have hpair := h.delivered_ids c
  rw [← ended_ids]
  simp only [Multiset.map_add, Multiset.map_map, Function.comp_def] at hqueued hflight ⊢
  rw [hpair] at hqueued
  rw [Scheduler.outstanding, Scheduler.outstanding, entered]
  generalize (delivered s c).map (fun p => p.2.ids) = moved at hqueued hflight
  have hboth := congrArg₂ (· + ·) hqueued hflight
  apply add_right_cancel (b := moved)
  calc _ = _ := by abel
    _ = _ := hboth
    _ = _ := by abel

theorem SchedulerInv.count_balance (h : SchedulerInv s) (c : Call) (p : ℕ × ℕ) :
    s.outstanding.count p + (entered s c).count p =
      (Hwfq.after s c).outstanding.count p + ((settled s c).count p + (dropped s c).count p) := by
  have hcount := congrArg (Multiset.count p) (h.outstanding_balance c)
  rwa [Multiset.count_add, Multiset.count_add, Multiset.count_add] at hcount

/-! ## The counters -/

/-- What `g` reads in the statistics of slot `j` of the store of tenant `i`. -/
def readAt {β : Type*} (g : Stats → β) (cores : ℕ → Option Tenant) (i j : ℕ) : Option β :=
  (cores i).bind fun t => (slotStats t.flowScheduler.entries j).map g

/-- The backlog counter in a slot. -/
def backlogAt (cores : ℕ → Option Tenant) : ℕ → ℕ → Option ℕ := readAt Stats.currentBacklog cores

def tenantBacklogAt (cores : ℕ → Option Tenant) (i : ℕ) : Option ℕ :=
  (cores i).map (·.stats.currentBacklog)

/-- What a call makes of a counter that the session it accepts, or the one it settles,
is counted by. -/
def recount (up down : Prop) [Decidable up] [Decidable down] (b : ℕ) : ℕ :=
  if up then u32 (b + 1) else if down ∧ b > 0 then subU32 b 1 else b

theorem map_recount_neither {up down : Prop} [Decidable up] [Decidable down] (hup : ¬ up)
    (hdown : ¬ down) (o : Option ℕ) : o.map (recount up down) = o := by
  cases o with
  | none => rfl
  | some b => simp [recount, hup, hdown]

/-- A call that may accept or settle a session. -/
def Call.countsSessions : Call → Bool
  | .enqueue _ _ _ _ => true
  | .complete _ _ _ => true
  | .cancel _ _ _ => true
  | _ => false

theorem TenantTrace.backlogs (h : TenantTrace c t u) (hc : c.countsSessions = false) :
    u.stats.currentBacklog = t.stats.currentBacklog ∧
      ∀ j, (slotStats u.flowScheduler.entries j).map (·.currentBacklog) =
        (slotStats t.flowScheduler.entries j).map (·.currentBacklog) := by
  induction h with
  | refl => exact ⟨rfl, fun _ => rfl⟩
  | queue _ trace ih =>
    refine ⟨ih.1, fun j => ?_⟩
    dsimp only
    rw [trace.slotStats, ih.2]
  | @stats u f _ flowId update ih =>
    cases update with
    | @addWait out now waitTimeNs =>
      refine ⟨ih.1, fun j => ?_⟩
      rw [mapStats_slotStats, ← ih.2]
      split_ifs
      · rw [Option.map_map]
        rfl
      · rfl
    | _ => cases hc
  | @reset u u' _ resets reset ih =>
    refine ⟨reset.backlog.trans ih.1, fun j => ?_⟩
    obtain ⟨which, hentries⟩ := reset.entries
    rw [← ih.2, slotStats, hentries.get, slotStats, Option.map_map, Option.map_map, Option.map_map]
    congr 1
    funext e
    dsimp only [Function.comp_apply]
    by_cases hwhich : which j = true
    · rw [if_pos hwhich, resetFlowStats]
      split_ifs <;> rfl
    · rw [if_neg hwhich]
      rfl
  | allocation _ _ ih => exact ih

theorem readAt_mapStatsAt {β : Type*} {g : Stats → β} {cores : ℕ → Option Tenant} {i₀ f : ℕ}
    {h : Stats → Stats} {k : β → β} (hg : ∀ st, g (h st) = k (g st))
    (hconf : ∀ t, cores i₀ = some t → (findFlowEntry t f).isSome = true) (i j : ℕ) :
    readAt g (mapStatsAt cores i₀ f h) i j =
      (readAt g cores i j).map fun b => if (i, j) = (i₀, f) then k b else b := by
  unfold readAt mapStatsAt
  by_cases hi : i = i₀
  · subst hi
    rw [Function.update_self]
    cases ht : cores i with
    | none => rfl
    | some t =>
      rw [Option.map_some, Option.bind_some, Option.bind_some, mapStats_slotStats]
      by_cases hj : j = f
      · subst hj
        rw [if_pos ⟨rfl, hconf t ht⟩, Option.map_map, Option.map_map]
        congr 1
        funext st
        simp [hg]
      · rw [if_neg fun hboth => hj hboth.1, Option.map_map]
        congr 1
        funext st
        simp [hj]
  · rw [Function.update_of_ne hi]
    simp [hi]

/-- A change that a reading does not see. -/
theorem readAt_mapStatsAt_same {β : Type*} {g : Stats → β} {h : Stats → Stats}
    (hg : ∀ st, g (h st) = g st) (cores : ℕ → Option Tenant) (i₀ f i j : ℕ) :
    readAt g (mapStatsAt cores i₀ f h) i j = readAt g cores i j := by
  unfold readAt mapStatsAt
  by_cases hi : i = i₀
  · subst hi
    rw [Function.update_self]
    cases cores i with
    | none => rfl
    | some t =>
      rw [Option.map_some, Option.bind_some, Option.bind_some, mapStats_slotStats]
      split_ifs
      · rw [Option.map_map]
        exact congrArg (fun k => (slotStats t.flowScheduler.entries j).map k) (funext hg)
      · rfl
  · rw [Function.update_of_ne hi]

/-- The statistics of the tenant in a slot. -/
def tenantStatsAt (cores : ℕ → Option Tenant) (i : ℕ) : Option Stats := (cores i).map (·.stats)

theorem tenantBacklogAt_eq (cores : ℕ → Option Tenant) (i : ℕ) :
    tenantBacklogAt cores i = (tenantStatsAt cores i).map (·.currentBacklog) :=
  (Option.map_map _ _ _).symm

theorem tenantStatsAt_mapStatsAt (cores : ℕ → Option Tenant) (i₀ f : ℕ) (g : Stats → Stats) (i : ℕ) :
    tenantStatsAt (mapStatsAt cores i₀ f g) i =
      (tenantStatsAt cores i).map fun st => if i = i₀ then g st else st := by
  unfold tenantStatsAt mapStatsAt
  by_cases hi : i = i₀
  · subst hi
    rw [Function.update_self, Option.map_map, Option.map_map]
    congr 1
    funext t
    simp [Tenant.mapStats]
  · rw [Function.update_of_ne hi]
    simp [hi, Function.comp_def]

theorem tenantBacklogAt_mapStatsAt {cores : ℕ → Option Tenant} {i₀ f : ℕ} {g : Stats → Stats}
    {k : ℕ → ℕ} (hg : ∀ st, (g st).currentBacklog = k st.currentBacklog) (i : ℕ) :
    tenantBacklogAt (mapStatsAt cores i₀ f g) i =
      (tenantBacklogAt cores i).map fun b => if i = i₀ then k b else b := by
  rw [tenantBacklogAt_eq, tenantBacklogAt_eq, tenantStatsAt_mapStatsAt, Option.map_map,
    Option.map_map]
  congr 1
  funext st
  dsimp only [Function.comp_apply]
  split_ifs
  · exact hg st
  · rfl

/-- The queue writes no statistics. -/
theorem readAt_queue {β : Type*} {cores : ℕ → Option Tenant}
    {flows : GroupScheduler FlowSessionContext} (trace : QueueTrace u.flowScheduler flows)
    (g : Stats → β) (k i j : ℕ) :
    readAt g (Function.update cores k (some { u with flowScheduler := flows })) i j =
      readAt g (Function.update cores k (some u)) i j := by
  unfold readAt
  by_cases hi : i = k
  · subst hi
    rw [Function.update_self, Function.update_self, Option.bind_some, Option.bind_some]
    dsimp only
    rw [trace.slotStats]
  · rw [Function.update_of_ne hi, Function.update_of_ne hi]

/-! ## What a call does to the counters -/

/-- Flow `p.2` of tenant `p.1` is there. -/
def Configured (s : Scheduler) (p : ℕ × ℕ) : Prop :=
  ∃ t, s.tenants p.1 = some t ∧ (findFlowEntry t p.2).isSome = true

/-- Every outstanding session belongs to a flow that is there. -/
def Named (s : Scheduler) : Prop := ∀ p ∈ s.outstanding, Configured s p

theorem Configured.core {p : ℕ × ℕ} (h : Configured s p) (ht : s.cores p.1 = some t) :
    (findFlowEntry t p.2).isSome = true := by
  obtain ⟨t₀, ht₀, hfind⟩ := h
  rw [cores_some ht₀] at ht
  cases ht
  exact hfind

theorem mem_outstanding_flight {e : InFlightEntry} (he : e ∈ s.inFlight) : e.ids ∈ s.outstanding :=
  Multiset.mem_add.mpr (.inr (Multiset.mem_map_of_mem _ (Multiset.mem_coe.mpr he)))

/-- The counters after a call, of every slot and of every tenant. -/
structure Recounted (s : Scheduler) (c : Call) (cores : ℕ → Option Tenant) : Prop where
  flows : ∀ i j, backlogAt cores i j =
    (backlogAt s.cores i j).map (recount ((i, j) ∈ entered s c) ((i, j) ∈ settled s c))
  tenants : ∀ i, tenantBacklogAt cores i = (tenantBacklogAt s.cores i).map
    (recount (i ∈ (entered s c).map Prod.fst) (i ∈ (settled s c).map Prod.fst))

theorem Recounted.same {cores : ℕ → Option Tenant} (hin : entered s c = 0) (hout : settled s c = 0)
    (hflows : ∀ i j, backlogAt cores i j = backlogAt s.cores i j)
    (htenants : ∀ i, tenantBacklogAt cores i = tenantBacklogAt s.cores i) :
    Recounted s c cores := by
  have hnotin : ∀ {β : Type} (p : β), p ∉ (0 : Multiset β) := fun p => Multiset.notMem_zero p
  constructor
  · intro i j
    rw [hflows, map_recount_neither (by rw [hin]; exact hnotin _) (by rw [hout]; exact hnotin _)]
  · intro i
    rw [htenants, map_recount_neither (by rw [hin]; exact hnotin _) (by rw [hout]; exact hnotin _)]

/-- What no trace of a tenant changes, no call with these traces does. -/
theorem TenantsFollow.readAt {β : Type*} {g : Stats → β} {cores cores' : ℕ → Option Tenant}
    (h : TenantsFollow c cores cores')
    (hg : ∀ t u, TenantTrace c t u → ∀ j, (slotStats u.flowScheduler.entries j).map g =
      (slotStats t.flowScheduler.entries j).map g) (i j : ℕ) :
    readAt g cores' i j = Hwfq.readAt g cores i j := by
  have hi := h i
  unfold Hwfq.readAt
  generalize cores i = o at hi
  generalize cores' i = o' at hi
  cases hi with
  | none => rfl
  | some htrace => exact hg _ _ htrace j

/-- A call that neither accepts nor settles a session. -/
theorem TenantsFollow.recounted {cores : ℕ → Option Tenant} (h : TenantsFollow c s.cores cores)
    (hc : c.countsSessions = false) : Recounted s c cores := by
  have hin : entered s c = 0 := by
    cases c with
    | enqueue i f work now => cases hc
    | _ => rfl
  have hout : settled s c = 0 := by
    cases c with
    | complete i f work => cases hc
    | cancel i f work => cases hc
    | _ => rfl
  apply Recounted.same hin hout
  · exact h.readAt fun t u htrace => (htrace.backlogs hc).2
  · intro i
    have hi := h i
    unfold tenantBacklogAt
    generalize s.cores i = o at hi
    generalize cores i = o' at hi
    cases hi with
    | none => rfl
    | some htrace => exact congrArg some (htrace.backlogs hc).1

theorem cores_mapStatsAt {flowId : ℕ} {f : Stats → Stats} (ht : s.cores i = some t) :
    Function.update s.cores i (some (t.mapStats flowId f)) = mapStatsAt s.cores i flowId f := by
  rw [mapStatsAt, ht, Option.map_some]

theorem mem_of_singleton {m : Multiset (ℕ × ℕ)} {p : ℕ × ℕ} (h : m = {p}) (i j : ℕ) :
    ((i, j) = p ↔ (i, j) ∈ m) ∧ (i = p.1 ↔ i ∈ m.map Prod.fst) := by
  subst h
  simp

/-- One session, of flow `p`, is accepted. -/
theorem Recounted.up {cores : ℕ → Option Tenant} {p : ℕ × ℕ} (hin : entered s c = {p})
    (hout : settled s c = 0)
    (hflows : ∀ i j, backlogAt cores i j =
      (backlogAt s.cores i j).map fun b => if (i, j) = p then u32 (b + 1) else b)
    (htenants : ∀ i, tenantBacklogAt cores i =
      (tenantBacklogAt s.cores i).map fun b => if i = p.1 then u32 (b + 1) else b) :
    Recounted s c cores := by
  have hnone : ∀ q, q ∉ settled s c := by
    rw [hout]
    exact Multiset.notMem_zero
  constructor
  · intro i j
    rw [hflows]
    congr 1
    funext b
    have helse : (if (i, j) ∈ settled s c ∧ b > 0 then subU32 b 1 else b) = b :=
      if_neg fun hdown => hnone _ hdown.1
    rw [recount, helse]
    exact if_congr (mem_of_singleton hin i j).1 rfl rfl
  · intro i
    have hnone' : i ∉ (settled s c).map Prod.fst := by
      rw [hout]
      exact Multiset.notMem_zero i
    rw [htenants]
    congr 1
    funext b
    have helse : (if i ∈ (settled s c).map Prod.fst ∧ b > 0 then subU32 b 1 else b) = b :=
      if_neg fun hdown => hnone' hdown.1
    rw [recount, helse]
    exact if_congr (mem_of_singleton hin i 0).2 rfl rfl

/-- One session, of flow `p`, is settled. -/
theorem Recounted.down {cores : ℕ → Option Tenant} {p : ℕ × ℕ} (hin : entered s c = 0)
    (hout : settled s c = {p})
    (hflows : ∀ i j, backlogAt cores i j = (backlogAt s.cores i j).map fun b =>
      if (i, j) = p then if b > 0 then subU32 b 1 else b else b)
    (htenants : ∀ i, tenantBacklogAt cores i = (tenantBacklogAt s.cores i).map fun b =>
      if i = p.1 then if b > 0 then subU32 b 1 else b else b) :
    Recounted s c cores := by
  have hnone : ∀ q, q ∉ entered s c := by
    rw [hin]
    exact Multiset.notMem_zero
  constructor
  · intro i j
    rw [hflows]
    congr 1
    funext b
    rw [recount, if_neg (hnone _), ← ite_and]
    exact if_congr (and_congr_left' (mem_of_singleton hout i j).1) rfl rfl
  · intro i
    have hnone' : i ∉ (entered s c).map Prod.fst := by
      rw [hin]
      exact Multiset.notMem_zero i
    rw [htenants]
    congr 1
    funext b
    rw [recount, if_neg hnone', ← ite_and]
    exact if_congr (and_congr_left' (mem_of_singleton hout i 0).2) rfl rfl

theorem Stats.backlogDownIfPositive_backlog (st : Stats) :
    st.backlogDownIfPositive.currentBacklog =
      if st.currentBacklog > 0 then subU32 st.currentBacklog 1 else st.currentBacklog := by
  unfold Stats.backlogDownIfPositive
  split_ifs <;> rfl

/-- A session that is completed or cancelled, of a flow that is there. -/
theorem Recounted.settled {work : Option Session} {i f : UInt32} {found : InFlightEntry}
    (h : SchedulerInv s) (hnamed : Named s)
    (hc : c = .complete i f work ∨ c = .cancel i f work)
    (hlookup : inFlightLookup s work i.toNat f.toNat = some found) :
    Recounted s c (mapStatsAt s.cores i.toNat f.toNat Stats.backlogDownIfPositive) := by
  obtain ⟨hmem, htenant, hflow⟩ := inFlightLookup_some h.flight hlookup
  have hids : found.ids = (i.toNat, f.toNat) := by rw [InFlightEntry.ids, htenant, hflow]
  have hconf : Configured s (i.toNat, f.toNat) := hids ▸ hnamed _ (mem_outstanding_flight hmem)
  have hin : entered s c = 0 := by
    rcases hc with rfl | rfl
    · rfl
    · rfl
  have hout : Hwfq.settled s c = {(i.toNat, f.toNat)} := by
    rcases hc with rfl | rfl
    · rw [Hwfq.settled, hlookup, ← hids]
      rfl
    · rw [Hwfq.settled, hlookup, ← hids]
      rfl
  apply Recounted.down hin hout
  · exact readAt_mapStatsAt Stats.backlogDownIfPositive_backlog fun t ht => hconf.core ht
  · exact tenantBacklogAt_mapStatsAt Stats.backlogDownIfPositive_backlog

/-- A change of other statistics is no change of the counters. -/
theorem Recounted.addCompletion {cores : ℕ → Option Tenant} (h : Recounted s c cores)
    (i f workSize : ℕ) : Recounted s c (mapStatsAt cores i f (Stats.addCompletion workSize)) := by
  constructor
  · intro i' j
    rw [← h.flows]
    exact readAt_mapStatsAt_same (g := Stats.currentBacklog) (h := Stats.addCompletion workSize)
      (fun _ => rfl) cores i f i' j
  · intro i'
    have hkept := @tenantBacklogAt_mapStatsAt cores i f (Stats.addCompletion workSize) id
      (fun _ => rfl) i'
    rw [← h.tenants, hkept]
    simp

theorem SchedulerInv.enqueue_recounted (h : SchedulerInv s) (hfit : EveryTenant BacklogsFit s.cores)
    (i f : UInt32) (work : Option Session) (now : UInt64) :
    Recounted s (.enqueue i f work now) (Hwfq.after s (.enqueue i f work now)).cores := by
  have hout : settled s (.enqueue i f work now) = 0 := rfl
  have hfailed : (respond s (.enqueue i f work now)).status ≠ .success →
      entered s (.enqueue i f work now) = 0 := by
    intro hbad
    rw [entered, (nothing_moved h hbad).1, Multiset.map_zero]
  have heffect := h.effect (.enqueue i f work now)
  generalize hr : respond s (.enqueue i f work now) = r at heffect
  generalize hs' : Hwfq.after s (.enqueue i f work now) = s' at heffect ⊢
  cases heffect with
  | idle failed _ tokens =>
    rw [tokens.cores]
    exact .same (hfailed (hr ▸ failed)) hout (fun _ _ => rfl) fun _ => rfl
  | flows update => cases update
  | @accepted _ _ w _ t x mem callbacks _ tenant size flow context success created changes =>
    have hacc : accepted s (.enqueue i f (some w) now) = {x} := by
      rw [accepted, if_pos (by rw [hr]), context]
    have hids : x.ids = (i.toNat, f.toNat) := by
      rw [context]
      rfl
    have hflow : x.flowId = f.toNat := congrArg Prod.snd hids
    have hin : entered s (.enqueue i f (some w) now) = {(i.toNat, f.toNat)} := by
      rw [entered, hacc, Multiset.map_singleton, hids]
    have hconf : Configured s (i.toNat, f.toNat) := ⟨t, tenant, flow⟩
    have htrace : QueueTrace (t.core.mapStats x.flowId Stats.backlogUp).flowScheduler
        (offerResult mem t x).gs := (QueueTrace.refl _).enqueue _ _ _ _ _
    rw [changes.cores]
    apply Recounted.up hin hout
    · intro i' j
      rw [backlogAt, readAt_queue htrace, cores_mapStatsAt (cores_some tenant), hflow]
      exact readAt_mapStatsAt (g := Stats.currentBacklog) (h := Stats.backlogUp)
        (k := fun b => u32 (b + 1)) (fun _ => rfl) (fun t ht => hconf.core ht) i' j
    · intro i'
      have hsame : tenantBacklogAt (Function.update s.cores i.toNat
            (some { t.core.mapStats x.flowId Stats.backlogUp with
              flowScheduler := (offerResult mem t x).gs })) i' =
          tenantBacklogAt (Function.update s.cores i.toNat
            (some (t.core.mapStats x.flowId Stats.backlogUp))) i' := by
        unfold tenantBacklogAt
        by_cases hi : i' = i.toNat
        · rw [hi, Function.update_self, Function.update_self]
          rfl
        · rw [Function.update_of_ne hi, Function.update_of_ne hi]
      rw [hsame, cores_mapStatsAt (cores_some tenant)]
      exact tenantBacklogAt_mapStatsAt (fun _ => rfl) i'
  | @rejected _ _ w _ t _ _ tenant flow failed _ changes =>
    have hcore := hfit i.toNat t.core (cores_some tenant)
    rw [changes.cores]
    apply Recounted.same (hfailed (hr ▸ failed)) hout
    · intro i' j
      unfold backlogAt readAt
      by_cases hi : i' = i.toNat
      · rw [hi, Function.update_self, cores_some tenant, Option.bind_some, Option.bind_some,
          hcore.counted]
      · rw [Function.update_of_ne hi]
    · intro i'
      unfold tenantBacklogAt
      by_cases hi : i' = i.toNat
      · rw [hi, Function.update_self, cores_some tenant]
        exact congrArg (fun st : Stats => some st.currentBacklog)
          (Stats.backlogDown_up t.core.stats hcore.tenant)
      · rw [Function.update_of_ne hi]

/-- The counters after a call that edits no flow. -/
theorem SchedulerInv.recounted (h : SchedulerInv s) (hfit : EveryTenant BacklogsFit s.cores)
    (hnamed : Named s) (hc : c.editsFlows = false) :
    Recounted s c (Hwfq.after s c).cores := by
  have hfollow := (h.effect c).tenantsFollow hc
  cases c with
  | enqueue i f work now => exact h.enqueue_recounted hfit i f work now
  | complete i f work =>
    obtain ⟨-, ⟨hnone, heq⟩ | ⟨found, cores, hlookup, hok, hstats, hends⟩⟩ :=
      h.complete work i.toNat f.toNat
    · have hstate : Hwfq.after s (.complete i f work) = s := congrArg (·.2.2) heq
      have hout : Hwfq.settled s (.complete i f work) = 0 := by
        rw [Hwfq.settled, hnone]
        rfl
      rw [hstate]
      exact .same rfl hout (fun _ _ => rfl) fun _ => rfl
    · have hsettled := Recounted.settled h hnamed (.inl rfl) hlookup
      have hcores : (Hwfq.after s (.complete i f work)).cores = cores := hends.cores
      rw [hcores]
      rcases hstats with ⟨-, rfl⟩ | ⟨-, rfl⟩
      · exact hsettled
      · exact hsettled.addCompletion _ _ _
  | cancel i f work =>
    obtain ⟨-, ⟨hnone, heq⟩ | ⟨found, hlookup, hok, hends⟩⟩ := h.cancel work i.toNat f.toNat
    · have hstate : Hwfq.after s (.cancel i f work) = s := congrArg (·.2.2) heq
      have hout : Hwfq.settled s (.cancel i f work) = 0 := by
        rw [Hwfq.settled, hnone]
        rfl
      rw [hstate]
      exact .same rfl hout (fun _ _ => rfl) fun _ => rfl
    · have hcores : (Hwfq.after s (.cancel i f work)).cores = _ := hends.cores
      rw [hcores]
      exact Recounted.settled h hnamed (.inr rfl) hlookup
  | addTenant a out => cases hc
  | removeTenant i => cases hc
  | addFlow i a out => cases hc
  | reconfigureFlow i f a => cases hc
  | removeFlow i f => cases hc
  | _ => exact hfollow.recounted rfl

end Hwfq
