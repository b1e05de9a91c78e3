import Hwfq.SessionAccounts
import Hwfq.TenantTokens

/-!
# What guards the removal of a flow

A flow is removed when its backlog counter is zero. While tenants are removed only without
sessions in flight and no counter overflows, the counters cover the outstanding sessions,
so a flow that goes leaves no session behind.
-/
namespace Hwfq
open GuardedRuns

variable {s s' : Scheduler} {c : Call} {r : Response} {i j : ℕ} {t u : Tenant}

/-! ## Calls that edit flows -/

theorem findFlowEntry_isSome (t : Tenant) (j : ℕ) :
    (findFlowEntry t j).isSome = (activeEntry t.flowScheduler j).isSome := by
  rw [activeEntry_eq, Option.isSome_map, findFlowEntry]

/-- What a call that edits flows adds to the configured flows, or takes away. -/
theorem FlowUpdate.active {i : UInt32} {flows : GroupScheduler FlowSessionContext}
    (h : FlowUpdate s.mem i t c r flows) (hinv : FlowsInv s.mem i.toNat t.flowScheduler) (j : ℕ) :
    (activeEntry flows j).isSome = (activeEntry t.flowScheduler j).isSome ∨
      (∃ f : UInt32, c = .removeFlow i f ∧ r.status = .success ∧ j = f.toNat ∧
        activeEntry flows j = none) ∨
      ∃ a, c = .addFlow i a true ∧ r.id = some j ∧ (activeEntry flows j).isSome = true := by
  obtain ⟨live, hpool⟩ := hinv.pooled
  obtain ⟨-, hact, -, hcase⟩ := hpool.alloc (le_refl s.mem.next)
  cases h with
  | exhausted hret =>
    rw [hret] at hact
    left
    rw [hact]
  | @admitted a id mem' flows₁ flows _ hret hconf =>
    rw [hret] at hact hcase
    obtain ⟨ret, hbad, -⟩ | ⟨id', -, -, -, hpool', -⟩ := hcase
    · cases hbad
    rcases hpool'.configure_cases id a with ⟨hbad, -⟩ | ⟨-, -, entry, -, -, -, hactive⟩
    · rw [hconf] at hbad
      exact absurd rfl hbad
    · rw [hconf] at hactive
      by_cases hj : j = id
      · subst hj
        exact .inr (.inr ⟨some a, rfl, rfl, by rw [hactive, if_pos rfl, Option.isSome_some]⟩)
      · left
        rw [hactive, if_neg hj, hact]
  | @rolledBack a id mem' flows₁ status flows _ hret hbad hconf =>
    rw [hret] at hact hcase
    obtain ⟨ret, hbad, -⟩ | ⟨id', hid, hnew, -, hpool', -⟩ := hcase
    · cases hbad
    cases hid
    rcases hpool'.configure_cases id a with ⟨-, heq⟩ | ⟨hok, -⟩
    · rw [hconf] at heq
      dsimp only at heq
      have hnone : activeEntry flows₁ id = none := by
        rw [hact]
        exact activeEntry_eq_none (hpool.pool.idle id hnew)
      left
      rw [heq, (hpool'.free (Finset.mem_insert_self _ _) hnone).2, hact]
    · rw [hconf] at hok
      exact absurd hok hbad
  | @reconfigured f a status _ _ find hconf =>
    left
    rcases hpool.configure_cases f.toNat a with ⟨-, heq⟩ | ⟨-, -, entry, -, -, -, hactive⟩
    · rw [hconf] at heq
      dsimp only at heq
      rw [heq]
    · rw [hconf] at hactive
      rw [hactive]
      by_cases hj : j = f.toNat
      · rw [if_pos hj, hj, Option.isSome_some, ← findFlowEntry_isSome, find]
      · rw [if_neg hj]
  | @retired f entry find idle =>
    have hact := activeEntry_of_findFlowEntry (Option.isSome_iff_exists.mpr ⟨entry, find⟩)
    obtain ⟨hpool', hremoved⟩ := hpool.removeEntry hact
    have hnone : activeEntry (groupSchedulerRemoveEntry t.flowScheduler f.toNat).2 f.toNat = none := by
      rw [hremoved, if_pos rfl]
    have hfreed := (hpool'.free (hpool.pool.mem_of_active hact) hnone).2 j
    rw [hremoved] at hfreed
    by_cases hf : j = f.toNat
    · rw [if_pos hf] at hfreed
      exact .inr (.inl ⟨f, rfl, rfl, hf, hfreed⟩)
    · left
      rw [hfreed, if_neg hf]

/-- Whether flow `p.2` of tenant `p.1` is there. -/
def hasFlow (cores : ℕ → Option Tenant) (p : ℕ × ℕ) : Bool :=
  ((cores p.1).bind fun t => activeEntry t.flowScheduler p.2).isSome

theorem configured_iff {p : ℕ × ℕ} : Configured s p ↔ hasFlow s.cores p = true := by
  unfold Configured hasFlow Scheduler.cores
  cases s.tenants p.1 with
  | none => simp
  | some t =>
    have hcore : (activeEntry t.core.flowScheduler p.2).isSome = (findFlowEntry t p.2).isSome :=
      (findFlowEntry_isSome t p.2).symm
    simp [hcore]

theorem hasFlow_update {cores : ℕ → Option Tenant} {v : Option Tenant} {p : ℕ × ℕ} (hp : p.1 ≠ i) :
    hasFlow (Function.update cores i v) p = hasFlow cores p := by
  rw [hasFlow, Function.update_of_ne hp, hasFlow]

theorem TenantsFollow.hasFlow {cores cores' : ℕ → Option Tenant} (h : TenantsFollow c cores cores')
    (p : ℕ × ℕ) : hasFlow cores' p = Hwfq.hasFlow cores p := by
  have hp := h p.1
  unfold Hwfq.hasFlow
  generalize cores p.1 = o at hp
  generalize cores' p.1 = o' at hp
  cases hp with
  | none => rfl
  | some htrace => exact htrace.ratesKept.active p.2

/-- A flow goes with its own removal or that of its tenant, and comes with its addition. -/
theorem Effect.hasFlow (h : Effect s c r s') (hinv : SchedulerInv s) (p : ℕ × ℕ) :
    hasFlow s'.cores p = Hwfq.hasFlow s.cores p ∨
      (∃ i : UInt32, c = .removeTenant i ∧ r.status = .success ∧ p.1 = i.toNat ∧
        Hwfq.hasFlow s'.cores p = false) ∨
      (∃ i f : UInt32, c = .removeFlow i f ∧ r.status = .success ∧ p = (i.toNat, f.toNat) ∧
        Hwfq.hasFlow s'.cores p = false) ∨
      ∃ (i : UInt32) (a : Option Allocation), c = .addFlow i a true ∧ p.1 = i.toNat ∧
        r.id = some p.2 ∧ Hwfq.hasFlow s'.cores p = true := by
  by_cases hc : c.editsFlows = false
  · exact .inl ((h.tenantsFollow hc).hasFlow p)
  cases h with
  | idle _ _ tokens => exact .inl (congrArg (fun cores => Hwfq.hasFlow cores p) tokens.cores)
  | @added a addr flows mem i _ admits valid fits blank store fresh =>
    left
    rw [cores_of_tenants admits.tenants]
    by_cases hi : p.1 = i
    · have hnone : activeEntry flows p.2 = none := fresh.activeEntry p.2
      rw [Hwfq.hasFlow, Hwfq.hasFlow, hi, Function.update_self, Scheduler.cores, admits.free]
      exact congrArg Option.isSome hnone
    · exact hasFlow_update hi
  | @removed i t tenant idle =>
    rw [cores_of_tenants (s := s) (v := none) rfl]
    by_cases hi : p.1 = i.toNat
    · right
      left
      refine ⟨i, rfl, rfl, hi, ?_⟩
      rw [Hwfq.hasFlow, hi, Function.update_self]
      rfl
    · exact .inl (hasFlow_update hi)
  | @flows i t _ _ flows _ _ update change =>
    rw [cores_of_tenants change.tenants]
    by_cases hi : p.1 = i.toNat
    · have hnew : Hwfq.hasFlow (Function.update s.cores i.toNat
          ((some { t with flowScheduler := flows }).map Tenant.core)) p =
            (activeEntry flows p.2).isSome := by
        rw [Hwfq.hasFlow, hi, Function.update_self]
        rfl
      have hold : Hwfq.hasFlow s.cores p = (activeEntry t.flowScheduler p.2).isSome := by
        rw [Hwfq.hasFlow, hi, cores_some change.tenant]
        rfl
      rw [hnew, hold]
      rcases update.active (hinv.tenants _ _ change.tenant).flows p.2 with
        hsame | ⟨f, hc, hok, hf, hnone⟩ | ⟨a, hc, hid, hactive⟩
      · exact .inl hsame
      · exact .inr (.inr (.inl ⟨i, f, hc, hok, Prod.ext hi hf, by rw [hnone, Option.isSome_none]⟩))
      · exact .inr (.inr (.inr ⟨i, a, hc, hi, hid, hactive⟩))
    · exact .inl (hasFlow_update hi)
  | _ => exact absurd rfl hc

theorem Effect.read_edited {β : Type*} {g : Stats → β} (h : Effect s c r s') (hinv : SchedulerInv s)
    (hc : c.editsFlows = true) {b : β} (hb : readAt g s'.cores i j = some b) :
    readAt g s.cores i j = some b ∨ b = g {} ∧ ¬ Configured s (i, j) := by
  cases h with
  | idle _ _ tokens => exact .inl (tokens.cores ▸ hb)
  | @added a addr flows mem k _ admits valid fits blank store fresh =>
    rw [cores_of_tenants admits.tenants, readAt] at hb
    by_cases hi : i = k
    · subst hi
      rw [Function.update_self] at hb
      obtain ⟨st, hst, rfl⟩ := Option.map_eq_some_iff.mp hb
      obtain ⟨e, he, rfl⟩ := Option.map_eq_some_iff.mp hst
      right
      refine ⟨congrArg g (blank j e he).2, ?_⟩
      rintro ⟨t, ht, -⟩
      rw [admits.free] at ht
      cases ht
    · rw [Function.update_of_ne hi] at hb
      exact .inl hb
  | @removed k t tenant idle =>
    rw [cores_of_tenants (s := s) (v := none) rfl, readAt] at hb
    by_cases hi : i = k.toNat
    · subst hi
      rw [Function.update_self] at hb
      cases hb
    · rw [Function.update_of_ne hi] at hb
      exact .inl hb
  | @flows k t _ _ flows _ _ update change =>
    rw [cores_of_tenants change.tenants, readAt] at hb
    by_cases hi : i = k.toNat
    · subst hi
      rw [Function.update_self] at hb
      obtain ⟨st, hst, rfl⟩ := Option.map_eq_some_iff.mp hb
      have hst' : slotStats flows.entries j = some st := hst
      rcases update.slotStats (hinv.tenants _ _ change.tenant).flows j with hsame | ⟨hnone, hzero⟩
      · left
        have hold : slotStats t.core.flowScheduler.entries j = some st := hsame.symm.trans hst'
        rw [readAt, cores_some change.tenant, Option.bind_some, hold, Option.map_some]
      · right
        cases hzero.symm.trans hst'
        refine ⟨rfl, ?_⟩
        rintro ⟨t', ht', hfind⟩
        rw [change.tenant] at ht'
        cases ht'
        rw [hnone] at hfind
        cases hfind
    · rw [Function.update_of_ne hi] at hb
      exact .inl hb
  | _ => cases hc

/-- The call has added the tenant in slot `i`. -/
def Enrolls (c : Call) (r : Response) (i : ℕ) : Prop :=
  ∃ a out, c = .addTenant a out ∧ r.status = .success ∧ r.id = some i

/-- An edit leaves the statistics of the tenants alone. Those of a new tenant are zero. -/
theorem Effect.tenantStats_edited (h : Effect s c r s') (hc : c.editsFlows = true) {st : Stats}
    (hst : tenantStatsAt s'.cores i = some st) :
    tenantStatsAt s.cores i = some st ∧ ¬ Enrolls c r i ∨
      st = {} ∧ s.tenants i = none ∧ Enrolls c r i := by
  cases h with
  | idle failed _ tokens =>
    left
    refine ⟨tokens.cores ▸ hst, ?_⟩
    rintro ⟨a, out, -, hok, -⟩
    exact failed hok
  | @added a addr flows mem k _ admits valid fits blank store fresh =>
    rw [cores_of_tenants admits.tenants, tenantStatsAt] at hst
    by_cases hi : i = k
    · subst hi
      rw [Function.update_self] at hst
      cases hst
      exact .inr ⟨rfl, admits.free, some a, true, rfl, rfl, rfl⟩
    · rw [Function.update_of_ne hi] at hst
      left
      refine ⟨hst, ?_⟩
      rintro ⟨a, out, -, -, hid⟩
      exact hi (Option.some.inj hid).symm
  | @removed k t tenant idle =>
    rw [cores_of_tenants (s := s) (v := none) rfl, tenantStatsAt] at hst
    have hnot : ¬ Enrolls (.removeTenant k) { callbacks := cleanupCalls t } i := by
      rintro ⟨a, out, hcall, -⟩
      cases hcall
    by_cases hi : i = k.toNat
    · subst hi
      rw [Function.update_self] at hst
      cases hst
    · rw [Function.update_of_ne hi] at hst
      exact .inl ⟨hst, hnot⟩
  | @flows k t _ _ flows _ _ update change =>
    rw [cores_of_tenants change.tenants, tenantStatsAt] at hst
    have hnot : ¬ Enrolls c r i := by
      rintro ⟨a, out, rfl, -⟩
      cases update
    by_cases hi : i = k.toNat
    · subst hi
      rw [Function.update_self] at hst
      left
      rw [tenantStatsAt, cores_some change.tenant]
      exact ⟨hst, hnot⟩
    · rw [Function.update_of_ne hi] at hst
      exact .inl ⟨hst, hnot⟩
  | _ => cases hc

theorem Effect.tenantBacklog_edited (h : Effect s c r s') (hc : c.editsFlows = true) {b : ℕ}
    (hb : tenantBacklogAt s'.cores i = some b) :
    tenantBacklogAt s.cores i = some b ∨ b = 0 ∧ s.tenants i = none := by
  rw [tenantBacklogAt_eq] at hb ⊢
  obtain ⟨st, hst, rfl⟩ := Option.map_eq_some_iff.mp hb
  rcases h.tenantStats_edited hc hst with ⟨hold, -⟩ | ⟨rfl, hnone, -⟩
  · left
    rw [hold]
    rfl
  · exact .inr ⟨rfl, hnone⟩

/-! ## Where the outstanding sessions belong -/

/-- A session is accepted for a flow that is there. -/
theorem SchedulerInv.entered_configured (h : SchedulerInv s) {p : ℕ × ℕ} (hp : p ∈ entered s c) :
    Configured s p ∧ ∃ i f work now, c = .enqueue i f work now ∧ p = (i.toNat, f.toNat) := by
  cases c with
  | enqueue i f work now =>
    obtain ⟨x, hx, rfl⟩ := Multiset.mem_map.mp hp
    have heffect := h.effect (.enqueue i f work now)
    generalize hr : respond s (.enqueue i f work now) = r at heffect
    cases heffect with
    | idle failed _ _ =>
      rw [(nothing_moved h (hr ▸ failed)).1] at hx
      exact absurd hx (Multiset.notMem_zero x)
    | flows update => cases update
    | rejected _ _ failed _ _ =>
      rw [(nothing_moved h (hr ▸ failed)).1] at hx
      exact absurd hx (Multiset.notMem_zero x)
    | @accepted _ _ w _ t y mem callbacks _ tenant size flow context =>
      rw [accepted, if_pos (by rw [hr]), Multiset.mem_singleton] at hx
      rw [hx]
      exact ⟨⟨t, tenant, flow⟩, i, f, _, now, rfl, rfl⟩
  | _ => exact absurd hp (Multiset.notMem_zero p)

theorem SchedulerInv.mem_outstanding_after (h : SchedulerInv s) {p : ℕ × ℕ}
    (hp : p ∈ (Hwfq.after s c).outstanding) : p ∈ s.outstanding ∨ p ∈ entered s c := by
  have hall : p ∈ s.outstanding + entered s c := by
    rw [h.outstanding_balance]
    exact Multiset.mem_add.mpr (.inl hp)
  exact Multiset.mem_add.mp hall

/-- A tenant that is gone has nothing queued. -/
theorem SchedulerInv.outstanding_absent (h : SchedulerInv s) (hnone : s.tenants i = none)
    (hflight : ∀ e ∈ s.inFlight, e.tenantId ≠ i) {p : ℕ × ℕ} (hp : p ∈ s.outstanding) : p.1 ≠ i := by
  intro hi
  rcases Multiset.mem_add.mp hp with hqueued | hflying
  · obtain ⟨x, hx, rfl⟩ := Multiset.mem_map.mp hqueued
    obtain ⟨k, -, hk⟩ := Scheduler.mem_queuedSessions.mp hx
    have htenant := h.queued_tenant hk
    have hki : k = i := htenant.symm.trans hi
    rw [hki, queue_none hnone] at hk
    exact absurd hk (Multiset.notMem_zero x)
  · obtain ⟨e, he, rfl⟩ := Multiset.mem_map.mp hflying
    exact hflight e (Multiset.mem_coe.mp he) hi

theorem SchedulerInv.named_after (h : SchedulerInv s) (hnamed : Named s)
    (htenant : ∀ i, c = .removeTenant i → (respond s c).status = .success →
      ∀ e ∈ s.inFlight, e.tenantId ≠ i.toNat)
    (hflow : ∀ i f, c = .removeFlow i f → (respond s c).status = .success →
      (i.toNat, f.toNat) ∉ s.outstanding) : Named (Hwfq.after s c) := by
  intro p hp
  have hconf : Configured s p := by
    rcases h.mem_outstanding_after hp with hold | hnew
    · exact hnamed p hold
    · exact (h.entered_configured hnew).1
  rw [configured_iff] at hconf ⊢
  rcases (h.effect c).hasFlow h p with
    hsame | ⟨i, rfl, hok, hi, -⟩ | ⟨i, f, rfl, hok, hids, -⟩ | ⟨i, a, -, -, -, hnew⟩
  · rw [hsame, hconf]
  · obtain ⟨-, ⟨hbad, -⟩ | ⟨t, ht, -, heq⟩⟩ := h.removeTenant i.toNat
    · exact absurd hok hbad
    have hstate : Hwfq.after s (.removeTenant i) = Hwfq.tenantRemoved s i.toNat t :=
      congrArg (·.2.2) heq
    have hinv := h.after (.removeTenant i)
    have hgone : (Hwfq.after s (.removeTenant i)).tenants i.toNat = none := by
      rw [hstate]
      exact Function.update_self ..
    have hflight : ∀ e ∈ (Hwfq.after s (.removeTenant i)).inFlight, e.tenantId ≠ i.toNat := by
      rw [hstate]
      exact htenant i rfl hok
    exact absurd hi (hinv.outstanding_absent hgone hflight hp)
  · have hold : p ∈ s.outstanding := by
      rcases h.mem_outstanding_after hp with hold | hnew
      · exact hold
      · exact absurd hnew (Multiset.notMem_zero p)
    exact absurd (hids ▸ hold) (hflow i f rfl hok)
  · exact hnew

/-! ## Counters that cover the sessions -/

/-- One call accepts one session, settles one, or neither. -/
def MovesOne {β : Type*} (m n : Multiset β) : Prop :=
  m = 0 ∧ n = 0 ∨ (∃ p, m = {p} ∧ n = 0) ∨ ∃ p, m = 0 ∧ n = {p}

theorem MovesOne.map {β γ : Type*} {m n : Multiset β} (h : MovesOne m n) (f : β → γ) :
    MovesOne (m.map f) (n.map f) := by
  rcases h with ⟨rfl, rfl⟩ | ⟨p, rfl, rfl⟩ | ⟨p, rfl, rfl⟩
  · exact .inl ⟨rfl, rfl⟩
  · exact .inr (.inl ⟨f p, rfl, rfl⟩)
  · exact .inr (.inr ⟨f p, rfl, rfl⟩)

theorem movesOne (s : Scheduler) (c : Call) : MovesOne (entered s c) (settled s c) := by
  have hlookup : ∀ o : Option InFlightEntry,
      MovesOne (0 : Multiset (ℕ × ℕ)) ((o.map InFlightEntry.ids).toList : List (ℕ × ℕ)) := by
    intro o
    cases o with
    | none => exact .inl ⟨rfl, rfl⟩
    | some e => exact .inr (.inr ⟨e.ids, rfl, rfl⟩)
  cases c with
  | enqueue i f work now =>
    cases work with
    | none => exact .inl ⟨rfl, rfl⟩
    | some w =>
      rw [entered, accepted]
      split_ifs
      · exact .inr (.inl ⟨_, rfl, rfl⟩)
      · exact .inl ⟨rfl, rfl⟩
  | complete i f work => exact hlookup _
  | cancel i f work => exact hlookup _
  | _ => exact .inl ⟨rfl, rfl⟩

theorem recount_balance {β : Type*} [DecidableEq β] {m n : Multiset β} (h : MovesOne m n) {q : β}
    {b : ℕ} (hup : q ∈ m → b < uint32Max) (hdown : q ∈ n → 0 < b) :
    recount (q ∈ m) (q ∈ n) b + n.count q = b + m.count q := by
  have hnone : q ∉ (0 : Multiset β) := Multiset.notMem_zero q
  rcases h with ⟨rfl, rfl⟩ | ⟨p, rfl, rfl⟩ | ⟨p, rfl, rfl⟩
  · rw [recount, if_neg hnone, if_neg fun hboth => hnone hboth.1]
  · by_cases hq : q = p
    · subst hq
      have hin : q ∈ ({q} : Multiset β) := Multiset.mem_singleton_self q
      rw [recount, if_pos hin, u32_of_le (hup hin), Multiset.count_singleton_self,
        Multiset.count_zero]
    · have hout : q ∉ ({p} : Multiset β) := fun hin => hq (Multiset.mem_singleton.mp hin)
      rw [recount, if_neg hout, if_neg fun hboth => hnone hboth.1, Multiset.count_zero,
        Multiset.count_eq_zero_of_notMem hout]
  · by_cases hq : q = p
    · subst hq
      have hin : q ∈ ({q} : Multiset β) := Multiset.mem_singleton_self q
      have hpos := hdown hin
      rw [recount, if_neg hnone, if_pos ⟨hin, hpos⟩, subU32, if_pos (Nat.succ_le_of_lt hpos),
        Multiset.count_singleton_self, Multiset.count_zero]
      omega
    · have hout : q ∉ ({p} : Multiset β) := fun hin => hq (Multiset.mem_singleton.mp hin)
      rw [recount, if_neg hnone, if_neg fun hboth => hout hboth.1, Multiset.count_zero,
        Multiset.count_eq_zero_of_notMem hout]

theorem SchedulerInv.settled_outstanding (h : SchedulerInv s) {p : ℕ × ℕ}
    (hp : p ∈ Hwfq.settled s c) : p ∈ s.outstanding := by
  have hlookup : ∀ {work : Option Session} {i f : ℕ},
      p ∈ ((inFlightLookup s work i f).map InFlightEntry.ids).toList → p ∈ s.outstanding := by
    intro work i f hin
    obtain ⟨e, he, rfl⟩ := Option.map_eq_some_iff.mp (Option.mem_toList.mp hin)
    exact mem_outstanding_flight (inFlightLookup_some h.flight he).1
  cases c with
  | complete i f work => exact hlookup (Multiset.mem_coe.mp hp)
  | cancel i f work => exact hlookup (Multiset.mem_coe.mp hp)
  | _ => exact absurd hp (Multiset.notMem_zero p)

theorem moved_edited (hc : c.editsFlows = true) : entered s c = 0 ∧ settled s c = 0 := by
  cases c with
  | enqueue i f work now => cases hc
  | complete i f work => cases hc
  | cancel i f work => cases hc
  | _ => exact ⟨rfl, rfl⟩

/-- Every outstanding session belongs to a flow that is there, and the counter of the
flow is at least the number of its outstanding sessions. -/
structure Accounted (s : Scheduler) : Prop where
  named : Named s
  covered : ∀ i j b, backlogAt s.cores i j = some b → s.outstanding.count (i, j) ≤ b

/-- A tenant is not removed while it has sessions in flight, and no counter overflows. -/
def KeepsAccounts (s : Scheduler) : Call → Prop
  | .removeTenant i => ∀ t ∈ s.tenants i.toNat, t.hasBacklog = false →
      ∀ e ∈ s.inFlight, e.tenantId ≠ i.toNat
  | .enqueue i f _ _ => ∀ b ∈ backlogAt s.cores i.toNat f.toNat, b < uint32Max
  | _ => True

instance (s : Scheduler) : ∀ c, Decidable (KeepsAccounts s c)
  | .removeTenant i => inferInstanceAs (Decidable (∀ t ∈ s.tenants i.toNat, t.hasBacklog = false →
      ∀ e ∈ s.inFlight, e.tenantId ≠ i.toNat))
  | .enqueue i f _ _ =>
      inferInstanceAs (Decidable (∀ b ∈ backlogAt s.cores i.toNat f.toNat, b < uint32Max))
  | .addTenant .. | .configureTenant .. | .addFlow .. | .reconfigureFlow .. | .removeFlow ..
  | .dequeue .. | .complete .. | .cancel .. | .checkTimeouts .. | .resetStats .. => isTrue trivial

theorem backlogAt_of_find {entry : EntryConfig} (ht : s.tenants i = some t)
    (hfind : findFlowEntry t j = some entry) :
    backlogAt s.cores i j = some entry.stats.currentBacklog := by
  obtain ⟨hget, -⟩ := groupSchedulerFindEntry_some.mp hfind
  have hslot : slotStats t.core.flowScheduler.entries j = some entry.stats := by
    rw [slotStats]
    exact congrArg (Option.map EntryConfig.stats) hget
  rw [backlogAt, readAt, cores_some ht, Option.bind_some, hslot, Option.map_some]

/-- A flow that can be removed has no outstanding session. -/
theorem Accounted.removeFlow (h : SchedulerInv s) (ha : Accounted s) (i f : UInt32)
    (hok : (respond s (.removeFlow i f)).status = .success) :
    (i.toNat, f.toNat) ∉ s.outstanding := by
  obtain ⟨-, ⟨hbad, -⟩ | ⟨t, entry, ht, hfind, hidle, -, -⟩⟩ := h.removeFlow i.toNat f.toNat
  · exact absurd hok hbad
  have hcount := ha.covered _ _ _ (backlogAt_of_find ht hfind)
  rw [hidle] at hcount
  exact Multiset.count_eq_zero.mp (Nat.le_zero.mp hcount)

theorem KeepsAccounts.removeTenant (h : SchedulerInv s) (hc : KeepsAccounts s c) (i : UInt32)
    (heq : c = .removeTenant i) (hok : (respond s c).status = .success) :
    ∀ e ∈ s.inFlight, e.tenantId ≠ i.toNat := by
  subst heq
  obtain ⟨-, ⟨hbad, -⟩ | ⟨t, ht, hidle, -⟩⟩ := h.removeTenant i.toNat
  · exact absurd hok hbad
  · exact hc t ht hidle

theorem Accounted.step (h : SchedulerInv s) (hfit : EveryTenant BacklogsFit s.cores)
    (ha : Accounted s) (hc : KeepsAccounts s c) : Accounted (Hwfq.after s c) := by
  constructor
  · apply h.named_after ha.named (hc.removeTenant h)
    intro i f heq hok
    subst heq
    exact ha.removeFlow h i f hok
  · intro i j b hb
    have hbalance := h.count_balance c (i, j)
    cases hedit : c.editsFlows with
    | true =>
      obtain ⟨hin, hout⟩ := moved_edited (s := s) hedit
      rw [hin, hout, Multiset.count_zero] at hbalance
      rcases (h.effect c).read_edited h hedit hb with hsame | ⟨rfl, hgone⟩
      · have hle := ha.covered i j b hsame
        omega
      · have hzero : s.outstanding.count (i, j) = 0 :=
          Multiset.count_eq_zero.mpr fun hin => hgone (ha.named _ hin)
        omega
    | false =>
      rw [(h.recounted hfit ha.named hedit).flows] at hb
      obtain ⟨b₀, hb₀, rfl⟩ := Option.map_eq_some_iff.mp hb
      have hle := ha.covered i j b₀ hb₀
      have hup : (i, j) ∈ entered s c → b₀ < uint32Max := by
        intro hin
        obtain ⟨-, i', f, work, now, rfl, hids⟩ := h.entered_configured hin
        cases hids
        exact hc b₀ hb₀
      have hdown : (i, j) ∈ settled s c → 0 < b₀ := by
        intro hout
        have hpos := Multiset.count_pos.mpr (h.settled_outstanding hout)
        omega
      have hcount := recount_balance (movesOne s c) hup hdown
      omega

/-! ## Sessions that outlive their flow -/

/-- The addresses of the sessions left behind when the call removes their flow: of the
context of a queued session, of the entry of one in flight. -/
def orphaned (s : Scheduler) : Call → Multiset Addr
  | .removeTenant i =>
      if (respond s (.removeTenant i)).status = .success then
        ((s.inFlight.filter fun e => e.tenantId = i.toNat).map (·.addr) : List Addr)
      else 0
  | .removeFlow i f =>
      if (respond s (.removeFlow i f)).status = .success then
        ((s.queue i.toNat).filter fun x => x.flowId = f.toNat).map (·.addr) +
          ((s.inFlight.filter fun e => e.ids = (i.toNat, f.toNat)).map (·.addr) : List Addr)
      else 0
  | _ => 0

/-- A scheduler and the sessions in it that have outlived their flow. -/
structure Watched where
  scheduler : Scheduler
  orphans : Multiset Addr

/-- A queued orphan is one in flight after its dequeue. -/
def Watched.step (w : Watched) (c : Call) : Watched where
  scheduler := after w.scheduler c
  orphans := w.orphans + orphaned w.scheduler c +
    ((delivered w.scheduler c).filter fun p => p.1.addr ∈ w.orphans).map fun p => p.2.addr

/-- A removal that succeeds leaves no session queued or in flight, and a session that is
completed or cancelled belongs to the flow that has its id now. -/
structure RemovalWaits (w : Watched) (c : Call) : Prop where
  tenant : ∀ i, c = .removeTenant i → (respond w.scheduler c).status = .success →
    ∀ p ∈ w.scheduler.outstanding, p.1 ≠ i.toNat
  flow : ∀ i f, c = .removeFlow i f → (respond w.scheduler c).status = .success →
    (i.toNat, f.toNat) ∉ w.scheduler.outstanding
  owner : ∀ i f work, EndsOne c i f work →
    ∀ found ∈ inFlightLookup w.scheduler work i.toNat f.toNat, found.addr ∉ w.orphans

/-- A tenant that is removed with its flag down has nothing queued. -/
def DrainedFirst (s : Scheduler) (c : Call) : Prop :=
  ∀ i, c = .removeTenant i → Flagged s i.toNat ∨ s.queue i.toNat = 0

/-- No tenant with queued sessions has lost its token. -/
def RegistrationsKept (s : Scheduler) (calls : List Call) : Prop :=
  s.mem.AlwaysOk ∧ Reached s ∧ Along after KeepsTokens s calls

/-- Where registrations are kept, only drained tenants have their flags down. -/
theorem Made.drainedFirst (h : Made s) {calls : List Call} (hkept : RegistrationsKept s calls)
    (c : Call) : DrainedFirst (Hwfq.afterRun s calls) c := by
  obtain ⟨hmem, hreached, hcalls⟩ := hkept
  have htokens := h.tokensKept hmem hreached hcalls
  intro i _
  by_cases hqueue : (Hwfq.afterRun s calls).queue i.toNat = 0
  · exact .inr hqueue
  · exact .inl (htokens.flagged i.toNat hqueue)

theorem SchedulerInv.mem_queue_outstanding (h : SchedulerInv s) {x : FlowSessionContext}
    (hx : x ∈ s.queue i) : (i, x.flowId) ∈ s.outstanding := by
  have htenant := h.queued_tenant hx
  have hlt : i < s.maxTenants := by
    cases ht : s.tenants i with
    | none =>
      rw [queue_none ht] at hx
      exact absurd hx (Multiset.notMem_zero x)
    | some t => exact h.lt_maxTenants ht
  have hin := Scheduler.mem_queuedSessions.mpr ⟨i, hlt, hx⟩
  have hids : x.ids = (i, x.flowId) := by rw [FlowSessionContext.ids, htenant]
  exact Multiset.mem_add.mpr (.inl (hids ▸ Multiset.mem_map_of_mem _ hin))

/-- Guarded removals leave no orphan. -/
theorem Accounted.orphaned (h : SchedulerInv s) (ha : Accounted s) (hc : KeepsAccounts s c) :
    orphaned s c = 0 := by
  cases c with
  | removeTenant i =>
    rw [Hwfq.orphaned]
    split_ifs with hok
    · have hnone := hc.removeTenant h i rfl hok
      have hempty : (s.inFlight.filter fun e => e.tenantId = i.toNat) = [] :=
        List.filter_eq_nil_iff.mpr fun e he => by simpa using hnone e he
      rw [hempty]
      rfl
    · rfl
  | removeFlow i f =>
    rw [Hwfq.orphaned]
    split_ifs with hok
    · have hnone := ha.removeFlow h i f hok
      have hqueue : ((s.queue i.toNat).filter fun x => x.flowId = f.toNat) = 0 :=
        Multiset.filter_eq_nil.mpr fun x hx hf => hnone (hf ▸ h.mem_queue_outstanding hx)
      have hflight : (s.inFlight.filter fun e => e.ids = (i.toNat, f.toNat)) = [] :=
        List.filter_eq_nil_iff.mpr fun e he => by
          have hin := mem_outstanding_flight he
          simp only [decide_eq_true_eq]
          exact fun hids => hnone (hids ▸ hin)
      rw [hqueue, hflight]
      rfl
    · rfl
  | _ => rfl

/-! ## Every run -/

/-- What guarded removals keep. -/
structure Guarded (w : Watched) : Prop where
  inv : SchedulerInv w.scheduler
  fits : EveryTenant BacklogsFit w.scheduler.cores
  accounts : Accounted w.scheduler
  none : w.orphans = 0

theorem Guarded.step {w : Watched} (h : Guarded w) (hc : KeepsAccounts w.scheduler c) :
    Guarded (w.step c) := by
  refine ⟨h.inv.after c, (h.inv.effect c).backlogsFit h.inv h.fits, h.accounts.step h.inv h.fits hc,
    ?_⟩
  rw [Watched.step, h.none, h.accounts.orphaned h.inv hc]
  have hnone : (delivered w.scheduler c).filter (fun p => p.1.addr ∈ (0 : Multiset Addr)) = 0 :=
    Multiset.filter_eq_nil.mpr fun p _ hin => Multiset.notMem_zero _ hin
  dsimp only
  rw [hnone]
  rfl

theorem Made.accounted (h : Made s) : Accounted s := by
  obtain ⟨mem, config, hinit⟩ := h
  have hnew := hwfqInit_success hinit
  have hcores : ∀ i, s.cores i = none := fun i => by rw [Scheduler.cores, hnew.tenants]; rfl
  constructor
  · intro p hp
    have hflight : ∀ e ∈ s.inFlight, e.tenantId ≠ p.1 := by
      rw [hnew.inFlight]
      exact fun e he => absurd he List.not_mem_nil
    exact absurd rfl (hnew.inv.outstanding_absent (congrFun hnew.tenants p.1) hflight hp)
  · intro i j b hb
    rw [backlogAt, readAt, hcores] at hb
    cases hb

theorem Watched.run_scheduler (w : Watched) (calls : List Call) :
    (run Watched.step w calls).scheduler = afterRun w.scheduler calls :=
  @run_project _ _ after _ Watched.step Watched.scheduler (fun _ _ => rfl) w calls

theorem Guarded.removalWaits {w : Watched} (h : Guarded w) (hc : KeepsAccounts w.scheduler c)
    (hdrained : DrainedFirst w.scheduler c) : RemovalWaits w c := by
  constructor
  · intro i heq hok
    have hflight := hc.removeTenant h.inv i heq hok
    subst heq
    obtain ⟨-, ⟨hbad, -⟩ | ⟨t, ht, hidle, -⟩⟩ := h.inv.removeTenant i.toNat
    · exact absurd hok hbad
    have hqueue : w.scheduler.queue i.toNat = 0 := by
      apply (hdrained i rfl).resolve_left
      rintro ⟨u, hu, hflag⟩
      rw [Option.mem_def, ht] at hu
      cases hu
      rw [hidle] at hflag
      cases hflag
    intro p hp hi
    rcases Multiset.mem_add.mp hp with hqueued | hflying
    · obtain ⟨x, hx, rfl⟩ := Multiset.mem_map.mp hqueued
      obtain ⟨k, -, hk⟩ := Scheduler.mem_queuedSessions.mp hx
      have hki : k = i.toNat := (h.inv.queued_tenant hk).symm.trans hi
      rw [hki, hqueue] at hk
      exact Multiset.notMem_zero x hk
    · obtain ⟨e, he, rfl⟩ := Multiset.mem_map.mp hflying
      exact hflight e (Multiset.mem_coe.mp he) hi
  · intro i f heq hok
    subst heq
    exact h.accounts.removeFlow h.inv i f hok
  · intro i f work _ found _
    rw [h.none]
    exact Multiset.notMem_zero found.addr

theorem Made.guarded (h : Made s) {calls : List Call} (hsafe : Along after KeepsAccounts s calls) :
    Guarded (run Watched.step ⟨s, 0⟩ calls) := by
  have hfit := h.backlogsFit []
  have hstart : Guarded ⟨s, 0⟩ := ⟨h.inv, hfit, h.accounted, rfl⟩
  apply run_invariant (fun w c hw hc => Guarded.step hw hc) hstart
  exact @along_project _ _ after KeepsAccounts _ Watched.step Watched.scheduler (fun _ _ => rfl)
    ⟨s, 0⟩ calls hsafe

/-- In a run without overflowing counters where no tenant is removed with sessions in flight, no
removal leaves a session behind and no later call ends a session under a recycled id. What is
queued for a tenant guards it as long as its registrations are kept. -/
theorem removal_waits (s : Scheduler) (h : Made s) (calls : List Call) (c : Call)
    (hsafe : Along after KeepsAccounts s (calls ++ [c]))
    (hqueues : RegistrationsKept s calls ∨ DrainedFirst (afterRun s calls) c) :
    RemovalWaits (run Watched.step ⟨s, 0⟩ calls) c := by
  obtain ⟨hbefore, hlast, -⟩ := (along_append _ _ _).mp hsafe
  have hdrained : DrainedFirst (afterRun s calls) c := by
    rcases hqueues with hkept | hdrained
    · exact h.drainedFirst hkept c
    · exact hdrained
  apply (h.guarded hbefore).removalWaits
  · rw [Watched.run_scheduler]
    exact hlast
  · rw [Watched.run_scheduler]
    exact hdrained

/-- A session is served, its flow is removed and its id given to a new flow, which is served as
well. -/
def recycledFlow : List Call :=
  [.addTenant (some (.weight 1)) true, .addFlow 0 (some (.weight 1)) true,
    .enqueue 0 1 (some { userData := 7, workSize := 6 }) 0, .dequeue true 0, .complete 0 1 none,
    .removeFlow 0 1, .addFlow 0 (some (.weight 1)) true,
    .enqueue 0 1 (some { userData := 8, workSize := 5 }) 0, .dequeue true 0, .complete 0 1 none]

theorem removal_waits_recycled :
    RemovalWaits (run Watched.step ⟨smallScheduler, 0⟩ recycledFlow) (.removeTenant 0) := by
  apply removal_waits smallScheduler smallScheduler_made recycledFlow
  · decide +kernel
  · refine .inl ⟨smallScheduler_granted, ?_, ?_⟩
    · show smallScheduler.numGroups * smallScheduler.binsPerGroup ≤ 32768
      decide +kernel
    · decide +kernel

/-- A tenant is removed while its only session is in flight. -/
def removedTooEarly : List Call :=
  [.addTenant (some (.weight 1)) true, .addFlow 0 (some (.weight 1)) true,
    .enqueue 0 1 (some { userData := 7, workSize := 6 }) 0, .dequeue true 0]

/-- The removal succeeds. With the id given to a new tenant and a new flow, completing the
session counts for that flow. -/
theorem removal_does_not_wait :
    (respond (afterRun smallScheduler removedTooEarly) (.removeTenant 0)).status = .success ∧
      (0, 1) ∈ (afterRun smallScheduler removedTooEarly).outstanding ∧
      ¬ RemovalWaits (run Watched.step ⟨smallScheduler, 0⟩ (removedTooEarly ++
        [.removeTenant 0, .addTenant (some (.weight 1)) true, .addFlow 0 (some (.weight 1)) true]))
          (.complete 0 1 none) := by
  refine ⟨by decide +kernel, by decide +kernel, fun hwaits => ?_⟩
  have howner := hwaits.owner 0 1 none (.complete 0 1 none)
  revert howner
  decide +kernel

end Hwfq
