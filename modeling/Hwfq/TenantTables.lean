import Hwfq.SchedulerRuns

/-!
# The tenant table, the entry store and the system scheduler

Three stores say which tenants exist. They agree in every state of every run,
with any pattern of allocation failures, and so do the two ledgers of rates.
-/
namespace Hwfq
open GuardedRuns

/-! ## Live ids of an entry store -/

/-- `i` is met on the free list from `head` on. -/
inductive FreeFrom (ce : ChunkedEntries) : ℕ → ℕ → Prop
  | head {i} (used : i ≠ entryNone) : FreeFrom ce i i
  | next {head i e} (used : head ≠ entryNone) (get : hwfqChunkedGet ce head = some e)
      (rest : FreeFrom ce e.entryId i) : FreeFrom ce head i

/-- An id that was handed out and not given back. -/
def LiveId (ce : ChunkedEntries) (i : ℕ) : Prop :=
  i < ce.numAllocated ∧ ¬ FreeFrom ce ce.freeHead i

theorem FreeChain.freeFrom_iff {ce : ChunkedEntries} {head : ℕ} {l : List ℕ}
    (h : FreeChain ce head l) (hused : ∀ j ∈ l, j ≠ entryNone) (i : ℕ) :
    FreeFrom ce head i ↔ i ∈ l := by
  induction l generalizing head with
  | nil =>
    refine ⟨fun hfree => ?_, fun hi => by cases hi⟩
    cases hfree with
    | head hne => exact absurd h hne
    | next hne => exact absurd h hne
  | cons j l ih =>
    obtain ⟨rfl, e, he, hrest⟩ := h
    have hih := ih hrest fun k hk => hused k (List.mem_cons_of_mem _ hk)
    rw [List.mem_cons]
    constructor
    · intro hfree
      cases hfree with
      | head => exact .inl rfl
      | next hne hget hfrom =>
        rw [he, Option.some.injEq] at hget
        exact .inr (hih.mp (hget ▸ hfrom))
    · rintro (rfl | hi)
      · exact .head (hused i List.mem_cons_self)
      · exact .next (hused _ List.mem_cons_self) he (hih.mpr hi)

theorem PoolInv.freeFrom_iff {ce : ChunkedEntries} {live : Finset ℕ} (h : PoolInv ce live) (i : ℕ) :
    FreeFrom ce ce.freeHead i ↔ i < ce.numAllocated ∧ i ∉ live := by
  obtain ⟨l, hl, -, hmem⟩ := h.free
  have hused : ∀ j ∈ l, j ≠ entryNone := fun j hj hnone => by
    have hlt := ((hmem j).mp hj).1
    have hbound := h.chunks
    have hgt := entryNone_gt
    omega
  rw [hl.freeFrom_iff hused, hmem]

theorem PoolInv.liveId_iff {ce : ChunkedEntries} {live : Finset ℕ} (h : PoolInv ce live) (i : ℕ) :
    LiveId ce i ↔ i ∈ live := by
  unfold LiveId
  rw [h.freeFrom_iff]
  constructor
  · rintro ⟨hlt, hfree⟩
    by_contra hi
    exact hfree ⟨hlt, hi⟩
  · exact fun hi => ⟨h.live_lt i hi, fun hfree => hfree.2 hi⟩

/-! ## Agreement -/

/-- The stores and ledgers of tenants agree. -/
structure TablesAgree (s : Scheduler) : Prop where
  live : ∀ i, (s.tenants i).isSome = true ↔ LiveId s.systemScheduler.entries i
  configured : ∀ i, (s.tenants i).isSome = true ↔
    (groupSchedulerFindEntry s.systemScheduler i).isSome = true
  slot : ∀ i t, s.tenants i = some t → t.tenantId = i ∧ i < s.maxTenants
  allocation : ∀ i t e, s.tenants i = some t →
    groupSchedulerFindEntry s.systemScheduler i = some e → t.allocation = e.allocation
  count : s.numConfiguredTenants =
    ((Finset.range s.maxTenants).filter fun i => (s.tenants i).isSome = true).card
  rates : s.allocatedRateCapacity = s.systemScheduler.allocatedRateCapacity

theorem SchedulerInv.tablesAgree {s : Scheduler} (h : SchedulerInv s) : TablesAgree s where
  live i := by
    obtain ⟨live, hpool, hlive⟩ := h.system.pooled
    rw [hpool.pool.liveId_iff, hlive, Scheduler.faces, Option.isSome_map]
  configured i := by
    have hact := h.system.active i
    rw [activeEntry_eq, Option.isSome_map, Scheduler.faces, Option.isSome_map] at hact
    rw [hact]
  slot i t ht := ⟨(h.tenants i t ht).slot, h.lt_maxTenants ht⟩
  allocation i t e ht he := by
    have halloc := h.system.allocations i
    rw [activeEntry_of_find he, Scheduler.faces, ht] at halloc
    simpa [Tenant.face, EntryConfig.core] using halloc.symm
  count := h.count
  rates := h.rates

/-- The tables agree after every run; hence a new tenant never lands in a taken
slot, and the configure call whose result is ignored succeeds. -/
theorem tenant_tables_agree {s : Scheduler} (h : Made s) (calls : List Call) :
    let s' := afterRun s calls
    TablesAgree s' ∧
      (∀ a out i, (hwfqAddTenant s' a out).2.1 = some i → s'.tenants i = none) ∧
      ∀ i a t, s'.tenants i = some t → validateAllocation a = true →
        wouldExceedCapacity s' a (some t.allocation) = false →
        (groupSchedulerConfigureEntry s'.systemScheduler i a).1 = .success := by
  have hinv := h.afterRun calls
  refine ⟨hinv.tablesAgree, fun a out i hid => ?_, fun i a t ht hvalid hfits =>
    hinv.configure_success ht hvalid hfits⟩
  rcases (hinv.addTenant a out).2 with ⟨-, hnone, -⟩ | ⟨a, addr, flows, mem, j, -, -, -, -, hj, hadm, -⟩
  · rw [hnone] at hid
    cases hid
  · rw [hj, Option.some.injEq] at hid
    exact hid ▸ hadm.free

theorem tenant_tables_agree_small :
    let s' := afterRun smallScheduler [.addTenant (some (.rate 40)) true,
      .addTenant (some (.weight 2)) true, .removeTenant 0, .addTenant (some (.rate 30)) true]
    TablesAgree s' ∧
      (∀ a out i, (hwfqAddTenant s' a out).2.1 = some i → s'.tenants i = none) ∧
      ∀ i a t, s'.tenants i = some t → validateAllocation a = true →
        wouldExceedCapacity s' a (some t.allocation) = false →
        (groupSchedulerConfigureEntry s'.systemScheduler i a).1 = .success :=
  tenant_tables_agree smallScheduler_made _

/-! ## Tokens -/

/-- The sessions of the system scheduler that carry a tenant. -/
def tokensOf (s : Scheduler) (p : TenantPtr) : Multiset (SessionState TenantPtr) :=
  s.systemScheduler.queued.filter fun q => q.userData = some p

/-- Tenants with the flag have one token each, the others none, and a token carries a
tenant that is there. -/
structure TokensExact (s : Scheduler) : Prop where
  flagged : ∀ i t, s.tenants i = some t →
    (t.hasBacklog = true ↔ ∃ q, tokensOf s t.ptr = {q} ∧ t.tenantSession = some q.addr)
  unflagged : ∀ i t, s.tenants i = some t → t.hasBacklog = false → tokensOf s t.ptr = 0
  alive : ∀ q ∈ s.systemScheduler.queued, ∃ t,
    s.tenants q.entryId = some t ∧ q.userData = some t.ptr

/-- The one session of an id. -/
theorem filter_eq_singleton {α : Type*} {m : Multiset (SessionState α)}
    (hids : (m.map (·.entryId)).Nodup) {q : SessionState α} (hq : q ∈ m)
    {p : SessionState α → Prop} [DecidablePred p] (hp : ∀ r ∈ m, p r ↔ r.entryId = q.entryId) :
    m.filter p = {q} := by
  obtain ⟨rest, rfl⟩ := Multiset.exists_cons_of_mem hq
  rw [Multiset.map_cons, Multiset.nodup_cons] at hids
  have hnone : rest.filter p = 0 := by
    apply Multiset.filter_eq_nil.mpr
    intro r hr hpr
    apply hids.1
    rw [← (hp r (Multiset.mem_cons_of_mem hr)).mp hpr]
    exact Multiset.mem_map_of_mem _ hr
  rw [Multiset.filter_cons_of_pos rest ((hp q hq).mpr rfl), hnone]
  rfl

theorem SchedulerInv.token_of {s : Scheduler} (h : SchedulerInv s) {q : SessionState TenantPtr}
    (hq : q ∈ s.systemScheduler.queued) : ∃ t, s.tenants q.entryId = some t ∧
      t.hasBacklog = true ∧ t.tenantSession = some q.addr ∧ q.userData = some t.ptr := by
  obtain ⟨f, hf, hflag, hsession, hdata, -⟩ := h.system.tokens q hq
  obtain ⟨t, ht, rfl⟩ : ∃ t, s.tenants q.entryId = some t ∧ t.face = f :=
    Option.map_eq_some_iff.mp hf
  refine ⟨t, ht, hflag, hsession, ?_⟩
  rw [hdata, Tenant.ptr, (h.tenants _ t ht).slot]
  rfl

theorem SchedulerInv.carries_iff {s : Scheduler} (h : SchedulerInv s) {i : ℕ} {t : Tenant}
    (ht : s.tenants i = some t) {q : SessionState TenantPtr}
    (hq : q ∈ s.systemScheduler.queued) : q.userData = some t.ptr ↔ q.entryId = i := by
  obtain ⟨u, hu, -, -, hdata⟩ := h.token_of hq
  have hslot := (h.tenants i t ht).slot
  constructor
  · intro hsame
    rw [hdata, Option.some.injEq] at hsame
    have hid : u.tenantId = t.tenantId := congrArg TenantPtr.tenantId hsame
    rw [← hslot, ← hid, (h.tenants _ u hu).slot]
  · rintro rfl
    rw [ht, Option.some.injEq] at hu
    rw [hdata, hu]

theorem SchedulerInv.tokensExact {s : Scheduler} (h : SchedulerInv s) : TokensExact s := by
  have hnone : ∀ i t, s.tenants i = some t → t.hasBacklog = false → tokensOf s t.ptr = 0 := by
    intro i t ht hidle
    apply Multiset.filter_eq_nil.mpr
    intro q hq hdata
    obtain ⟨u, hu, hflag, -, -⟩ := h.token_of hq
    rw [(h.carries_iff ht hq).mp hdata, ht, Option.some.injEq] at hu
    rw [← hu, hidle] at hflag
    cases hflag
  constructor
  · intro i t ht
    constructor
    · intro hflag
      have hface : s.faces i = some t.face := by rw [Scheduler.faces, ht, Option.map_some]
      obtain ⟨q, hq, rfl⟩ := h.system.registered i t.face hface hflag
      obtain ⟨u, hu, -, hsession, -⟩ := h.token_of hq
      rw [ht, Option.some.injEq] at hu
      exact ⟨q, filter_eq_singleton h.system.distinct hq fun r hr => h.carries_iff ht hr,
        hu ▸ hsession⟩
    · rintro ⟨q, hone, -⟩
      cases hflag : t.hasBacklog with
      | true => rfl
      | false =>
        rw [hnone i t ht hflag] at hone
        exact absurd hone.symm (Multiset.singleton_ne_zero q)
  · exact hnone
  · intro q hq
    obtain ⟨t, ht, -, -, hdata⟩ := h.token_of hq
    exact ⟨t, ht, hdata⟩

/-- In every state of every run the tokens are those of the tenants with the flag, and a
dequeue that takes one finds its tenant. -/
theorem tokens_exact {s : Scheduler} (h : Made s) (calls : List Call) :
    let s' := afterRun s calls
    TokensExact s' ∧
      ∀ q system, groupSchedulerDequeue s'.systemScheduler = (some q, system) →
        ∃ t, s'.tenants q.entryId = some t ∧ q.userData.bind s'.tenantAt = some t := by
  have hinv := h.afterRun calls
  refine ⟨hinv.tokensExact, ?_⟩
  intro q system hd
  have hq : q ∈ (afterRun s calls).systemScheduler.queued :=
    (dequeue_some hinv.system.group.calendar hd).2.2 ▸ Multiset.mem_cons_self q _
  obtain ⟨t, ht, -, -, hdata⟩ := hinv.token_of hq
  refine ⟨t, ht, ?_⟩
  rw [hdata, Option.bind_some, Scheduler.tenantAt, Tenant.ptr, (hinv.tenants _ t ht).slot, ht]
  simp

theorem tokens_exact_small :
    let s' := afterRun smallScheduler [.addTenant (some (.weight 1)) true,
      .addFlow 0 (some (.weight 1)) true, .enqueue 0 1 (some { userData := 7, workSize := 6 }) 0]
    TokensExact s' ∧
      ∀ q system, groupSchedulerDequeue s'.systemScheduler = (some q, system) →
        ∃ t, s'.tenants q.entryId = some t ∧ q.userData.bind s'.tenantAt = some t :=
  tokens_exact smallScheduler_made _

end Hwfq
