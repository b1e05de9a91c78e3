import Hwfq.PooledGroup

/-!
# The tokens of the system scheduler

The system scheduler has an entry for every tenant and a session, the token, for
every tenant whose `has_backlog` is set. Tenants are seen from here through their
address, their allocation, that flag and `tenant_session` only.
-/
namespace Hwfq
open Bins

/-- What the system scheduler relies on about a tenant. -/
structure TenantFace where
  addr : Addr
  allocation : Allocation
  hasBacklog : Bool
  tenantSession : Option Addr
deriving DecidableEq, Repr

def Tenant.face (tenant : Tenant) : TenantFace :=
  ⟨tenant.addr, tenant.allocation, tenant.hasBacklog, tenant.tenantSession⟩

/-- A tenant whose token is the session at `p`. -/
def TenantFace.withToken (f : TenantFace) (p : Addr) : TenantFace :=
  { f with hasBacklog := true, tenantSession := some p }

/-- A tenant without a token. -/
def TenantFace.withoutToken (f : TenantFace) : TenantFace :=
  { f with hasBacklog := false, tenantSession := none }

/-- Entries are tenants and tokens are the tenants with the flag, one each. -/
structure SystemInv (mem : Allocator) (system : GroupScheduler TenantPtr)
    (faces : ℕ → Option TenantFace) : Prop where
  pooled : ∃ live, PooledInv mem system live ∧ ∀ i, i ∈ live ↔ (faces i).isSome = true
  allocations : ∀ i, (activeEntry system i).map (·.allocation) = (faces i).map (·.allocation)
  tokens : ∀ q ∈ system.queued, ∃ f, faces q.entryId = some f ∧ f.hasBacklog = true ∧
    f.tenantSession = some q.addr ∧ q.userData = some ⟨q.entryId, f.addr⟩ ∧
    q.workSize = tenantQuantumSize
  distinct : (system.queued.map (·.entryId)).Nodup
  registered : ∀ i f, faces i = some f → f.hasBacklog = true → ∃ q ∈ system.queued, q.entryId = i

variable {mem mem' : Allocator} {system system' : GroupScheduler TenantPtr}
  {faces : ℕ → Option TenantFace}

theorem SystemInv.group (h : SystemInv mem system faces) : GroupInv mem system :=
  h.pooled.elim fun _ hl => hl.1.group

theorem SystemInv.active (h : SystemInv mem system faces) (i : ℕ) :
    (activeEntry system i).isSome = (faces i).isSome := by
  have hi := congrArg Option.isSome (h.allocations i)
  rwa [Option.isSome_map, Option.isSome_map] at hi

theorem SystemInv.lt_maxEntries (h : SystemInv mem system faces) {i : ℕ}
    (hi : (faces i).isSome = true) : i < system.maxEntries := by
  obtain ⟨live, hpool, -⟩ := h.pooled
  exact hpool.bounded i (by rw [h.active, hi])

theorem SystemInv.weaken (h : SystemInv mem system faces) (hmem : mem.next ≤ mem'.next) :
    SystemInv mem' system faces := by
  obtain ⟨live, hpool, hlive⟩ := h.pooled
  exact { h with pooled := ⟨live, hpool.weaken hmem, hlive⟩ }

/-- An operation that keeps the queue and the active entries. -/
theorem SystemInv.same_queue (h : SystemInv mem system faces)
    (hpooled : ∃ live, PooledInv mem' system' live ∧ ∀ i, i ∈ live ↔ (faces i).isSome = true)
    (hactive : ∀ i, (activeEntry system' i).map (·.allocation) =
      (activeEntry system i).map (·.allocation))
    (hqueue : system'.queued = system.queued) : SystemInv mem' system' faces where
  pooled := hpooled
  allocations i := (hactive i).trans (h.allocations i)
  tokens := by
    rw [hqueue]
    exact h.tokens
  distinct := by
    rw [hqueue]
    exact h.distinct
  registered := by
    rw [hqueue]
    exact h.registered

/-! ## The queue operations -/

theorem SystemInv.update (h : SystemInv mem system faces) (w : ℕ) :
    SystemInv mem (groupSchedulerUpdateVirtualTime system w) faces := by
  obtain ⟨live, hpool, hlive⟩ := h.pooled
  have hq := updateVirtualTime_queued system w
  have hids : ((groupSchedulerUpdateVirtualTime system w).queued.map (·.entryId)) =
      system.queued.map (·.entryId) := by
    rw [hq, Multiset.map_map]
    rfl
  refine ⟨⟨live, hpool.update w, hlive⟩, fun i => ?_, fun q hmem => ?_, hids ▸ h.distinct,
    fun i f hi hflag => ?_⟩
  · rw [updateVirtualTime_activeEntry hpool.group.nodup hpool.group.listed, Option.map_map,
      ← h.allocations]
    rfl
  · rw [hq] at hmem
    obtain ⟨t, ht, rfl⟩ := Multiset.mem_map.mp hmem
    exact h.tokens t ht
  · obtain ⟨q, hmem, rfl⟩ := h.registered i f hi hflag
    rw [hq]
    exact ⟨_, Multiset.mem_map_of_mem _ hmem, rfl⟩

/-- Replacing the face of one tenant keeps which slots are taken and their allocations. -/
theorem update_face {i : ℕ} {f f' : TenantFace} (hface : faces i = some f)
    (hsame : f'.allocation = f.allocation) (j : ℕ) :
    (Function.update faces i (some f') j).isSome = (faces j).isSome ∧
      (Function.update faces i (some f') j).map (·.allocation) =
        (faces j).map (·.allocation) := by
  by_cases hj : j = i
  · subst hj
    simp [hface, hsame]
  · rw [Function.update_of_ne hj]
    exact ⟨rfl, rfl⟩

/-- A token that is taken belongs to a tenant, and no other token does. -/
theorem SystemInv.take (h : SystemInv mem system faces) {q : SessionState TenantPtr}
    (heq : groupSchedulerDequeue system = (some q, system')) :
    ∃ f, faces q.entryId = some f ∧ f.hasBacklog = true ∧
      q.userData = some ⟨q.entryId, f.addr⟩ ∧ q.workSize = tenantQuantumSize ∧
      SystemInv mem system' (Function.update faces q.entryId (some f.withoutToken)) := by
  obtain ⟨live, hpool, hlive⟩ := h.pooled
  have hpool' := hpool.dequeue
  have hledger := dequeue_ledger system
  rw [heq] at hpool' hledger
  obtain ⟨-, -, hq⟩ := dequeue_some hpool.group.calendar heq
  have hin : q ∈ system.queued := hq ▸ Multiset.mem_cons_self q _
  obtain ⟨f, hface, hflag, -, hdata, hwork⟩ := h.tokens q hin
  have hdist := h.distinct
  rw [hq, Multiset.map_cons, Multiset.nodup_cons] at hdist
  have hne : ∀ t ∈ system'.queued, t.entryId ≠ q.entryId := fun t ht heq' =>
    hdist.1 (heq' ▸ Multiset.mem_map_of_mem _ ht)
  have halloc : f.withoutToken.allocation = f.allocation := rfl
  have hsame := update_face hface halloc
  refine ⟨f, hface, hflag, hdata, hwork, ⟨live, hpool', fun i => by rw [(hsame i).1, hlive]⟩,
    fun i => ?_, fun t ht => ?_, hdist.2, fun i g hi hg => ?_⟩
  · rw [(hsame i).2, activeEntry_of_ledger hledger, h.allocations]
  · rw [Function.update_of_ne (hne t ht)]
    exact h.tokens t (hq ▸ Multiset.mem_cons_of_mem ht)
  · by_cases hiq : i = q.entryId
    · subst hiq
      rw [Function.update_self, Option.some.injEq] at hi
      subst hi
      cases hg
    · rw [Function.update_of_ne hiq] at hi
      obtain ⟨t, ht, rfl⟩ := h.registered i g hi hg
      rw [hq] at ht
      rcases Multiset.mem_cons.mp ht with rfl | ht
      · exact absurd rfl hiq
      · exact ⟨t, ht, rfl⟩

theorem SystemInv.miss (h : SystemInv mem system faces)
    (heq : groupSchedulerDequeue system = (none, system')) : SystemInv mem system' faces := by
  obtain ⟨live, hpool, hlive⟩ := h.pooled
  have hpool' := hpool.dequeue
  have hledger := dequeue_ledger system
  rw [heq] at hpool' hledger
  exact h.same_queue ⟨live, hpool', hlive⟩ (fun i => by rw [activeEntry_of_ledger hledger])
    (dequeue_none hpool.group.calendar heq)

/-- A new token for a tenant without one. -/
theorem SystemInv.enqueue (h : SystemInv mem system faces) {i : ℕ} {f : TenantFace}
    (hface : faces i = some f) (hflag : f.hasBacklog = false)
    (hstatus : (groupSchedulerEnqueue mem system i tenantQuantumSize (some ⟨i, f.addr⟩)
      false).status = .success) :
    SystemInv (groupSchedulerEnqueue mem system i tenantQuantumSize (some ⟨i, f.addr⟩) false).mem
      (groupSchedulerEnqueue mem system i tenantQuantumSize (some ⟨i, f.addr⟩) false).gs
      (Function.update faces i (some (f.withToken mem.next))) := by
  obtain ⟨live, hpool, hlive⟩ := h.pooled
  have hpool' := hpool.enqueue i tenantQuantumSize (some ⟨i, f.addr⟩) false
  rcases enqueue_cases mem system i tenantQuantumSize (some ⟨i, f.addr⟩) false with
    ⟨hbad, -⟩ | ⟨-, -, -, -, entry, hadm, heq⟩
  · exact absurd hstatus hbad
  have hq := hadm.queued mem.next (some ⟨i, f.addr⟩) false
  rw [heq] at hpool' ⊢
  have hnone : ∀ t ∈ system.queued, t.entryId ≠ i := by
    rintro t ht rfl
    obtain ⟨g, hface', hg, -⟩ := h.tokens t ht
    rw [hface, Option.some.injEq] at hface'
    subst hface'
    rw [hflag] at hg
    cases hg
  have halloc : (f.withToken mem.next).allocation = f.allocation := rfl
  have hsame := update_face hface halloc
  refine ⟨⟨live, hpool', fun j => by rw [(hsame j).1, hlive]⟩, fun j => ?_, fun t ht => ?_, ?_,
    fun j g hj hg => ?_⟩
  · rw [(hsame j).2, enqueued_activeEntry, ← h.allocations]
    split_ifs
    · rw [Option.map_map]
      rfl
    · rfl
  · rw [hq] at ht
    rcases Multiset.mem_cons.mp ht with rfl | ht
    · exact ⟨f.withToken mem.next, Function.update_self .., rfl, rfl, rfl, rfl⟩
    · rw [Function.update_of_ne (hnone t ht)]
      exact h.tokens t ht
  · rw [hq, Multiset.map_cons, Multiset.nodup_cons]
    refine ⟨fun hin => ?_, h.distinct⟩
    obtain ⟨t, ht, heq'⟩ := Multiset.mem_map.mp hin
    exact hnone t ht heq'
  · rw [hq]
    by_cases hji : j = i
    · subst hji
      exact ⟨_, Multiset.mem_cons_self _ _, rfl⟩
    · rw [Function.update_of_ne hji] at hj
      obtain ⟨t, ht, rfl⟩ := h.registered j g hj hg
      exact ⟨t, Multiset.mem_cons_of_mem ht, rfl⟩

/-! ## Configuration -/

/-- A change of the tenants that no token sees. -/
theorem SystemInv.same_tokens {faces' : ℕ → Option TenantFace} (h : SystemInv mem system faces)
    (hpooled : ∃ live, PooledInv mem' system' live ∧ ∀ i, i ∈ live ↔ (faces' i).isSome = true)
    (hallocations : ∀ i, (activeEntry system' i).map (·.allocation) =
      (faces' i).map (·.allocation))
    (hqueue : system'.queued = system.queued)
    (hfaces : ∀ i f, f.hasBacklog = true → (faces i = some f →
      ∃ a, faces' i = some { f with allocation := a }) ∧
      (faces' i = some f → ∃ a, faces i = some { f with allocation := a })) :
    SystemInv mem' system' faces' where
  pooled := hpooled
  allocations := hallocations
  tokens q hmem := by
    obtain ⟨f, hface, hflag, hsession, hdata, hwork⟩ := h.tokens q (hqueue ▸ hmem)
    obtain ⟨a, ha⟩ := (hfaces q.entryId f hflag).1 hface
    exact ⟨_, ha, hflag, hsession, hdata, hwork⟩
  distinct := hqueue ▸ h.distinct
  registered i f hi hflag := by
    obtain ⟨a, ha⟩ := (hfaces i f hflag).2 hi
    rw [hqueue]
    exact h.registered i _ ha hflag

/-- Configuring the entry of a tenant sets its allocation if it succeeds. -/
theorem SystemInv.configure (h : SystemInv mem system faces) {i : ℕ} {f : TenantFace}
    (hface : faces i = some f) (a : Allocation) :
    ((groupSchedulerConfigureEntry system i a).1 ≠ .success ∧
      (groupSchedulerConfigureEntry system i a).2 = system) ∨
    ((groupSchedulerConfigureEntry system i a).1 = .success ∧
      (groupSchedulerConfigureEntry system i a).2.allocatedRateCapacity =
        u64 (subU64 system.allocatedRateCapacity f.allocation.reserved + a.reserved) ∧
      SystemInv mem (groupSchedulerConfigureEntry system i a).2
        (Function.update faces i (some { f with allocation := a }))) := by
  obtain ⟨live, hpool, hlive⟩ := h.pooled
  rcases hpool.configure_cases i a with ⟨hbad, heq⟩ | ⟨hok, -, entry, -, -, -, hact⟩
  · exact .inl ⟨hbad, heq⟩
  have hi : i ∈ live := (hlive i).mpr (by rw [hface]; rfl)
  refine .inr ⟨hok, ?_, h.same_tokens ⟨live, hpool.configure hi a, fun j => ?_⟩ (fun j => ?_)
    (queued_of_queueView (configureEntry_queueView hpool.group.sums i a)) fun j g hg => ?_⟩
  · have hrate := h.allocations i
    rw [hpool.configure_rates hok]
    cases hent : activeEntry system i with
    | none => simp [hent, hface] at hrate
    | some e =>
      rw [hent, hface, Option.map_some, Option.map_some, Option.some.injEq] at hrate
      rw [Option.elim_some, hrate]
  · rw [hlive]
    by_cases hj : j = i
    · subst hj
      simp [hface]
    · rw [Function.update_of_ne hj]
  · rw [hact]
    by_cases hj : j = i
    · subst hj
      simp [configuredAs]
    · rw [if_neg hj, Function.update_of_ne hj, h.allocations]
  · by_cases hj : j = i
    · subst hj
      rw [hface, Function.update_self]
      refine ⟨fun heq => ?_, fun heq => ?_⟩
      · cases heq
        exact ⟨a, rfl⟩
      · cases heq
        exact ⟨f.allocation, rfl⟩
    · rw [Function.update_of_ne hj]
      exact ⟨fun heq => ⟨g.allocation, heq⟩, fun heq => ⟨g.allocation, heq⟩⟩

/-- All outcomes of taking an entry for a new tenant. -/
theorem SystemInv.alloc (h : SystemInv mem system faces) {mem₀ : Allocator}
    (hmem : mem.next ≤ mem₀.next) :
    mem₀.next ≤ (allocEntryOf mem₀ system).2.1.next ∧
      ((∃ ret, (allocEntryOf mem₀ system).1 = .error ret ∧
          SystemInv (allocEntryOf mem₀ system).2.1 (allocEntryOf mem₀ system).2.2 faces) ∨
        ∃ id live, (allocEntryOf mem₀ system).1 = .ok id ∧ id ∉ live ∧
          (∀ i, i ∈ live ↔ (faces i).isSome = true) ∧
          PooledInv (allocEntryOf mem₀ system).2.1 (allocEntryOf mem₀ system).2.2
            (insert id live) ∧
          ∀ j, activeEntry (allocEntryOf mem₀ system).2.2 j = activeEntry system j) := by
  obtain ⟨live, hpool, hlive⟩ := h.pooled
  obtain ⟨hnext, hact, hview, ⟨ret, hret, hpool'⟩ | ⟨id, hret, hnew, -, hpool', -⟩⟩ :=
    hpool.alloc hmem
  · exact ⟨hnext, .inl ⟨ret, hret, h.same_queue ⟨live, hpool', hlive⟩
      (fun i => by rw [hact]) (queued_of_queueView hview)⟩⟩
  · exact ⟨hnext, .inr ⟨id, live, hret, hnew, hlive, hpool', hact⟩⟩

/-- The end of adding a tenant: its new entry is configured or given back. -/
theorem SystemInv.enlist (h : SystemInv mem system faces) {id : ℕ} {live : Finset ℕ}
    (hnew : id ∉ live) (hlive : ∀ i, i ∈ live ↔ (faces i).isSome = true)
    (hpool : PooledInv mem' system' (insert id live))
    (hact : ∀ j, activeEntry system' j = activeEntry system j)
    (hview : system'.queueView = system.queueView) (a : Allocation) (addr : Addr) :
    faces id = none ∧
      (((groupSchedulerConfigureEntry system' id a).1 = .success ∧
          (groupSchedulerConfigureEntry system' id a).2.allocatedRateCapacity =
            u64 (system'.allocatedRateCapacity + a.reserved) ∧
          SystemInv mem' (groupSchedulerConfigureEntry system' id a).2
            (Function.update faces id (some ⟨addr, a, false, none⟩))) ∨
        ((groupSchedulerConfigureEntry system' id a).1 ≠ .success ∧
          (groupSchedulerConfigureEntry system' id a).2 = system' ∧
          SystemInv mem' (freeEntryOf system' id) faces)) := by
  have hface : faces id = none := by
    rw [← Option.not_isSome_iff_eq_none, ← hlive]
    exact hnew
  have hidle : activeEntry system id = none := by
    rw [← Option.not_isSome_iff_eq_none, h.active, hface]
    simp
  refine ⟨hface, ?_⟩
  rcases hpool.configure_cases id a with ⟨hbad, heq⟩ | ⟨hok, -, entry, -, -, -, hconf⟩
  · refine .inr ⟨hbad, heq, ?_⟩
    obtain ⟨hfree, hsame⟩ := hpool.free (Finset.mem_insert_self id live) ((hact id).trans hidle)
    refine h.same_queue ⟨live, ?_, hlive⟩ (fun i => by rw [hsame, hact])
      (queued_of_queueView hview)
    rwa [Finset.erase_insert hnew] at hfree
  · refine .inl ⟨hok, by rw [hpool.configure_rates hok, hact, hidle, Option.elim_none,
      subU64_zero], h.same_tokens
      ⟨insert id live, hpool.configure (Finset.mem_insert_self id live) a, fun i => ?_⟩
      (fun i => ?_)
      ((queued_of_queueView (configureEntry_queueView hpool.group.sums id a)).trans
        (queued_of_queueView hview)) fun i g hg => ?_⟩
    · by_cases hi : i = id
      · subst hi
        simp
      · rw [Function.update_of_ne hi, Finset.mem_insert, ← hlive]
        simp [hi]
    · rw [hconf]
      by_cases hi : i = id
      · subst hi
        simp [configuredAs]
      · rw [if_neg hi, Function.update_of_ne hi, hact, h.allocations]
    · by_cases hi : i = id
      · subst hi
        rw [hface, Function.update_self]
        refine ⟨fun heq => (by cases heq), fun heq => ?_⟩
        cases heq
        cases hg
      · rw [Function.update_of_ne hi]
        exact ⟨fun heq => ⟨g.allocation, heq⟩, fun heq => ⟨g.allocation, heq⟩⟩

/-- A tenant without a token leaves. -/
theorem SystemInv.retire (h : SystemInv mem system faces) {i : ℕ} {f : TenantFace}
    (hface : faces i = some f) (hflag : f.hasBacklog = false) :
    (freeEntryOf (groupSchedulerRemoveEntry system i).2 i).allocatedRateCapacity =
        subU64 system.allocatedRateCapacity f.allocation.reserved ∧
      SystemInv mem (freeEntryOf (groupSchedulerRemoveEntry system i).2 i)
        (Function.update faces i none) := by
  obtain ⟨live, hpool, hlive⟩ := h.pooled
  obtain ⟨hpool', hact, hview⟩ := hpool.retire (show (activeEntry system i).isSome = true by
    rw [h.active, hface]; rfl)
  have hrate := h.allocations i
  rw [hface, Option.map_some, Option.map_eq_some_iff] at hrate
  obtain ⟨e, hent, hsame⟩ := hrate
  refine ⟨hsame ▸ hpool.retire_rates hent, h.same_tokens ⟨live.erase i, hpool', fun j => ?_⟩ (fun j => ?_)
    (queued_of_queueView hview) fun j g hg => ?_⟩
  · by_cases hj : j = i
    · subst hj
      simp
    · rw [Function.update_of_ne hj, Finset.mem_erase, ← hlive]
      simp [hj]
  · rw [hact]
    by_cases hj : j = i
    · subst hj
      simp
    · rw [if_neg hj, Function.update_of_ne hj, h.allocations]
  · by_cases hj : j = i
    · subst hj
      rw [hface, Function.update_self]
      refine ⟨fun heq => ?_, fun heq => by cases heq⟩
      cases heq
      rw [hflag] at hg
      cases hg
    · rw [Function.update_of_ne hj]
      exact ⟨fun heq => ⟨g.allocation, heq⟩, fun heq => ⟨g.allocation, heq⟩⟩

end Hwfq
