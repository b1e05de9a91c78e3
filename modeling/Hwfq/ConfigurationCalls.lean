import Hwfq.SessionCalls

/-!
# Adding, changing and removing tenants and flows

One lemma for each call of `hwfq_config.c` says all of its outcomes. A call that
fails leaves the tenants as they were; a store may have grown by slots that no
configured entry sees.
-/
namespace Hwfq

variable {s : Scheduler}

/-! ## The flow scheduler of a new tenant -/

/-- No slot is configured and no slot has statistics. -/
def Blank (ce : ChunkedEntries) : Prop :=
  ∀ id e, hwfqChunkedGet ce id = some e → e.configured = false ∧ e.stats = {}

theorem Blank.unconfigured {ce : ChunkedEntries} (h : Blank ce) : Unconfigured ce :=
  fun id e he => (h id e he).1

theorem newFlowEntries_spec (s : Scheduler) (mem : Allocator) :
    Blank (newFlowEntries s mem).2 ∧ (∃ live, PoolInv (newFlowEntries s mem).2 live) ∧
      mem.next ≤ (newFlowEntries s mem).1.next ∧
      (mem.AlwaysOk → (newFlowEntries s mem).1.AlwaysOk) := by
  unfold newFlowEntries
  generalize hn : u32 (s.config.maxFlowsPerTenant.toNat + 1) = n
  have hnone : ∀ id, hwfqChunkedGet (hwfqChunkedEntriesInit n) id = none := fun id => by
    simp [hwfqChunkedGet, hwfqChunkedEntriesInit]
  have hok := fun h : mem.AlwaysOk => entriesAlloc_granted h (hwfqChunkedEntriesInit n)
  obtain ⟨hnext, ⟨ret, hret, hpool, hext⟩ | ⟨id, hret, -, -, hpool, hout⟩⟩ :=
    (PoolInv.init n).alloc mem
  · dsimp only
    rw [hret]
    refine ⟨fun id e he => ?_, ⟨_, hpool⟩, hnext, hok⟩
    rcases hext id with heq | ⟨-, hzero⟩
    · simp [heq, hnone] at he
    · rw [hzero] at he
      cases he
      exact ⟨rfl, rfl⟩
  · dsimp only
    rw [hret]
    refine ⟨fun j e he => ?_, ⟨_, hpool.write (Finset.mem_insert_self id ∅) fun e =>
      { e with configured := false }⟩, hnext, hok⟩
    dsimp only at he
    rw [get_write] at he
    by_cases hj : j = id
    · subst hj
      obtain ⟨e', he', -, hstats⟩ := hout.given
      rw [if_pos rfl, he', Option.map_some, Option.some.injEq] at he
      subst he
      refine ⟨rfl, ?_⟩
      rcases hstats with hstats | ⟨old, hold, -⟩
      · exact hstats
      · simp [hnone] at hold
    · rw [if_neg hj] at he
      rcases hout.others j hj with heq | ⟨-, hzero⟩
      · simp [heq, hnone] at he
      · rw [hzero] at he
        cases he
        exact ⟨rfl, rfl⟩

theorem newFlowEntries_maxEntries (s : Scheduler) (mem : Allocator) :
    (newFlowEntries s mem).2.maxEntries = u32 (s.config.maxFlowsPerTenant.toNat + 1) := by
  have hmax := entriesAlloc_maxEntries mem
    (hwfqChunkedEntriesInit (u32 (s.config.maxFlowsPerTenant.toNat + 1)))
  unfold newFlowEntries
  dsimp only
  split
  · exact hmax
  · exact hmax

/-- Construction takes memory and gives none back. -/
theorem initWithEntries_mem (α : Type*) (mem : Allocator)
    (numGroups binsPerGroup totalCapacity maxEntries : ℕ) (entries : ChunkedEntries) :
    mem.next ≤ (groupSchedulerInitWithEntries α mem numGroups binsPerGroup totalCapacity maxEntries
        entries).2.next ∧
      (mem.AlwaysOk → (groupSchedulerInitWithEntries α mem numGroups binsPerGroup totalCapacity
        maxEntries entries).2.AlwaysOk) := by
  unfold groupSchedulerInitWithEntries
  split_ifs
  · exact ⟨le_rfl, id⟩
  dsimp only
  generalize u32 (numGroups * binsPerGroup) = n
  generalize u32 (n + 31) / 32 = words
  have hn₁ := hwfqAlloc_next_le mem 1
  have hok₁ := fun h : mem.AlwaysOk => h.alloc 1
  cases h₁ : hwfqAlloc mem 1 with
  | mk p₁ mem₁ =>
    rw [h₁] at hn₁ hok₁
    cases p₁ with
    | none => exact ⟨hn₁, hok₁⟩
    | some _ =>
      have hn₂ := hwfqAlloc_next_le mem₁ words
      have hok₂ := fun h : mem₁.AlwaysOk => h.alloc words
      dsimp only
      cases h₂ : hwfqAlloc mem₁ words with
      | mk p₂ mem₂ =>
        rw [h₂] at hn₂ hok₂
        cases p₂ with
        | none => exact ⟨hn₁.trans hn₂, fun h => hok₂ (hok₁ h)⟩
        | some _ =>
          have hn₃ := hwfqAlloc_next_le mem₂ n
          have hok₃ := fun h : mem₂.AlwaysOk => h.alloc n
          dsimp only
          cases h₃ : hwfqAlloc mem₂ n with
          | mk p₃ mem₃ =>
            rw [h₃] at hn₃ hok₃
            cases p₃ <;>
              exact ⟨(hn₁.trans hn₂).trans hn₃, fun h => hok₃ (hok₂ (hok₁ h))⟩

/-! ## Tenants -/

/-- What adding tenant `t` in slot `i` has changed. -/
structure Admits (s s' : Scheduler) (i : ℕ) (t : Tenant) : Prop where
  free : s.tenants i = none
  within : i < s.maxTenants
  tenants : s'.tenants = Function.update s.tenants i (some t)
  next : s.mem.next ≤ s'.mem.next
  granted : s.mem.AlwaysOk → s'.mem.AlwaysOk
  config : s'.config = s.config
  numConfiguredTenants : s'.numConfiguredTenants = u32 (s.numConfiguredTenants + 1)
  totalActiveFlows : s'.totalActiveFlows = s.totalActiveFlows
  allocatedRateCapacity :
    s'.allocatedRateCapacity = u64 (s.allocatedRateCapacity + t.allocation.reserved)
  inFlightWorkSize : s'.inFlightWorkSize = s.inFlightWorkSize
  inFlightCount : s'.inFlightCount = s.inFlightCount
  inFlightHash : s'.inFlightHash = s.inFlightHash
  inFlight : s'.inFlight = s.inFlight

theorem present_insert {i : ℕ} {t : Tenant} (hwithin : i < s.maxTenants)
    {s' : Scheduler} (hconfig : s'.config = s.config)
    (htenants : s'.tenants = Function.update s.tenants i (some t)) :
    s'.present = insert i s.present := by
  ext j
  have hmax : s'.maxTenants = s.maxTenants := congrArg (·.maxTenants.toNat) hconfig
  simp only [Scheduler.present, hmax, htenants, Finset.mem_insert, Finset.mem_filter,
    Finset.mem_range]
  by_cases hj : j = i
  · subst hj
    simp [hwithin]
  · rw [Function.update_of_ne hj]
    simp [hj]

theorem present_card_le (s : Scheduler) : s.present.card ≤ s.maxTenants :=
  (Finset.card_filter_le _ _).trans_eq (Finset.card_range _)

theorem maxTenants_le (s : Scheduler) : s.maxTenants ≤ uint32Max := by
  have := s.config.maxTenants.toNat_lt
  unfold Scheduler.maxTenants uint32Max
  omega

/-- The count of tenants after one more was put into an empty slot. -/
theorem present_insert_card {i : ℕ} {t : Tenant} (hwithin : i < s.maxTenants)
    (hfree : s.tenants i = none) {s' : Scheduler} (hconfig : s'.config = s.config)
    (htenants : s'.tenants = Function.update s.tenants i (some t)) :
    u32 (s.present.card + 1) = s'.present.card := by
  have hcard : s'.present.card = s.present.card + 1 := by
    rw [present_insert hwithin hconfig htenants, Finset.card_insert_of_notMem]
    simp [Scheduler.present, hfree]
  have hle := (present_card_le s').trans (maxTenants_le s')
  rw [hcard] at hle ⊢
  exact u32_of_le hle

/-- The state after tenant `t` was installed in slot `i`. -/
def installed (s : Scheduler) (mem : Allocator) (system : GroupScheduler TenantPtr) (i : ℕ)
    (t : Tenant) : Scheduler :=
  { s with
    mem := mem
    systemScheduler := system
    tenants := Function.update s.tenants i (some t)
    numConfiguredTenants := u32 (s.numConfiguredTenants + 1)
    allocatedRateCapacity := u64 (s.allocatedRateCapacity + t.allocation.reserved) }

theorem SchedulerInv.installed (h : SchedulerInv s) {mem : Allocator}
    {system : GroupScheduler TenantPtr} {i : ℕ} {t : Tenant} (hfree : s.tenants i = none)
    (hnext : s.mem.next ≤ mem.next)
    (hsystem : SystemInv mem system (Function.update s.faces i (some t.face)))
    (hbounds : system.bounds = s.systemScheduler.bounds)
    (hrate : system.allocatedRateCapacity =
      u64 (s.systemScheduler.allocatedRateCapacity + t.allocation.reserved))
    (hinv : TenantInv mem i t) :
    SchedulerInv (installed s mem system i t) ∧ i < s.maxTenants := by
  have hwithin : i < s.maxTenants := by
    have hmax : system.maxEntries = s.maxTenants := congrArg Bounds.maxEntries (hbounds.trans h.bounds)
    rw [← hmax]
    exact hsystem.lt_maxEntries (by simp)
  refine ⟨⟨fun j u hu => ?_, ?_, hbounds.trans h.bounds, ?_, ?_, h.flight.weaken hnext,
    ⟨h.totals.workSize, h.totals.count, h.totals.fits⟩⟩, hwithin⟩
  · by_cases hj : j = i
    · subst hj
      simp only [Hwfq.installed, Function.update_self, Option.some.injEq] at hu
      exact hu ▸ hinv
    · simp only [Hwfq.installed, Function.update_of_ne hj] at hu
      exact (h.tenants j u hu).weaken hnext
  · have hfaces : (Hwfq.installed s mem system i t).faces =
        Function.update s.faces i (some t.face) := setTenant_faces s i t
    rw [hfaces]
    exact hsystem
  · simp only [Hwfq.installed]
    rw [hrate, h.rates]
  · have hcard : u32 (s.present.card + 1) = (Hwfq.installed s mem system i t).present.card :=
      present_insert_card hwithin hfree rfl rfl
    rw [← hcard, ← h.count]
    rfl

theorem SchedulerInv.install (h : SchedulerInv s) (addr : Addr) (a : Allocation)
    {flows : GroupScheduler FlowSessionContext} (hflows : ∀ i, FlowsInv s.mem i flows) :
    SchedulerInv (installTenant s addr a flows).2.2 ∧
      (((installTenant s addr a flows).1 ≠ .success ∧ (installTenant s addr a flows).2.1 = none ∧
          TokensOnly s (installTenant s addr a flows).2.2) ∨
        ∃ i, (installTenant s addr a flows).1 = .success ∧
          (installTenant s addr a flows).2.1 = some i ∧
          Admits s (installTenant s addr a flows).2.2 i (newTenant addr i a flows)) := by
  unfold installTenant
  have hgranted : s.mem.AlwaysOk → (allocEntryOf s.mem s.systemScheduler).2.1.AlwaysOk :=
    fun hs => entriesAlloc_granted hs s.systemScheduler.entries
  obtain ⟨hnext, hcase⟩ := h.system.alloc (le_refl s.mem.next)
  have hview : (allocEntryOf s.mem s.systemScheduler).2.2.queueView = s.systemScheduler.queueView :=
    rfl
  have hbounds : (allocEntryOf s.mem s.systemScheduler).2.2.bounds = s.systemScheduler.bounds :=
    rfl
  have hrate : (allocEntryOf s.mem s.systemScheduler).2.2.allocatedRateCapacity =
      s.systemScheduler.allocatedRateCapacity := rfl
  generalize allocEntryOf s.mem s.systemScheduler = r at hnext hcase hview hbounds hrate hgranted ⊢
  obtain ⟨ret, mem, system⟩ := r
  dsimp only at hnext hcase hview hbounds hrate hgranted
  have htok : ∀ system', TokensOnly s { s with mem := mem, systemScheduler := system' } :=
    fun _ => ⟨rfl, hnext, hgranted, rfl, rfl, rfl, rfl, rfl, rfl, rfl, rfl⟩
  rcases hcase with ⟨status, rfl, hsystem⟩ | ⟨id, live, rfl, hnew, hlive, hpool, hact⟩
  · exact ⟨h.withSystem hnext hsystem hbounds hrate, .inl ⟨by simp, rfl, htok system⟩⟩
  obtain ⟨hface, hadmit⟩ := h.system.enlist hnew hlive hpool hact hview a addr
  have hboundsConf := (configureEntry_bounds hpool.group.sums id a).trans hbounds
  have hfree : s.tenants id = none := by simpa [Scheduler.faces] using hface
  dsimp only
  rcases hadmit with ⟨hstatus, hrates, hsystem⟩ | ⟨hstatus, hsame, hsystem⟩
  · generalize groupSchedulerConfigureEntry system id a = conf at hstatus hrates hsystem hboundsConf ⊢
    obtain ⟨status, system'⟩ := conf
    dsimp only at hstatus hrates hsystem hboundsConf
    subst hstatus
    obtain ⟨hinv, hid⟩ := h.installed (t := newTenant addr id a flows) hfree hnext hsystem hboundsConf
      (hrate ▸ hrates) ⟨rfl, rfl, (hflows id).weaken hnext⟩
    exact ⟨hinv, .inr ⟨id, rfl, rfl,
      ⟨hfree, hid, rfl, hnext, hgranted, rfl, rfl, rfl, rfl, rfl, rfl, rfl, rfl⟩⟩⟩
  · rw [← hsame] at hsystem
    have hrateConf := (congrArg GroupScheduler.allocatedRateCapacity hsame).trans hrate
    generalize groupSchedulerConfigureEntry system id a = conf
      at hstatus hsystem hboundsConf hrateConf ⊢
    obtain ⟨status, system'⟩ := conf
    dsimp only at hstatus hsystem hboundsConf hrateConf
    cases status with
    | success => exact absurd rfl hstatus
    | _ => exact ⟨h.withSystem hnext hsystem hboundsConf hrateConf, .inl ⟨hstatus, rfl, htok _⟩⟩

theorem Admits.of_mem {mem : Allocator} {s' : Scheduler} {i : ℕ} {t : Tenant}
    (h : Admits { s with mem := mem } s' i t) (hnext : s.mem.next ≤ mem.next)
    (hgranted : s.mem.AlwaysOk → mem.AlwaysOk) : Admits s s' i t :=
  { h with
    next := hnext.trans h.next
    granted := fun hs => h.granted (hgranted hs) }

/-- All outcomes of `hwfq_add_tenant`. -/
theorem SchedulerInv.addTenant (h : SchedulerInv s) (allocation : Option Allocation) (out : Bool) :
    SchedulerInv (hwfqAddTenant s allocation out).2.2 ∧
      (((hwfqAddTenant s allocation out).1 ≠ .success ∧
          (hwfqAddTenant s allocation out).2.1 = none ∧
          TokensOnly s (hwfqAddTenant s allocation out).2.2) ∨
        ∃ a addr flows mem i, allocation = some a ∧ validateAllocation a = true ∧
          wouldExceedCapacity s a none = false ∧
          (hwfqAddTenant s allocation out).1 = .success ∧
          (hwfqAddTenant s allocation out).2.1 = some i ∧
          Admits s (hwfqAddTenant s allocation out).2.2 i (newTenant addr i a flows) ∧
          Blank flows.entries ∧
          flows.entries.maxEntries = u32 (s.config.maxFlowsPerTenant.toNat + 1) ∧
          Fresh s.numGroups s.binsPerGroup (tenantShare s.totalCapacity a)
            (u32 (s.config.maxFlowsPerTenant.toNat + 1)) (⟨mem, flows⟩ : GroupState _)) := by
  unfold hwfqAddTenant
  cases allocation with
  | none => exact ⟨h, .inl ⟨by simp, rfl, Changes.refl s⟩⟩
  | some a =>
    dsimp only
    split_ifs with hout hvalid hslot hexceed
    · exact ⟨h, .inl ⟨by simp, rfl, Changes.refl s⟩⟩
    · exact ⟨h, .inl ⟨by simp, rfl, Changes.refl s⟩⟩
    · exact ⟨h, .inl ⟨by simp, rfl, Changes.refl s⟩⟩
    · exact ⟨h, .inl ⟨by simp, rfl, Changes.refl s⟩⟩
    have hn₁ := hwfqAlloc_next_le s.mem 1
    have hok₁ := fun hs : s.mem.AlwaysOk => hs.alloc 1
    generalize hwfqAlloc s.mem 1 = r₁ at hn₁ hok₁ ⊢
    obtain ⟨p, mem₁⟩ := r₁
    dsimp only at hn₁ hok₁
    cases p with
    | none => exact ⟨h.withMem hn₁, .inl ⟨by simp, rfl, withMem_tokensOnly s hn₁ hok₁⟩⟩
    | some addr =>
      obtain ⟨hblank, ⟨live, hpool⟩, hn₂, hok₂⟩ := newFlowEntries_spec s mem₁
      have hmax := newFlowEntries_maxEntries s mem₁
      dsimp only
      generalize newFlowEntries s mem₁ = r₂ at hblank hpool hn₂ hok₂ hmax ⊢
      obtain ⟨mem₂, entries⟩ := r₂
      dsimp only at hblank hpool hn₂ hok₂ hmax ⊢
      obtain ⟨hn₃, hok₃⟩ := initWithEntries_mem FlowSessionContext mem₂ s.numGroups s.binsPerGroup
        (tenantShare s.totalCapacity a) (u32 (s.config.maxFlowsPerTenant.toNat + 1)) entries
      cases hinit : groupSchedulerInitWithEntries FlowSessionContext mem₂ s.numGroups s.binsPerGroup
          (tenantShare s.totalCapacity a) (u32 (s.config.maxFlowsPerTenant.toNat + 1)) entries with
      | mk made mem₃ =>
        rw [hinit] at hn₃ hok₃
        have hnext : s.mem.next ≤ mem₃.next := (hn₁.trans hn₂).trans hn₃
        have hgranted := fun hs : s.mem.AlwaysOk => hok₃ (hok₂ (hok₁ hs))
        cases made with
        | none => exact ⟨h.withMem hnext, .inl ⟨by simp, rfl, withMem_tokensOnly s hnext hgranted⟩⟩
        | some flows =>
          have hfresh : Fresh s.numGroups s.binsPerGroup (tenantShare s.totalCapacity a)
              (u32 (s.config.maxFlowsPerTenant.toNat + 1)) (⟨mem₃, flows⟩ : GroupState _) :=
            ⟨mem₂, entries, hblank.unconfigured, hinit⟩
          have hent : flows.entries = entries := (init_some hinit).2.2.2.1
          have hflows : ∀ i, FlowsInv mem₃ i flows := fun i =>
            FlowsInv.fresh hfresh (hent ▸ hpool) i
          obtain ⟨hinv, hcase⟩ := (h.withMem hnext).install addr a hflows
          refine ⟨hinv, ?_⟩
          rcases hcase with ⟨hbad, hid, htok⟩ | ⟨i, hok, hid, hadmits⟩
          · exact .inl ⟨hbad, hid, (withMem_tokensOnly s hnext hgranted).trans htok⟩
          · exact .inr ⟨a, addr, flows, mem₃, i, rfl, by simpa using hvalid, by simpa using hexceed,
              hok, hid, hadmits.of_mem hnext hgranted, hent ▸ hblank, hent ▸ hmax, hfresh⟩

/-- A new tenant is turned down before its slot is asked for, or its flow scheduler is made
over a new store and it is installed. -/
theorem addTenant_cases (s : Scheduler) (allocation : Option Allocation) (out : Bool) :
    (∃ status mem, status ≠ .success ∧
      hwfqAddTenant s allocation out = (status, none, { s with mem := mem })) ∨
    ∃ a addr mem₁ flows mem, allocation = some a ∧ hwfqAlloc s.mem 1 = (some addr, mem₁) ∧
      groupSchedulerInitWithEntries FlowSessionContext (newFlowEntries s mem₁).1 s.numGroups
        s.binsPerGroup (tenantShare s.totalCapacity a) (u32 (s.config.maxFlowsPerTenant.toNat + 1))
        (newFlowEntries s mem₁).2 = (some flows, mem) ∧
      s.mem.next ≤ mem.next ∧
      hwfqAddTenant s allocation out = installTenant { s with mem := mem } addr a flows := by
  unfold hwfqAddTenant
  cases allocation with
  | none => exact .inl ⟨_, s.mem, by decide, rfl⟩
  | some a =>
    dsimp only
    split_ifs
    · exact .inl ⟨_, s.mem, by decide, rfl⟩
    · exact .inl ⟨_, s.mem, by decide, rfl⟩
    · exact .inl ⟨_, s.mem, by decide, rfl⟩
    · exact .inl ⟨_, s.mem, by decide, rfl⟩
    have hnext₁ := hwfqAlloc_next_le s.mem 1
    cases halloc : hwfqAlloc s.mem 1 with
    | mk p mem₁ =>
      rw [halloc] at hnext₁
      cases p with
      | none => exact .inl ⟨_, mem₁, by decide, rfl⟩
      | some addr =>
        have hnext₂ := (newFlowEntries_spec s mem₁).2.2.1
        have hnext₃ := (initWithEntries_mem FlowSessionContext (newFlowEntries s mem₁).1 s.numGroups
          s.binsPerGroup (tenantShare s.totalCapacity a) (u32 (s.config.maxFlowsPerTenant.toNat + 1))
          (newFlowEntries s mem₁).2).1
        dsimp only
        cases hinit : groupSchedulerInitWithEntries FlowSessionContext (newFlowEntries s mem₁).1
            s.numGroups s.binsPerGroup (tenantShare s.totalCapacity a)
            (u32 (s.config.maxFlowsPerTenant.toNat + 1)) (newFlowEntries s mem₁).2 with
        | mk made mem₃ =>
          rw [hinit] at hnext₃
          cases made with
          | none => exact .inl ⟨_, mem₃, by decide, rfl⟩
          | some flows =>
            exact .inr ⟨a, addr, mem₁, flows, mem₃, rfl, rfl, hinit,
              (hnext₁.trans hnext₂).trans hnext₃, rfl⟩

/-- The call of configure whose result `hwfq_configure_tenant` ignores succeeds. -/
theorem SchedulerInv.configure_success (h : SchedulerInv s) {i : ℕ} {t : Tenant}
    (ht : s.tenants i = some t) {a : Allocation} (hvalid : validateAllocation a = true)
    (hfits : wouldExceedCapacity s a (some t.allocation) = false) :
    (groupSchedulerConfigureEntry s.systemScheduler i a).1 = .success := by
  have hface : s.faces i = some t.face := by simp [Scheduler.faces, ht]
  have halloc := h.system.allocations i
  rw [hface, Option.map_some] at halloc
  rcases configureEntry_cases h.system.group.sums i a with
    ⟨-, hbad⟩ | ⟨-, hnone⟩ | ⟨-, -, entry, hget, ⟨-, hover⟩ | ⟨heq, -⟩⟩
  · rcases hbad with hle | hinvalid
    · exact absurd (h.system.lt_maxEntries (by rw [hface]; rfl)) (Nat.not_lt.mpr hle)
    · simp [hvalid] at hinvalid
  · simp [activeEntry, hnone] at halloc
  · obtain ⟨⟨r, rfl⟩, hexceeds⟩ := hover
    have hcap : s.systemScheduler.totalCapacity = s.totalCapacity := congrArg Bounds.totalCapacity h.bounds
    rw [activeEntry_of_get_some hget] at halloc
    cases hconf : entry.configured with
    | false => simp [hconf] at halloc
    | true =>
      simp only [hconf, if_true, Option.map_some, Option.some.injEq, EntryConfig.core] at halloc
      rw [releasedFor, if_pos hconf, release_rates, halloc, ← h.rates, hcap] at hexceeds
      have hle : u64 (subU64 s.allocatedRateCapacity t.allocation.reserved + r.toNat) ≤
          s.totalCapacity := by simpa [wouldExceedCapacity] using hfits
      exact absurd hexceeds (Nat.not_lt.mpr hle)
  · rw [heq]

/-- The state after tenant `t` in slot `i` was given another allocation. -/
def reallocated (s : Scheduler) (i : ℕ) (t : Tenant) (a : Allocation) : Scheduler :=
  { s with
    allocatedRateCapacity := exchangeRate s.allocatedRateCapacity t.allocation a
    systemScheduler := (groupSchedulerConfigureEntry s.systemScheduler i a).2
  }.setTenant i { t with allocation := a }

/-- All outcomes of `hwfq_configure_tenant`. -/
theorem SchedulerInv.configureTenant (h : SchedulerInv s) (i : ℕ) (allocation : Option Allocation) :
    SchedulerInv (hwfqConfigureTenant s i allocation).2 ∧
      (((hwfqConfigureTenant s i allocation).1 ≠ .success ∧
          (hwfqConfigureTenant s i allocation).2 = s) ∨
        ∃ a t, allocation = some a ∧ s.tenants i = some t ∧ validateAllocation a = true ∧
          wouldExceedCapacity s a (some t.allocation) = false ∧
          hwfqConfigureTenant s i allocation = (.success, reallocated s i t a)) := by
  unfold hwfqConfigureTenant
  cases allocation with
  | none => exact ⟨h, .inl ⟨by simp, rfl⟩⟩
  | some a =>
    dsimp only
    split_ifs with hslot hvalid
    · exact ⟨h, .inl ⟨by simp, rfl⟩⟩
    · exact ⟨h, .inl ⟨by simp, rfl⟩⟩
    cases ht : s.configuredTenant i with
    | none => exact ⟨h, .inl ⟨by simp, rfl⟩⟩
    | some t =>
      replace ht := configuredTenant_some ht
      have hvalid' : validateAllocation a = true := by simpa using hvalid
      dsimp only
      split_ifs with hexceed
      · exact ⟨h, .inl ⟨by simp, rfl⟩⟩
      have hfits : wouldExceedCapacity s a (some t.allocation) = false := by simpa using hexceed
      refine ⟨?_, .inr ⟨a, t, rfl, ht, hvalid', hfits, rfl⟩⟩
      have hface : s.faces i = some t.face := by simp [Scheduler.faces, ht]
      have hok := h.configure_success ht hvalid' hfits
      have hinv := h.tenants i t ht
      rcases h.system.configure hface a with ⟨hbad, -⟩ | ⟨-, hrates, hsystem⟩
      · exact absurd hok hbad
      have hbounds := configureEntry_bounds h.system.group.sums i a
      generalize (groupSchedulerConfigureEntry s.systemScheduler i a).2 = system
        at hrates hsystem hbounds ⊢
      exact
        { tenants := fun j u hu => by
            by_cases hj : j = i
            · subst hj
              simp only [Scheduler.setTenant, Function.update_self, Option.some.injEq] at hu
              exact hu ▸ ⟨hinv.slot, hinv.configured, hinv.flows⟩
            · simp only [Scheduler.setTenant, Function.update_of_ne hj] at hu
              exact h.tenants j u hu
          system := by
            rw [setTenant_faces]
            exact hsystem
          bounds := hbounds.trans h.bounds
          rates := by
            have hsum : exchangeRate s.allocatedRateCapacity t.allocation a =
                system.allocatedRateCapacity := by
              rw [hrates, ← h.rates]
              rfl
            exact hsum
          count := h.count.trans (congrArg Finset.card (setTenant_present ht _).symm)
          flight := h.flight
          totals := ⟨h.totals.workSize, h.totals.count, h.totals.fits⟩ }

/-- The state after tenant `t` left slot `i`. -/
def tenantRemoved (s : Scheduler) (i : ℕ) (t : Tenant) : Scheduler :=
  { s with
    systemScheduler := freeEntryOf (groupSchedulerRemoveEntry s.systemScheduler i).2 i
    tenants := Function.update s.tenants i none
    numConfiguredTenants := subU32 s.numConfiguredTenants 1
    totalActiveFlows := activeFlowsAfter s.totalActiveFlows t.flowScheduler.entries.numConfigured
    allocatedRateCapacity := subU64 s.allocatedRateCapacity t.allocation.reserved }

theorem tenantRemoved_present (s : Scheduler) (i : ℕ) (t : Tenant) :
    (tenantRemoved s i t).present = s.present.erase i := by
  ext j
  have hmax : (tenantRemoved s i t).maxTenants = s.maxTenants := rfl
  have htenants : (tenantRemoved s i t).tenants = Function.update s.tenants i none := rfl
  simp only [Scheduler.present, hmax, htenants, Finset.mem_erase, Finset.mem_filter,
    Finset.mem_range]
  by_cases hj : j = i
  · subst hj
    simp
  · rw [Function.update_of_ne hj]
    simp [hj]

theorem SchedulerInv.tenantRemoved (h : SchedulerInv s) {i : ℕ} {t : Tenant}
    (ht : s.tenants i = some t) (hidle : t.hasBacklog = false) :
    SchedulerInv (tenantRemoved s i t) := by
  have hface : s.faces i = some t.face := by simp [Scheduler.faces, ht]
  have hpresent : i ∈ s.present := by
    simp [Scheduler.present, h.lt_maxTenants ht, ht]
  obtain ⟨hrates, hsystem⟩ := h.system.retire hface hidle
  refine ⟨fun j u hu => ?_, ?_, (removeEntry_bounds s.systemScheduler i).trans h.bounds, ?_, ?_,
    h.flight, ⟨h.totals.workSize, h.totals.count, h.totals.fits⟩⟩
  · by_cases hj : j = i
    · subst hj
      simp [Hwfq.tenantRemoved] at hu
    · simp only [Hwfq.tenantRemoved, Function.update_of_ne hj] at hu
      exact h.tenants j u hu
  · have hfaces : (Hwfq.tenantRemoved s i t).faces = Function.update s.faces i none := by
      funext j
      simp only [Scheduler.faces, Hwfq.tenantRemoved]
      by_cases hj : j = i
      · subst hj
        simp
      · rw [Function.update_of_ne hj, Function.update_of_ne hj, Scheduler.faces]
    rw [hfaces]
    exact hsystem
  · have hsum : subU64 s.allocatedRateCapacity t.allocation.reserved =
        (freeEntryOf (groupSchedulerRemoveEntry s.systemScheduler i).2 i).allocatedRateCapacity := by
      rw [hrates, h.rates]
      rfl
    exact hsum
  · have hle := (present_card_le s).trans (maxTenants_le s)
    have hpos := Finset.card_pos.mpr ⟨i, hpresent⟩
    have hcount : (Hwfq.tenantRemoved s i t).numConfiguredTenants =
        subU32 s.numConfiguredTenants 1 := rfl
    rw [tenantRemoved_present, Finset.card_erase_of_mem hpresent, hcount, h.count]
    unfold subU32
    exact if_pos hpos

/-- All outcomes of `hwfq_remove_tenant`. -/
theorem SchedulerInv.removeTenant (h : SchedulerInv s) (i : ℕ) :
    SchedulerInv (hwfqRemoveTenant s i).2.2 ∧
      (((hwfqRemoveTenant s i).1 ≠ .success ∧ (hwfqRemoveTenant s i).2 = ([], s)) ∨
        ∃ t, s.tenants i = some t ∧ t.hasBacklog = false ∧
          hwfqRemoveTenant s i = (.success, cleanupCalls t, Hwfq.tenantRemoved s i t)) := by
  unfold hwfqRemoveTenant
  split_ifs
  · exact ⟨h, .inl ⟨by simp, rfl⟩⟩
  cases ht : s.configuredTenant i with
  | none => exact ⟨h, .inl ⟨by simp, rfl⟩⟩
  | some t =>
    replace ht := configuredTenant_some ht
    dsimp only
    split_ifs with hbacklog
    · exact ⟨h, .inl ⟨by simp, rfl⟩⟩
    have hidle : t.hasBacklog = false := by simpa using hbacklog
    exact ⟨h.tenantRemoved ht hidle, .inr ⟨t, ht, hidle, rfl⟩⟩

/-! ## Flows -/

/-- A tenant changes its flow scheduler and the count of all flows changes with it. -/
structure FlowsChange (s s' : Scheduler) (i : ℕ) (t : Tenant)
    (flows : GroupScheduler FlowSessionContext) (totalActiveFlows : ℕ) : Prop where
  tenant : s.tenants i = some t
  tenants : s'.tenants = Function.update s.tenants i (some { t with flowScheduler := flows })
  next : s.mem.next ≤ s'.mem.next
  granted : s.mem.AlwaysOk → s'.mem.AlwaysOk
  config : s'.config = s.config
  numConfiguredTenants : s'.numConfiguredTenants = s.numConfiguredTenants
  totalActiveFlows : s'.totalActiveFlows = totalActiveFlows
  allocatedRateCapacity : s'.allocatedRateCapacity = s.allocatedRateCapacity
  systemScheduler : s'.systemScheduler = s.systemScheduler
  inFlightWorkSize : s'.inFlightWorkSize = s.inFlightWorkSize
  inFlightCount : s'.inFlightCount = s.inFlightCount
  inFlightHash : s'.inFlightHash = s.inFlightHash
  inFlight : s'.inFlight = s.inFlight

theorem SchedulerInv.flowsChange (h : SchedulerInv s) {mem : Allocator} {i : ℕ} {t : Tenant}
    (ht : s.tenants i = some t) {flows : GroupScheduler FlowSessionContext}
    (hnext : s.mem.next ≤ mem.next) (hflows : FlowsInv mem i flows) (n : ℕ) :
    SchedulerInv
      ({ s with mem := mem, totalActiveFlows := n }.setTenant i
        { t with flowScheduler := flows }) := by
  have htenant : TenantInv mem i { t with flowScheduler := flows } :=
    ⟨(h.tenants i t ht).slot, (h.tenants i t ht).configured, hflows⟩
  have hsame : ({ t with flowScheduler := flows } : Tenant).face = t.face := rfl
  have hset := (h.withMem hnext).withTenant ht hsame htenant
  exact ⟨hset.tenants, hset.system, hset.bounds, hset.rates, hset.count, hset.flight,
    ⟨hset.totals.workSize, hset.totals.count, hset.totals.fits⟩⟩

/-- All outcomes of `hwfq_add_flow`. -/
theorem SchedulerInv.addFlow (h : SchedulerInv s) (i : ℕ) (allocation : Option Allocation)
    (out : Bool) :
    SchedulerInv (hwfqAddFlow s i allocation out).2.2 ∧
      (((hwfqAddFlow s i allocation out).1 ≠ .success ∧
          (hwfqAddFlow s i allocation out).2 = (none, s)) ∨
        ∃ a t ret mem flows, allocation = some a ∧ s.tenants i = some t ∧
          validateAllocation a = true ∧
          (s.config.maxTotalFlows > 0 → s.totalActiveFlows < s.config.maxTotalFlows.toNat) ∧
          allocEntryOf s.mem t.flowScheduler = (ret, mem, flows) ∧
          ((∃ e, ret = .error e ∧ (hwfqAddFlow s i allocation out).1 = .noMemory ∧
              (hwfqAddFlow s i allocation out).2.1 = none ∧
              FlowsChange s (hwfqAddFlow s i allocation out).2.2 i t flows s.totalActiveFlows) ∨
            ∃ id flows', ret = .ok id ∧
              groupSchedulerConfigureEntry flows id a =
                ((hwfqAddFlow s i allocation out).1, flows') ∧
              (((hwfqAddFlow s i allocation out).1 = .success ∧
                  (hwfqAddFlow s i allocation out).2.1 = some id ∧
                  FlowsChange s (hwfqAddFlow s i allocation out).2.2 i t flows'
                    (u32 (s.totalActiveFlows + 1))) ∨
                ((hwfqAddFlow s i allocation out).1 ≠ .success ∧
                  (hwfqAddFlow s i allocation out).2.1 = none ∧
                  FlowsChange s (hwfqAddFlow s i allocation out).2.2 i t (freeEntryOf flows' id)
                    s.totalActiveFlows)))) := by
  unfold hwfqAddFlow
  cases allocation with
  | none => exact ⟨h, .inl ⟨by simp, rfl⟩⟩
  | some a =>
    dsimp only
    split_ifs with hout hslot hvalid hfull
    · exact ⟨h, .inl ⟨by simp, rfl⟩⟩
    · exact ⟨h, .inl ⟨by simp, rfl⟩⟩
    · exact ⟨h, .inl ⟨by simp, rfl⟩⟩
    · cases s.configuredTenant i <;> exact ⟨h, .inl ⟨by simp, rfl⟩⟩
    cases ht : s.configuredTenant i with
    | none => exact ⟨h, .inl ⟨by simp, rfl⟩⟩
    | some t =>
      replace ht := configuredTenant_some ht
      dsimp only
      have hinv := (h.tenants i t ht).flows
      have hgranted : s.mem.AlwaysOk → (allocEntryOf s.mem t.flowScheduler).2.1.AlwaysOk :=
        fun hs => entriesAlloc_granted hs t.flowScheduler.entries
      have hnext : s.mem.next ≤ (allocEntryOf s.mem t.flowScheduler).2.1.next := by
        obtain ⟨live, hpool⟩ := hinv.pooled
        exact (hpool.alloc le_rfl).1
      have herror := fun ret => @FlowsInv.alloc_error _ _ _ hinv ret
      have hadmit := fun id hret => @FlowsInv.enlist _ _ _ hinv id hret a
      have hvalid' : validateAllocation a = true := by simpa using hvalid
      have hroom : s.config.maxTotalFlows > 0 →
          s.totalActiveFlows < s.config.maxTotalFlows.toNat := fun hpos =>
        Nat.lt_of_not_le fun hle => hfull ⟨hpos, hle⟩
      cases halloc : allocEntryOf s.mem t.flowScheduler with
      | mk ret r =>
        obtain ⟨mem, flows⟩ := r
        rw [halloc] at hgranted hnext herror hadmit
        have hchange : ∀ flows' n, FlowsChange s
            ({ s with mem := mem, totalActiveFlows := n }.setTenant i
              { t with flowScheduler := flows' }) i t flows' n := fun _ _ =>
          ⟨ht, rfl, hnext, hgranted, rfl, rfl, rfl, rfl, rfl, rfl, rfl, rfl, rfl⟩
        cases ret with
        | error status =>
          exact ⟨h.flowsChange ht hnext (herror status rfl) s.totalActiveFlows,
            .inr ⟨a, t, _, _, _, rfl, ht, hvalid', hroom, halloc, .inl ⟨status, rfl, rfl, rfl,
              hchange flows s.totalActiveFlows⟩⟩⟩
        | ok id =>
          obtain ⟨hgood, hbad⟩ := hadmit id rfl
          dsimp only at hgood hbad ⊢
          cases hconf : groupSchedulerConfigureEntry flows id a with
          | mk status flows' =>
            rw [hconf] at hgood hbad
            dsimp only at hgood hbad
            have hrest := fun hne : status ≠ .success =>
              h.flowsChange ht hnext (hbad hne) s.totalActiveFlows
            cases status with
            | success =>
              exact ⟨h.flowsChange ht hnext hgood (u32 (s.totalActiveFlows + 1)),
                .inr ⟨a, t, _, _, _, rfl, ht, hvalid', hroom, halloc, .inr ⟨id, _, rfl, hconf,
                  .inl ⟨rfl, rfl, hchange flows' (u32 (s.totalActiveFlows + 1))⟩⟩⟩⟩
            | _ =>
              exact ⟨hrest (by simp), .inr ⟨a, t, _, _, _, rfl, ht, hvalid', hroom, halloc,
                .inr ⟨id, _, rfl, hconf, .inr ⟨by simp, rfl,
                  hchange (freeEntryOf flows' id) s.totalActiveFlows⟩⟩⟩⟩

/-- All outcomes of `hwfq_remove_flow`. -/
theorem SchedulerInv.removeFlow (h : SchedulerInv s) (i flowId : ℕ) :
    SchedulerInv (hwfqRemoveFlow s i flowId).2 ∧
      (((hwfqRemoveFlow s i flowId).1 ≠ .success ∧ (hwfqRemoveFlow s i flowId).2 = s) ∨
        ∃ t entry, s.tenants i = some t ∧ findFlowEntry t flowId = some entry ∧
          entry.stats.currentBacklog = 0 ∧ (hwfqRemoveFlow s i flowId).1 = .success ∧
          FlowsChange s (hwfqRemoveFlow s i flowId).2 i t
            (freeEntryOf (groupSchedulerRemoveEntry t.flowScheduler flowId).2 flowId)
            (s.totalActiveFlows - 1)) := by
  unfold hwfqRemoveFlow
  by_cases hslot : i ≥ s.maxTenants
  · rw [if_pos hslot]
    exact ⟨h, .inl ⟨by simp, rfl⟩⟩
  rw [if_neg hslot]
  cases ht : s.configuredTenant i with
  | none => exact ⟨h, .inl ⟨by simp, rfl⟩⟩
  | some t =>
    replace ht := configuredTenant_some ht
    dsimp only
    cases hfind : findFlowEntry t flowId with
    | none => exact ⟨h, .inl ⟨by simp, rfl⟩⟩
    | some entry =>
      dsimp only
      by_cases hbacklog : entry.stats.currentBacklog > 0
      · rw [if_pos hbacklog]
        exact ⟨h, .inl ⟨by simp, rfl⟩⟩
      have hcount : (if s.totalActiveFlows > 0 then s.totalActiveFlows - 1
          else s.totalActiveFlows) = s.totalActiveFlows - 1 := by
        split_ifs <;> omega
      have hflows := (h.tenants i t ht).flows.retire
        (activeEntry_of_findFlowEntry (show (findFlowEntry t flowId).isSome = true by
          rw [hfind]; rfl))
      rw [if_neg hbacklog, hcount]
      exact ⟨h.flowsChange ht le_rfl hflows (s.totalActiveFlows - 1),
        .inr ⟨t, entry, ht, hfind, by omega, rfl,
          ⟨ht, rfl, le_rfl, id, rfl, rfl, rfl, rfl, rfl, rfl, rfl, rfl, rfl⟩⟩⟩

/-- All outcomes of `hwfq_reconfigure_flow`. -/
theorem SchedulerInv.reconfigureFlow (h : SchedulerInv s) (i flowId : ℕ)
    (allocation : Option Allocation) :
    SchedulerInv (hwfqReconfigureFlow s i flowId allocation).2 ∧
      (((hwfqReconfigureFlow s i flowId allocation).1 ≠ .success ∧
          (hwfqReconfigureFlow s i flowId allocation).2 = s) ∨
        ∃ a t, allocation = some a ∧ s.tenants i = some t ∧ validateAllocation a = true ∧
          (findFlowEntry t flowId).isSome = true ∧
          (hwfqReconfigureFlow s i flowId allocation).1 =
            (groupSchedulerConfigureEntry t.flowScheduler flowId a).1 ∧
          FlowsChange s (hwfqReconfigureFlow s i flowId allocation).2 i t
            (groupSchedulerConfigureEntry t.flowScheduler flowId a).2 s.totalActiveFlows) := by
  unfold hwfqReconfigureFlow
  cases allocation with
  | none => exact ⟨h, .inl ⟨by simp, rfl⟩⟩
  | some a =>
    dsimp only
    split_ifs with hreserved hslot hvalid
    · exact ⟨h, .inl ⟨by simp, rfl⟩⟩
    · exact ⟨h, .inl ⟨by simp, rfl⟩⟩
    · exact ⟨h, .inl ⟨by simp, rfl⟩⟩
    cases ht : s.configuredTenant i with
    | none => exact ⟨h, .inl ⟨by simp, rfl⟩⟩
    | some t =>
      replace ht := configuredTenant_some ht
      dsimp only
      split_ifs with hnone
      · exact ⟨h, .inl ⟨by simp, rfl⟩⟩
      have hfind : (findFlowEntry t flowId).isSome = true := by
        simpa [Option.isSome_iff_ne_none] using hnone
      have hflows := (h.tenants i t ht).flows.configure (activeEntry_of_findFlowEntry hfind) a
      exact ⟨h.flowsChange ht le_rfl hflows s.totalActiveFlows,
        .inr ⟨a, t, rfl, ht, by simpa using hvalid, hfind, rfl,
          ⟨ht, rfl, le_rfl, id, rfl, rfl, rfl, rfl, rfl, rfl, rfl, rfl, rfl⟩⟩⟩

/-! ## Statistics -/

/-- Statistics of a tenant, or of some of its flows, went back to zero. -/
structure TenantReset (t t' : Tenant) : Prop where
  same : t' = { t with
    stats := t'.stats
    flowScheduler := { t.flowScheduler with entries := t'.flowScheduler.entries } }
  backlog : t'.stats.currentBacklog = t.stats.currentBacklog
  entries : ∃ which, Resets which t.flowScheduler.entries t'.flowScheduler.entries

theorem TenantReset.refl (t : Tenant) : TenantReset t t :=
  ⟨rfl, rfl, fun _ => false, ⟨rfl, rfl, rfl, rfl⟩, fun j => by simp⟩

theorem resetTenant_reset (t : Tenant) : TenantReset t (resetTenant t) :=
  ⟨rfl, rfl, _, resetAll_resets t.flowScheduler.entries⟩

theorem TenantReset.face {t t' : Tenant} (h : TenantReset t t') : t'.face = t.face := by
  rw [h.same]
  rfl

/-- `s'` differs from `s` by statistics that went back to zero. -/
structure StatsReset (s s' : Scheduler) : Prop where
  same : s' = { s with tenants := s'.tenants }
  tenants : ∀ i, (s.tenants i = none ∧ s'.tenants i = none) ∨
    ∃ t t', s.tenants i = some t ∧ s'.tenants i = some t' ∧ TenantReset t t'

theorem StatsReset.refl (s : Scheduler) : StatsReset s s where
  same := rfl
  tenants i := by
    cases ht : s.tenants i with
    | none => exact .inl ⟨rfl, rfl⟩
    | some t => exact .inr ⟨t, t, rfl, rfl, .refl t⟩

theorem StatsReset.setTenant {i : ℕ} {t t' : Tenant} (ht : s.tenants i = some t)
    (h : TenantReset t t') : StatsReset s (s.setTenant i t') where
  same := rfl
  tenants j := by
    by_cases hj : j = i
    · subst hj
      exact .inr ⟨t, t', ht, Function.update_self .., h⟩
    · have hsame : (s.setTenant i t').tenants j = s.tenants j := Function.update_of_ne hj ..
      rw [hsame]
      exact (StatsReset.refl s).tenants j

/-- `hwfq_reset_stats` with `HWFQ_ALL_TENANTS`. -/
theorem resetAllTenants_reset (s : Scheduler) (flowId i : ℕ) :
    ((s.tenants i = none ∧ (hwfqResetStats s hwfqAll flowId).tenants i = none) ∨
      ∃ t t', s.tenants i = some t ∧ (hwfqResetStats s hwfqAll flowId).tenants i = some t' ∧
        TenantReset t t') := by
  unfold hwfqResetStats
  rw [if_pos rfl]
  dsimp only
  cases s.tenants i with
  | none => exact .inl ⟨rfl, by simp⟩
  | some t =>
    refine .inr ⟨t, if i < s.maxTenants then if t.configured then resetTenant t else t else t, rfl,
      ?_, ?_⟩
    · split_ifs with hslot hconf
      · simp [hconf]
      · simp [hconf]
      · rfl
    · split_ifs
      · exact resetTenant_reset t
      · exact .refl t
      · exact .refl t

theorem resetStats_reset (s : Scheduler) (tenantId flowId : ℕ) :
    StatsReset s (hwfqResetStats s tenantId flowId) := by
  by_cases hall : tenantId = hwfqAll
  · subst hall
    refine ⟨?_, resetAllTenants_reset s flowId⟩
    unfold hwfqResetStats
    rw [if_pos rfl]
  unfold hwfqResetStats
  rw [if_neg hall]
  by_cases hslot : tenantId < s.maxTenants
  · rw [if_pos hslot]
    cases ht : s.configuredTenant tenantId with
    | none => exact .refl s
    | some t =>
      have ht' := configuredTenant_some ht
      dsimp only
      by_cases hflows : flowId = hwfqAll
      · rw [if_pos hflows]
        exact StatsReset.setTenant ht' (resetTenant_reset t)
      · rw [if_neg hflows]
        exact StatsReset.setTenant ht'
          ⟨rfl, rfl, _, write_resets t.flowScheduler.entries flowId⟩
  · rw [if_neg hslot]
    exact .refl s

theorem SchedulerInv.reset (h : SchedulerInv s) {s' : Scheduler} (hreset : StatsReset s s') :
    SchedulerInv s' := by
  have hfaces : s'.faces = s.faces := by
    funext i
    rcases hreset.tenants i with ⟨hnone, hnone'⟩ | ⟨t, t', ht, ht', hr⟩
    · simp [Scheduler.faces, hnone, hnone']
    · simp [Scheduler.faces, ht, ht', hr.face]
  have hsome : ∀ i, (s'.tenants i).isSome = (s.tenants i).isSome := fun i => by
    have hface := congrArg Option.isSome (congrFun hfaces i)
    simpa [Scheduler.faces] using hface
  have hsame := hreset.same
  have htenants : ∀ i t, s'.tenants i = some t → TenantInv s.mem i t := fun i t' ht' => by
    rcases hreset.tenants i with ⟨-, hnone⟩ | ⟨t, u, ht, hu, hr⟩
    · simp [hnone] at ht'
    · obtain rfl : u = t' := by simpa [hu] using ht'
      obtain ⟨which, hentries⟩ := hr.entries
      have hinv := h.tenants i t ht
      rw [hr.same]
      exact ⟨hinv.slot, hinv.configured, hinv.flows.reset hentries⟩
  have hpresent : s.present = (({ s with tenants := s'.tenants } : Scheduler)).present := by
    refine Finset.filter_congr fun i _ => ?_
    rw [hsome i]
  have hsystem := h.system
  rw [← hfaces] at hsystem
  generalize s'.tenants = tenants at hsame htenants hpresent
  subst hsame
  exact ⟨htenants, hsystem, h.bounds, h.rates, h.count.trans (congrArg Finset.card hpresent),
    h.flight, ⟨h.totals.workSize, h.totals.count, h.totals.fits⟩⟩

end Hwfq
