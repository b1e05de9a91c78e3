import Hwfq.FlowScheduler
import Hwfq.InFlightTable
import Hwfq.SystemScheduler

/-!
# The invariant of the hierarchical scheduler

The system scheduler, the flow scheduler of every tenant and the in-flight table
keep their invariants side by side. The parts out of which the public calls are
made are taken one by one; each says what it leaves alone.
-/
namespace Hwfq

variable {s s' : Scheduler} {mem : Allocator} {i : ℕ} {t t' : Tenant}

def Scheduler.faces (s : Scheduler) (i : ℕ) : Option TenantFace := (s.tenants i).map Tenant.face

/-- What is true of the tenant in slot `i`. -/
structure TenantInv (mem : Allocator) (i : ℕ) (tenant : Tenant) : Prop where
  slot : tenant.tenantId = i
  configured : tenant.configured = true
  flows : FlowsInv mem i tenant.flowScheduler

/-- The slots of the tenant table that are taken. -/
def Scheduler.present (s : Scheduler) : Finset ℕ :=
  (Finset.range s.maxTenants).filter fun i => (s.tenants i).isSome = true

/-- The geometry that `hwfq_init` gives to every group scheduler. -/
def Scheduler.grid (s : Scheduler) : Geometry :=
  ⟨s.numGroups, s.binsPerGroup, u32 (s.numGroups * s.binsPerGroup),
    u32 (u32 (s.numGroups * s.binsPerGroup) + 31) / 32, 1⟩

structure SchedulerInv (s : Scheduler) : Prop where
  tenants : ∀ i t, s.tenants i = some t → TenantInv s.mem i t
  system : SystemInv s.mem s.systemScheduler s.faces
  bounds : s.systemScheduler.bounds = ⟨s.maxTenants, s.totalCapacity, s.grid⟩
  rates : s.allocatedRateCapacity = s.systemScheduler.allocatedRateCapacity
  count : s.numConfiguredTenants = s.present.card
  flight : FlightInv s.mem s.inFlight s.inFlightHash
  totals : FlightTotals s

theorem TenantInv.weaken {mem' : Allocator} (h : TenantInv mem i t) (hmem : mem.next ≤ mem'.next) :
    TenantInv mem' i t :=
  { h with flows := h.flows.weaken hmem }

theorem SchedulerInv.lt_maxTenants (h : SchedulerInv s) (ht : s.tenants i = some t) :
    i < s.maxTenants := by
  have hmax : s.systemScheduler.maxEntries = s.maxTenants := congrArg Bounds.maxEntries h.bounds
  rw [← hmax]
  exact h.system.lt_maxEntries (by simp [Scheduler.faces, ht])

theorem SchedulerInv.configuredTenant (h : SchedulerInv s) (i : ℕ) :
    s.configuredTenant i = s.tenants i := by
  unfold Scheduler.configuredTenant
  cases ht : s.tenants i with
  | none => rfl
  | some t => exact Option.filter_some_pos (h.tenants i t ht).configured

theorem configuredTenant_some (h : s.configuredTenant i = some t) : s.tenants i = some t :=
  (Option.filter_eq_some_iff.mp h).1

/-! ## What the parts leave alone -/

/-- A tenant without its token. -/
def Tenant.core (t : Tenant) : Tenant := { t with hasBacklog := false, tenantSession := none }

def Scheduler.cores (s : Scheduler) (i : ℕ) : Option Tenant := (s.tenants i).map Tenant.core

/-- `s'` differs from `s` at most in the allocator, the system scheduler, the tokens and
in what `cores` says of the tenants. -/
structure Changes (s s' : Scheduler) (cores : ℕ → Option Tenant) : Prop where
  cores : s'.cores = cores
  next : s.mem.next ≤ s'.mem.next
  granted : s.mem.AlwaysOk → s'.mem.AlwaysOk
  config : s'.config = s.config
  numConfiguredTenants : s'.numConfiguredTenants = s.numConfiguredTenants
  totalActiveFlows : s'.totalActiveFlows = s.totalActiveFlows
  allocatedRateCapacity : s'.allocatedRateCapacity = s.allocatedRateCapacity
  inFlightWorkSize : s'.inFlightWorkSize = s.inFlightWorkSize
  inFlightCount : s'.inFlightCount = s.inFlightCount
  inFlightHash : s'.inFlightHash = s.inFlightHash
  inFlight : s'.inFlight = s.inFlight

/-- `s'` differs from `s` at most in the allocator, the system scheduler and the tokens. -/
abbrev TokensOnly (s s' : Scheduler) : Prop := Changes s s' s.cores

theorem Changes.refl (s : Scheduler) : TokensOnly s s :=
  ⟨rfl, le_rfl, id, rfl, rfl, rfl, rfl, rfl, rfl, rfl, rfl⟩

theorem Changes.trans {s₁ s₂ s₃ : Scheduler} {cores₂ cores₃ : ℕ → Option Tenant}
    (h : Changes s₁ s₂ cores₂) (h' : Changes s₂ s₃ cores₃) : Changes s₁ s₃ cores₃ where
  cores := h'.cores
  next := h.next.trans h'.next
  granted hs := h'.granted (h.granted hs)
  config := h'.config.trans h.config
  numConfiguredTenants := h'.numConfiguredTenants.trans h.numConfiguredTenants
  totalActiveFlows := h'.totalActiveFlows.trans h.totalActiveFlows
  allocatedRateCapacity := h'.allocatedRateCapacity.trans h.allocatedRateCapacity
  inFlightWorkSize := h'.inFlightWorkSize.trans h.inFlightWorkSize
  inFlightCount := h'.inFlightCount.trans h.inFlightCount
  inFlightHash := h'.inFlightHash.trans h.inFlightHash
  inFlight := h'.inFlight.trans h.inFlight

/-- A change of tokens at the end of other changes. -/
theorem Changes.tokens {s₁ s₂ s₃ : Scheduler} {cores : ℕ → Option Tenant}
    (h : Changes s₁ s₂ cores) (h' : TokensOnly s₂ s₃) : Changes s₁ s₃ cores :=
  h.cores ▸ h.trans h'

/-- `s'` differs from `s` at most in the in-flight table and its totals. -/
structure FlightOnly (s s' : Scheduler) : Prop where
  mem : s'.mem = s.mem
  config : s'.config = s.config
  tenants : s'.tenants = s.tenants
  numConfiguredTenants : s'.numConfiguredTenants = s.numConfiguredTenants
  totalActiveFlows : s'.totalActiveFlows = s.totalActiveFlows
  allocatedRateCapacity : s'.allocatedRateCapacity = s.allocatedRateCapacity
  systemScheduler : s'.systemScheduler = s.systemScheduler

theorem FlightOnly.refl (s : Scheduler) : FlightOnly s s := ⟨rfl, rfl, rfl, rfl, rfl, rfl, rfl⟩

theorem FlightOnly.trans {s₁ s₂ s₃ : Scheduler} (h : FlightOnly s₁ s₂) (h' : FlightOnly s₂ s₃) :
    FlightOnly s₁ s₃ where
  mem := h'.mem.trans h.mem
  config := h'.config.trans h.config
  tenants := h'.tenants.trans h.tenants
  numConfiguredTenants := h'.numConfiguredTenants.trans h.numConfiguredTenants
  totalActiveFlows := h'.totalActiveFlows.trans h.totalActiveFlows
  allocatedRateCapacity := h'.allocatedRateCapacity.trans h.allocatedRateCapacity
  systemScheduler := h'.systemScheduler.trans h.systemScheduler

theorem withMem_tokensOnly (s : Scheduler) (hnext : s.mem.next ≤ mem.next)
    (hgranted : s.mem.AlwaysOk → mem.AlwaysOk) : TokensOnly s { s with mem := mem } :=
  ⟨rfl, hnext, hgranted, rfl, rfl, rfl, rfl, rfl, rfl, rfl, rfl⟩

theorem cores_of_tenants {i : ℕ} {v : Option Tenant}
    (h : s'.tenants = Function.update s.tenants i v) :
    s'.cores = Function.update s.cores i (v.map Tenant.core) := by
  funext j
  rw [Scheduler.cores, h]
  by_cases hj : j = i
  · rw [hj, Function.update_self, Function.update_self]
  · rw [Function.update_of_ne hj, Function.update_of_ne hj, Scheduler.cores]

theorem setTenant_cores (s : Scheduler) (i : ℕ) (t : Tenant) :
    (s.setTenant i t).cores = Function.update s.cores i (some t.core) :=
  cores_of_tenants (v := some t) rfl

theorem setTenant_changes (s : Scheduler) (i : ℕ) (t : Tenant) :
    Changes s (s.setTenant i t) (Function.update s.cores i (some t.core)) :=
  ⟨setTenant_cores s i t, le_rfl, id, rfl, rfl, rfl, rfl, rfl, rfl, rfl, rfl⟩

/-- Two changes of one tenant in a row. -/
theorem Changes.setTenant {s₁ : Scheduler} {c : Option Tenant}
    (h : Changes s s₁ (Function.update s.cores i c)) (t : Tenant) :
    Changes s (s₁.setTenant i t) (Function.update s.cores i (some t.core)) := by
  have hset := h.trans (setTenant_changes s₁ i t)
  rwa [h.cores, Function.update_idem] at hset

theorem setTenant_faces (s : Scheduler) (i : ℕ) (t : Tenant) :
    (s.setTenant i t).faces = Function.update s.faces i (some t.face) := by
  funext j
  simp only [Scheduler.faces, Scheduler.setTenant]
  by_cases hj : j = i
  · subst hj
    simp
  · rw [Function.update_of_ne hj, Function.update_of_ne hj, Scheduler.faces]

theorem cores_some (ht : s.tenants i = some t) : s.cores i = some t.core := by
  simp [Scheduler.cores, ht]

theorem cores_none (h : s.tenants i = none) : s.cores i = none := by
  rw [Scheduler.cores, h]
  rfl

/-- Tenants with the same cores are the same but for their tokens. -/
theorem tenants_of_cores {c : Tenant} (hc : s.cores i = some c) :
    ∃ t, s.tenants i = some t ∧ t.core = c :=
  Option.map_eq_some_iff.mp hc

/-- Writing a tenant back into its slot takes no other slot. -/
theorem setTenant_present (ht : s.tenants i = some t) (t' : Tenant) :
    (s.setTenant i t').present = s.present := by
  refine Finset.filter_congr fun j _ => ?_
  simp only [Scheduler.setTenant]
  by_cases hj : j = i
  · subst hj
    simp [ht]
  · rw [Function.update_of_ne hj]

/-! ## Changes of one part -/

theorem SchedulerInv.withMem (h : SchedulerInv s) (hmem : s.mem.next ≤ mem.next) :
    SchedulerInv { s with mem := mem } where
  tenants i t ht := (h.tenants i t ht).weaken hmem
  system := h.system.weaken hmem
  bounds := h.bounds
  rates := h.rates
  count := h.count
  flight := h.flight.weaken hmem
  totals := ⟨h.totals.workSize, h.totals.count, h.totals.fits⟩

/-- A tenant changes, but not what the system scheduler sees of it. -/
theorem SchedulerInv.withTenant (h : SchedulerInv s) (ht : s.tenants i = some t)
    (hface : t'.face = t.face) (hinv : TenantInv s.mem i t') : SchedulerInv (s.setTenant i t') where
  tenants j u hu := by
    by_cases hj : j = i
    · subst hj
      simp only [Scheduler.setTenant, Function.update_self, Option.some.injEq] at hu
      exact hu ▸ hinv
    · simp only [Scheduler.setTenant, Function.update_of_ne hj] at hu
      exact h.tenants j u hu
  system := by
    have hfaces : (s.setTenant i t').faces = s.faces := by
      rw [setTenant_faces, hface]
      exact Function.update_eq_self_iff.mpr (by simp [Scheduler.faces, ht])
    rw [hfaces]
    exact h.system
  bounds := h.bounds
  rates := h.rates
  count := h.count.trans (congrArg Finset.card (setTenant_present ht t').symm)
  flight := h.flight
  totals := ⟨h.totals.workSize, h.totals.count, h.totals.fits⟩

/-- The system scheduler and the token of one tenant change together. -/
theorem SchedulerInv.withToken (h : SchedulerInv s) (ht : s.tenants i = some t)
    {system : GroupScheduler TenantPtr} (hmem : s.mem.next ≤ mem.next)
    (hsystem : SystemInv mem system (Function.update s.faces i (some t'.face)))
    (hbounds : system.bounds = s.systemScheduler.bounds)
    (hrate : system.allocatedRateCapacity = s.systemScheduler.allocatedRateCapacity)
    (hinv : TenantInv mem i t') :
    SchedulerInv ({ s with mem := mem, systemScheduler := system }.setTenant i t') where
  tenants j u hu := by
    by_cases hj : j = i
    · subst hj
      simp only [Scheduler.setTenant, Function.update_self, Option.some.injEq] at hu
      exact hu ▸ hinv
    · simp only [Scheduler.setTenant, Function.update_of_ne hj] at hu
      exact (h.tenants j u hu).weaken hmem
  system := by
    rw [setTenant_faces]
    exact hsystem
  bounds := hbounds.trans h.bounds
  rates := h.rates.trans hrate.symm
  count := h.count.trans (congrArg Finset.card (setTenant_present ht t').symm)
  flight := h.flight.weaken hmem
  totals := ⟨h.totals.workSize, h.totals.count, h.totals.fits⟩

theorem SchedulerInv.withSystem (h : SchedulerInv s) {system : GroupScheduler TenantPtr}
    (hmem : s.mem.next ≤ mem.next) (hsystem : SystemInv mem system s.faces)
    (hbounds : system.bounds = s.systemScheduler.bounds)
    (hrate : system.allocatedRateCapacity = s.systemScheduler.allocatedRateCapacity) :
    SchedulerInv { s with mem := mem, systemScheduler := system } where
  tenants j u hu := (h.tenants j u hu).weaken hmem
  system := hsystem
  bounds := hbounds.trans h.bounds
  rates := h.rates.trans hrate.symm
  count := h.count
  flight := h.flight.weaken hmem
  totals := ⟨h.totals.workSize, h.totals.count, h.totals.fits⟩

/-! ## The in-flight table -/

theorem SchedulerInv.addInFlight (h : SchedulerInv s) {entry : InFlightEntry}
    (haddr : entry.addr = s.mem.next) (hfits : entry.workSize ≤ uint64Max)
    (hmem : mem.next = s.mem.next + 1) : SchedulerInv (addInFlight { s with mem := mem } entry) where
  tenants j u hu := (h.tenants j u hu).weaken (hmem ▸ Nat.le_succ _)
  system := h.system.weaken (hmem ▸ Nat.le_succ _)
  bounds := h.bounds
  rates := h.rates
  count := h.count
  flight := FlightInv.insert (s := s) h.flight haddr hmem
  totals := FlightTotals.add (s := { s with mem := mem })
    ⟨h.totals.workSize, h.totals.count, h.totals.fits⟩ hfits

theorem takeInFlight_flightOnly (s : Scheduler) (entry : InFlightEntry) :
    FlightOnly s (takeInFlight s entry) := ⟨rfl, rfl, rfl, rfl, rfl, rfl, rfl⟩

theorem SchedulerInv.takeInFlight (h : SchedulerInv s) {entry : InFlightEntry}
    (hentry : entry ∈ s.inFlight) : SchedulerInv (takeInFlight s entry) where
  tenants := h.tenants
  system := h.system
  bounds := h.bounds
  rates := h.rates
  count := h.count
  flight := h.flight.remove hentry
  totals := h.totals.take h.flight hentry

/-! ## Tokens -/

theorem enqueue_granted {α : Type*} {mem : Allocator} (hmem : mem.AlwaysOk)
    (gs : GroupScheduler α) (id w : ℕ) (ud : Option α) (cf : Bool) :
    (groupSchedulerEnqueue mem gs id w ud cf).mem.AlwaysOk := by
  unfold groupSchedulerEnqueue
  rw [hwfqAlloc_alwaysOk hmem (by decide)]
  split_ifs
  · exact hmem
  · exact hmem
  · cases groupSchedulerFindEntry gs id with
    | none => exact hmem
    | some entry =>
      dsimp only
      split_ifs
      · exact hmem
      · split <;> exact fun k => hmem (k + 1)

theorem enqueue_next_le {α : Type*} (mem : Allocator) (gs : GroupScheduler α) (id w : ℕ)
    (ud : Option α) (cf : Bool) : mem.next ≤ (groupSchedulerEnqueue mem gs id w ud cf).mem.next := by
  rcases enqueue_cases mem gs id w ud cf with ⟨-, -, -, hle, -⟩ | ⟨-, -, hle, -⟩
  · exact hle
  · exact hle ▸ Nat.le_succ _

/-- Registering a tenant changes tokens only. -/
theorem SchedulerInv.register (h : SchedulerInv s) (i : ℕ) :
    SchedulerInv (registerTenantBacklog s i).2 ∧ TokensOnly s (registerTenantBacklog s i).2 := by
  unfold registerTenantBacklog
  cases ht : s.tenants i with
  | none => exact ⟨h, Changes.refl s⟩
  | some t =>
    have hinv := h.tenants i t ht
    obtain rfl := hinv.slot
    dsimp only
    by_cases hbacklog : t.hasBacklog = true
    · rw [if_pos hbacklog]
      exact ⟨h, Changes.refl s⟩
    rw [if_neg hbacklog]
    have hface : s.faces t.tenantId = some t.face := by simp [Scheduler.faces, ht]
    have hflag : t.face.hasBacklog = false := by simpa [Tenant.face] using hbacklog
    obtain ⟨hbounds, hrate⟩ := enqueue_ledger s.mem s.systemScheduler t.tenantId
      tenantQuantumSize (some t.ptr) false
    have hgranted := fun hs : s.mem.AlwaysOk => enqueue_granted hs s.systemScheduler t.tenantId
      tenantQuantumSize (some t.ptr) false
    have hptr : t.ptr = ⟨t.tenantId, t.face.addr⟩ := rfl
    have hsystem := h.system.enqueue hface hflag
    rw [← hptr] at hsystem
    rcases enqueue_cases s.mem s.systemScheduler t.tenantId tenantQuantumSize (some t.ptr) false with
      ⟨hbad, heq, -, hnext, -⟩ | ⟨hok, hsession, hnext, -, -⟩
    · rw [if_neg hbad, heq]
      exact ⟨h.withSystem hnext (h.system.weaken hnext) rfl rfl,
        ⟨rfl, hnext, hgranted, rfl, rfl, rfl, rfl, rfl, rfl, rfl, rfl⟩⟩
    · rw [if_pos hok, hsession]
      have hle : s.mem.next ≤ (groupSchedulerEnqueue s.mem s.systemScheduler t.tenantId
          tenantQuantumSize (some t.ptr) false).mem.next := hnext ▸ Nat.le_succ _
      refine ⟨h.withToken ht hle (hsystem hok) hbounds hrate
        ⟨rfl, hinv.configured, hinv.flows.weaken hle⟩,
        ⟨?_, hle, hgranted, rfl, rfl, rfl, rfl, rfl, rfl, rfl, rfl⟩⟩
      rw [setTenant_cores]
      exact Function.update_eq_self_iff.mpr (cores_some ht).symm

end Hwfq
