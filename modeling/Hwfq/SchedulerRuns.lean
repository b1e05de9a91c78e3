import Hwfq.CallEffects

/-!
# Runs of public calls

A scheduler made by `hwfq_init` keeps its invariant through every run of public
calls, whatever the arguments and whichever allocations fail.
-/
namespace Hwfq
open GuardedRuns

variable {s : Scheduler}

/-- The scheduler after a run of calls. -/
abbrev afterRun (s : Scheduler) (calls : List Call) : Scheduler := run after s calls

/-! ## A new scheduler -/

/-- A scheduler without tenants and without sessions in flight, around a new system
scheduler. -/
structure NewScheduler (s : Scheduler) : Prop where
  valid : s.config.valid = true
  tenants : s.tenants = fun _ => none
  numConfiguredTenants : s.numConfiguredTenants = 0
  totalActiveFlows : s.totalActiveFlows = 0
  allocatedRateCapacity : s.allocatedRateCapacity = 0
  inFlightWorkSize : s.inFlightWorkSize = 0
  inFlightCount : s.inFlightCount = 0
  inFlightHash : s.inFlightHash = fun _ => []
  inFlight : s.inFlight = []
  system : ∃ mem, mem.next ≤ s.mem.next ∧ Fresh s.numGroups s.binsPerGroup s.totalCapacity
    s.maxTenants (⟨mem, s.systemScheduler⟩ : GroupState TenantPtr)
  entries : s.systemScheduler.entries = hwfqChunkedEntriesInit s.maxTenants

theorem hwfqInit_success {mem : Allocator} {config : Config}
    (h : hwfqInit mem config = (.success, some s)) : NewScheduler s := by
  unfold hwfqInit at h
  by_cases hvalid : config.valid = true
  swap
  · simp [hvalid] at h
  simp only [hvalid, Bool.not_true, Bool.false_eq_true, if_false] at h
  generalize hwfqAlloc mem 1 = r₁ at h
  obtain ⟨_ | _, mem₁⟩ := r₁
  · simp at h
  dsimp only at h
  generalize hwfqAlloc mem₁ config.maxTenants.toNat = r₂ at h
  obtain ⟨_ | _, mem₂⟩ := r₂
  · simp at h
  dsimp only at h
  split at h
  · simp at h
  · rename_i system mem₃ hinit
    have hnext := hwfqAlloc_next_le mem₃ 1024
    generalize hwfqAlloc mem₃ 1024 = r₃ at h hnext
    obtain ⟨_ | _, mem₄⟩ := r₃
    · simp at h
    · simp only [Prod.mk.injEq, Option.some.injEq, true_and] at h
      have hempty : Unconfigured (hwfqChunkedEntriesInit config.maxTenants.toNat) :=
        fun id e he => by simp [hwfqChunkedGet, hwfqChunkedEntriesInit] at he
      have hent := (init_some hinit).2.2.2.1
      subst h
      exact ⟨hvalid, rfl, rfl, rfl, rfl, rfl, rfl, rfl, rfl, ⟨mem₃, hnext, mem₂, _, hempty, hinit⟩,
        hent⟩

theorem hwfqInit_status (mem : Allocator) (config : Config) :
    (hwfqInit mem config).2.isSome = true → (hwfqInit mem config).1 = .success := by
  unfold hwfqInit
  by_cases hvalid : (!config.valid) = true
  · simp [hvalid]
  rw [if_neg hvalid]
  generalize hwfqAlloc mem 1 = r₁
  obtain ⟨_ | _, mem₁⟩ := r₁
  · simp
  dsimp only
  generalize hwfqAlloc mem₁ config.maxTenants.toNat = r₂
  obtain ⟨_ | _, mem₂⟩ := r₂
  · simp
  dsimp only
  split
  · simp
  · split <;> simp

/-- An allocator that grants everything goes on doing so. -/
theorem hwfqInit_granted {mem : Allocator} {config : Config} (hmem : mem.AlwaysOk)
    (h : hwfqInit mem config = (.success, some s)) : s.mem.AlwaysOk := by
  unfold hwfqInit at h
  by_cases hvalid : (!config.valid) = true
  · simp [hvalid] at h
  rw [if_neg hvalid] at h
  have hok₁ := hmem.alloc 1
  generalize hwfqAlloc mem 1 = r₁ at h hok₁
  obtain ⟨_ | _, mem₁⟩ := r₁
  · simp at h
  dsimp only at h
  have hok₂ := hok₁.alloc config.maxTenants.toNat
  generalize hwfqAlloc mem₁ config.maxTenants.toNat = r₂ at h hok₂
  obtain ⟨_ | _, mem₂⟩ := r₂
  · simp at h
  dsimp only at h
  split at h
  · simp at h
  · rename_i system mem₃ hinit
    have hok₃ : mem₃.AlwaysOk := by
      have hsame : _ = mem₃ := congrArg Prod.snd hinit
      rw [← hsame]
      exact (initWithEntries_mem TenantPtr mem₂ ..).2 hok₂
    have hok₄ := hok₃.alloc 1024
    generalize hwfqAlloc mem₃ 1024 = r₃ at h hok₄
    obtain ⟨_ | _, mem₄⟩ := r₃
    · simp at h
    · simp only [Prod.mk.injEq, Option.some.injEq, true_and] at h
      subst h
      exact hok₄

theorem NewScheduler.inv (h : NewScheduler s) : SchedulerInv s := by
  obtain ⟨mem, hnext, hfresh⟩ := h.system
  have hnone : ∀ i, s.tenants i = none := congrFun h.tenants
  have hfaces : ∀ i, s.faces i = none := fun i => by simp [Scheduler.faces, hnone]
  have hpool : PoolInv s.systemScheduler.entries ∅ := h.entries ▸ PoolInv.init s.maxTenants
  have hqueued : s.systemScheduler.queued = 0 := hfresh.queued
  obtain ⟨mem₀, entries, -, hinit⟩ := hfresh.init
  obtain ⟨-, -, -, -, -, hrate, -, -, -, -, hgeo, -, hcapacity, hmax⟩ := init_some hinit
  exact
    { tenants := fun i t ht => by simp [hnone] at ht
      system :=
        { pooled := ⟨∅, (hfresh.pooled hpool).weaken hnext, fun i => by simp [hfaces]⟩
          allocations := fun i => by
            rw [hfaces]
            exact congrArg _ (hfresh.activeEntry i)
          tokens := fun q hq => by simp [hqueued] at hq
          distinct := by simp [hqueued]
          registered := fun i f hf => by simp [hfaces] at hf }
      bounds := by
        rw [GroupScheduler.bounds, hmax, hcapacity, hgeo]
        rfl
      rates := h.allocatedRateCapacity.trans hrate.symm
      count := by simp [h.numConfiguredTenants, Scheduler.present, hnone]
      flight := by
        rw [h.inFlight, h.inFlightHash]
        exact FlightInv.empty s.mem
      totals :=
        { workSize := by
            rw [h.inFlightWorkSize, h.inFlight]
            unfold u64
            rfl
          count := by
            rw [h.inFlightCount, h.inFlight]
            unfold u32
            rfl
          fits := fun e he => by simp [h.inFlight] at he } }

theorem Made.inv (h : Made s) : SchedulerInv s := by
  obtain ⟨mem, config, h⟩ := h
  exact (hwfqInit_success h).inv

/-- The scheduler that `hwfq_init` makes where it succeeds. -/
def madeWith (mem : Allocator) (config : Config) (h : (hwfqInit mem config).2.isSome = true) :
    Scheduler :=
  (hwfqInit mem config).2.get h

theorem madeWith_init {mem : Allocator} {config : Config}
    (h : (hwfqInit mem config).2.isSome = true) :
    hwfqInit mem config = (.success, some (madeWith mem config h)) := by
  apply Prod.ext
  · exact hwfqInit_status mem config h
  · exact (Option.some_get h).symm

theorem madeWith_made {mem : Allocator} {config : Config}
    (h : (hwfqInit mem config).2.isSome = true) : Made (madeWith mem config h) :=
  ⟨mem, config, madeWith_init h⟩

theorem madeWith_granted {mem : Allocator} {config : Config} (hmem : mem.AlwaysOk)
    (h : (hwfqInit mem config).2.isSome = true) : (madeWith mem config h).mem.AlwaysOk :=
  hwfqInit_granted hmem (madeWith_init h)

/-! ## The step and the run -/

theorem SchedulerInv.after (h : SchedulerInv s) (c : Call) : SchedulerInv (Hwfq.after s c) := by
  cases c with
  | addTenant a out => exact (h.addTenant a out).1
  | configureTenant i a => exact (h.configureTenant i.toNat a).1
  | removeTenant i => exact (h.removeTenant i.toNat).1
  | addFlow i a out => exact (h.addFlow i.toNat a out).1
  | reconfigureFlow i f a => exact (h.reconfigureFlow i.toNat f.toNat a).1
  | removeFlow i f => exact (h.removeFlow i.toNat f.toNat).1
  | enqueue i f work now =>
    rcases h.enqueue i.toNat f.toNat work now.toNat with ⟨hinv, -⟩ | ⟨s₁, t, c, hinv, hoff, heq⟩
    · exact hinv
    · obtain ⟨htenant, -, hfits⟩ := hoff.context
      have hoffer := (hinv.offer (hoff.tenants ▸ hoff.tenant) htenant hfits).1
      rw [← heq] at hoffer
      exact hoffer
  | dequeue out now => exact (h.dequeue out now.toNat).1
  | complete i f work => exact (h.complete work i.toNat f.toNat).1
  | cancel i f work => exact (h.cancel work i.toNat f.toNat).1
  | checkTimeouts now => exact (h.checkTimeouts now.toNat).1
  | resetStats i f => exact h.reset (resetStats_reset s i.toNat f.toNat)

theorem SchedulerInv.after_config (h : SchedulerInv s) (c : Call) :
    (Hwfq.after s c).config = s.config :=
  (h.effect c).config

theorem SchedulerInv.afterRun (h : SchedulerInv s) (calls : List Call) :
    SchedulerInv (Hwfq.afterRun s calls) :=
  run_invariant_all (fun _ c hs => hs.after c) h calls

theorem SchedulerInv.afterRun_config (h : SchedulerInv s) (calls : List Call) :
    (Hwfq.afterRun s calls).config = s.config :=
  (run_invariant_all (I := fun s' => SchedulerInv s' ∧ s'.config = s.config)
    (fun _ c hs => ⟨hs.1.after c, (hs.1.after_config c).trans hs.2⟩) ⟨h, rfl⟩ calls).2

theorem Made.afterRun (h : Made s) (calls : List Call) : SchedulerInv (Hwfq.afterRun s calls) :=
  h.inv.afterRun calls

/-! ## A small scheduler -/

/-- An allocator that grants every request. -/
def generousAllocator : Allocator := ⟨fun _ => true, 1⟩

theorem generousAllocator_alwaysOk : generousAllocator.AlwaysOk := fun _ => rfl

/-- Four tenants of four flows each, sixteen groups of one bin, a capacity of 100. -/
def smallConfig : Config :=
  { maxTenants := 4
    maxFlowsPerTenant := 4
    numGroups := 16
    binsPerGroup := 1
    totalCapacity := 100 }

theorem smallConfig_accepted : (hwfqInit generousAllocator smallConfig).2.isSome = true := by
  decide +kernel

def smallScheduler : Scheduler := madeWith generousAllocator smallConfig smallConfig_accepted

theorem smallScheduler_made : Made smallScheduler := madeWith_made smallConfig_accepted

theorem smallScheduler_granted : smallScheduler.mem.AlwaysOk :=
  madeWith_granted generousAllocator_alwaysOk smallConfig_accepted

end Hwfq
