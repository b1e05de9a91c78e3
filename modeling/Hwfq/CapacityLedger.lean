import Hwfq.Admission

/-!
# The ledger of sold capacity

A table of allocations, the sum of their rates and a limit on it. Tenants book
against the capacity of the scheduler. As long as no addition wraps, the booked
sum is the true one and stays within the limit.
-/
namespace Hwfq
open GuardedRuns Bins

/-! ## Tables of allocations -/

def reservedAt (a : Option Allocation) : ℕ := a.elim 0 Allocation.reserved

/-- The true sum of the rates in the first `n` slots of a table. -/
def ratesOf (n : ℕ) (table : ℕ → Option Allocation) : ℕ :=
  ∑ i ∈ Finset.range n, reservedAt (table i)

/-- The booked total is the true sum and within the limit. -/
structure Books (n limit total : ℕ) (table : ℕ → Option Allocation) : Prop where
  exact : total = ratesOf n table
  within : total ≤ limit

variable {n limit total i : ℕ} {table : ℕ → Option Allocation}

theorem reservedAt_le_ratesOf (hi : i < n) : reservedAt (table i) ≤ ratesOf n table :=
  Finset.single_le_sum (f := fun j => reservedAt (table j)) (fun _ _ => Nat.zero_le _)
    (Finset.mem_range.mpr hi)

theorem ratesOf_update (hi : i < n) (v : Option Allocation) :
    ratesOf n (Function.update table i v) + reservedAt (table i) =
      ratesOf n table + reservedAt v :=
  sum_update reservedAt table v hi

theorem Books.sub (h : Books n limit total table) (hi : i < n) :
    subU64 total (reservedAt (table i)) = total - reservedAt (table i) := by
  have hle : reservedAt (table i) ≤ total := h.exact ▸ reservedAt_le_ratesOf hi
  unfold subU64
  rw [if_pos hle]

/-- An exchange that does not wrap and passes the check keeps the books. -/
theorem Books.exchange (h : Books n limit total table) (hi : i < n)
    {a : Allocation} (hwrap : subU64 total (reservedAt (table i)) + a.reserved ≤ uint64Max)
    (hfits : u64 (subU64 total (reservedAt (table i)) + a.reserved) ≤ limit ∨ a.reserved = 0) :
    Books n limit (u64 (subU64 total (reservedAt (table i)) + a.reserved))
      (Function.update table i (some a)) := by
  have hle : reservedAt (table i) ≤ ratesOf n table := reservedAt_le_ratesOf hi
  have hsum : ratesOf n (Function.update table i (some a)) + reservedAt (table i) =
      ratesOf n table + reservedAt (some a) := ratesOf_update hi (some a)
  have hexact := h.exact
  have hwithin := h.within
  rw [u64_of_le hwrap, h.sub hi] at hfits ⊢
  have hnew : reservedAt (some a) = a.reserved := rfl
  rw [hnew] at hsum
  exact ⟨by omega, by omega⟩

theorem Books.drop (h : Books n limit total table) (hi : i < n) :
    Books n limit (subU64 total (reservedAt (table i))) (Function.update table i none) := by
  have hle : reservedAt (table i) ≤ ratesOf n table := reservedAt_le_ratesOf hi
  have hsum : ratesOf n (Function.update table i none) + reservedAt (table i) =
      ratesOf n table + reservedAt none := ratesOf_update hi none
  have hexact := h.exact
  have hwithin := h.within
  rw [h.sub hi]
  have hnew : reservedAt none = 0 := rfl
  rw [hnew] at hsum
  exact ⟨by omega, by omega⟩

/-! ## The ledger of the tenants -/

variable {s s' : Scheduler} {c : Call} {r : Response}

def Scheduler.allocations (s : Scheduler) (i : ℕ) : Option Allocation :=
  (s.tenants i).map (·.allocation)

theorem allocations_eq_cores (s : Scheduler) :
    s.allocations = fun i => (s.cores i).map (·.allocation) := by
  funext i
  simp only [Scheduler.allocations, Scheduler.cores]
  cases s.tenants i <;> rfl

theorem allocations_of_tenants {i : ℕ} {v : Option Tenant}
    (h : s'.tenants = Function.update s.tenants i v) :
    s'.allocations = Function.update s.allocations i (v.map (·.allocation)) := by
  funext j
  rw [Scheduler.allocations, h]
  by_cases hj : j = i
  · rw [hj, Function.update_self, Function.update_self]
  · rw [Function.update_of_ne hj, Function.update_of_ne hj, Scheduler.allocations]

theorem allocations_of_cores {i : ℕ} {t u : Tenant}
    (h : s'.cores = Function.update s.cores i (some u)) (ht : s.tenants i = some t)
    (hu : u.allocation = t.allocation) :
    s'.allocations = s.allocations := by
  rw [allocations_eq_cores, allocations_eq_cores, h]
  funext j
  by_cases hj : j = i
  · subst hj
    rw [Function.update_self, cores_some ht, Option.map_some, Option.map_some, hu]
    rfl
  · rw [Function.update_of_ne hj]

theorem mapStatsAt_allocations (cores : ℕ → Option Tenant) (i f : ℕ) (g : Stats → Stats) :
    (fun j => (mapStatsAt cores i f g j).map (·.allocation)) =
      fun j => (cores j).map (·.allocation) := by
  funext j
  unfold mapStatsAt
  by_cases hj : j = i
  · subst hj
    rw [Function.update_self]
    cases cores j <;> rfl
  · rw [Function.update_of_ne hj]

/-- Only the three calls for tenants change allocations or what is booked for them. -/
theorem Effect.allocations (h : Effect s c r s') :
    (∃ a addr flows i, c = .addTenant (some a) true ∧ wouldExceedCapacity s a none = false ∧
        Admits s s' i (newTenant addr i a flows)) ∨
      (∃ i a t, c = .configureTenant i (some a) ∧ s.tenants i.toNat = some t ∧
        wouldExceedCapacity s a (some t.allocation) = false ∧ s' = Hwfq.reallocated s i.toNat t a) ∨
      (∃ i t, c = .removeTenant i ∧ s.tenants i.toNat = some t ∧
        s' = tenantRemoved s i.toNat t) ∨
      (s'.allocations = s.allocations ∧ s'.allocatedRateCapacity = s.allocatedRateCapacity) := by
  have htokens : ∀ {s₂ : Scheduler}, TokensOnly s s₂ → s₂.allocations = s.allocations :=
    fun htok => by rw [allocations_eq_cores, htok.cores, allocations_eq_cores]
  cases h with
  | idle _ _ tokens =>
    exact .inr (.inr (.inr ⟨htokens tokens, tokens.allocatedRateCapacity⟩))
  | added admits _ fits => exact .inl ⟨_, _, _, _, rfl, fits, admits⟩
  | reallocated tenant _ fits => exact .inr (.inl ⟨_, _, _, rfl, tenant, fits, rfl⟩)
  | removed tenant => exact .inr (.inr (.inl ⟨_, _, rfl, tenant, rfl⟩))
  | flows _ change =>
    refine .inr (.inr (.inr ⟨?_, change.allocatedRateCapacity⟩))
    rw [allocations_of_tenants change.tenants]
    exact Function.update_eq_self_iff.mpr (by simp [Scheduler.allocations, change.tenant])
  | accepted tenant _ _ _ _ _ changes =>
    exact .inr (.inr (.inr ⟨allocations_of_cores changes.cores tenant rfl,
      changes.allocatedRateCapacity⟩))
  | rejected tenant _ _ _ changes =>
    exact .inr (.inr (.inr ⟨allocations_of_cores changes.cores tenant rfl,
      changes.allocatedRateCapacity⟩))
  | missed tenant _ _ _ changes =>
    exact .inr (.inr (.inr ⟨allocations_of_cores changes.cores tenant rfl,
      changes.allocatedRateCapacity⟩))
  | putBack taken before =>
    have hall := before.changes_all taken
    exact .inr (.inr (.inr ⟨allocations_of_cores hall.cores taken.tenant rfl,
      hall.allocatedRateCapacity⟩))
  | delivered taken delivers =>
    refine .inr (.inr (.inr ⟨allocations_of_cores delivers.cores taken.tenant ?_,
      delivers.allocatedRateCapacity⟩))
    rcases delivers.tenant with heq | ⟨w, heq⟩ <;> rw [heq] <;> rfl
  | completed _ stats ends =>
    refine .inr (.inr (.inr ⟨?_, ends.allocatedRateCapacity⟩))
    rw [allocations_eq_cores, ends.cores, allocations_eq_cores]
    rcases stats with heq | heq
    · rw [heq, mapStatsAt_allocations]
    · rw [heq, mapStatsAt_allocations, mapStatsAt_allocations]
  | cancelled _ ends =>
    refine .inr (.inr (.inr ⟨?_, ends.allocatedRateCapacity⟩))
    rw [allocations_eq_cores, ends.cores, mapStatsAt_allocations, allocations_eq_cores]
  | timedOut only =>
    refine .inr (.inr (.inr ⟨?_, only.allocatedRateCapacity⟩))
    funext j
    rw [Scheduler.allocations, Scheduler.allocations, only.tenants]
  | reset reset =>
    refine .inr (.inr (.inr ⟨?_, by rw [reset.same]⟩))
    funext j
    rcases reset.tenants j with ⟨hnone, hnone'⟩ | ⟨t, t', ht, ht', hr⟩
    · simp [Scheduler.allocations, hnone, hnone']
    · simp only [Scheduler.allocations, ht, ht', Option.map_some]
      rw [hr.same]

/-- The allocator, the limit and the sum of the tenant table agree. -/
def TenantBooks (s : Scheduler) : Prop :=
  Books s.maxTenants s.totalCapacity s.allocatedRateCapacity s.allocations

/-- The addition that a call makes to the booked rates fits 64 bits. -/
def BooksWithoutWrap (s : Scheduler) : Call → Prop
  | .addTenant a _ => s.allocatedRateCapacity + reservedAt a ≤ uint64Max
  | .configureTenant i a =>
      subU64 s.allocatedRateCapacity (reservedAt (s.allocations i.toNat)) + reservedAt a ≤ uint64Max
  | _ => True

instance (s : Scheduler) : ∀ c, Decidable (BooksWithoutWrap s c)
  | .addTenant a _ => inferInstanceAs (Decidable (s.allocatedRateCapacity + reservedAt a ≤ uint64Max))
  | .configureTenant i a => inferInstanceAs (Decidable (subU64 s.allocatedRateCapacity
      (reservedAt (s.allocations i.toNat)) + reservedAt a ≤ uint64Max))
  | .removeTenant .. | .addFlow .. | .reconfigureFlow .. | .removeFlow .. | .enqueue ..
  | .dequeue .. | .complete .. | .cancel .. | .checkTimeouts .. | .resetStats .. => isTrue trivial

/-- What passes `would_exceed_capacity` fits, or reserves nothing. -/
theorem fits_of_check {a : Allocation} {old : Option Allocation}
    (h : wouldExceedCapacity s a old = false) :
    u64 (subU64 s.allocatedRateCapacity (reservedAt old) + a.reserved) ≤ s.totalCapacity ∨
      a.reserved = 0 := by
  cases a with
  | rate r =>
    refine .inl ?_
    cases old with
    | none =>
      have hzero : reservedAt none = 0 := rfl
      rw [hzero, subU64_zero]
      simpa [wouldExceedCapacity, Allocation.reserved] using h
    | some old => simpa [wouldExceedCapacity, Allocation.reserved, reservedAt] using h
  | weight w => exact .inr rfl
  | other => exact .inr rfl

theorem TenantBooks.step (h : TenantBooks s) (hinv : SchedulerInv s) {c : Call}
    (hc : BooksWithoutWrap s c) : TenantBooks (after s c) := by
  have hconf := hinv.after_config c
  have heffect := (hinv.effect c).allocations
  generalize after s c = s' at hconf heffect ⊢
  have hmax : s'.maxTenants = s.maxTenants := congrArg (·.maxTenants.toNat) hconf
  have hcap : s'.totalCapacity = s.totalCapacity := congrArg (·.totalCapacity.toNat) hconf
  unfold TenantBooks at h ⊢
  rw [hmax, hcap]
  rcases heffect with ⟨a, addr, flows, i, rfl, hfits, hadm⟩ | ⟨i, a, t, rfl, ht, hfits, rfl⟩ |
    ⟨i, t, rfl, ht, rfl⟩ | ⟨htable, htotal⟩
  · have hfree : s.allocations i = none := by simp [Scheduler.allocations, hadm.free]
    have htable : s'.allocations = Function.update s.allocations i (some a) :=
      allocations_of_tenants hadm.tenants
    have hold : subU64 s.allocatedRateCapacity (reservedAt (s.allocations i)) =
        s.allocatedRateCapacity := by
      rw [hfree]
      exact subU64_zero _
    have hbooks := h.exchange hadm.within (a := a) (by rw [hold]; exact hc) (by
      rw [hfree]
      exact fits_of_check hfits)
    rw [hold] at hbooks
    rw [htable, hadm.allocatedRateCapacity]
    exact hbooks
  · have hslot : s.allocations i.toNat = some t.allocation := by simp [Scheduler.allocations, ht]
    have htable : (reallocated s i.toNat t a).allocations =
        Function.update s.allocations i.toNat (some a) :=
      allocations_of_tenants (show (reallocated s i.toNat t a).tenants =
        Function.update s.tenants i.toNat (some { t with allocation := a }) from rfl)
    have hbooks := h.exchange (hinv.lt_maxTenants ht) (a := a) hc (by
      rw [hslot]
      exact fits_of_check hfits)
    rw [htable]
    rw [hslot] at hbooks
    exact hbooks
  · have hslot : s.allocations i.toNat = some t.allocation := by simp [Scheduler.allocations, ht]
    have htable : (tenantRemoved s i.toNat t).allocations =
        Function.update s.allocations i.toNat none :=
      allocations_of_tenants (show (tenantRemoved s i.toNat t).tenants =
        Function.update s.tenants i.toNat none from rfl)
    have hbooks := h.drop (hinv.lt_maxTenants ht)
    rw [htable]
    rw [hslot] at hbooks
    exact hbooks
  · rw [htable, htotal]
    exact h

theorem NewScheduler.tenantBooks (h : NewScheduler s) : TenantBooks s where
  exact := by simp [h.allocatedRateCapacity, ratesOf, Scheduler.allocations, h.tenants, reservedAt]
  within := h.allocatedRateCapacity.trans_le (Nat.zero_le _)

/-- No overbooking in every run whose bookings add without a wrap. -/
theorem rates_within_capacity (h : Made s) {calls : List Call}
    (hcalls : Along after BooksWithoutWrap s calls) :
    let s' := afterRun s calls
    ratesOf s'.maxTenants s'.allocations ≤ s'.config.totalCapacity.toNat ∧
      (hwfqGetCapacityInfo s').allocatedCapacity = ratesOf s'.maxTenants s'.allocations := by
  obtain ⟨mem, config, hinit⟩ := h
  have hnew := hwfqInit_success hinit
  have hrun : SchedulerInv (afterRun s calls) ∧ TenantBooks (afterRun s calls) :=
    run_invariant (I := fun s' => SchedulerInv s' ∧ TenantBooks s')
      (fun _ c hs hc => ⟨hs.1.after c, hs.2.step hs.1 hc⟩) ⟨hnew.inv, hnew.tenantBooks⟩ hcalls
  have hbooks := hrun.2
  exact ⟨hbooks.exact ▸ hbooks.within, hbooks.exact⟩

theorem rates_within_capacity_small :
    let s' := afterRun smallScheduler [.addTenant (some (.rate 40)) true,
      .addTenant (some (.rate 50)) true, .configureTenant 0 (some (.rate 50))]
    ratesOf s'.maxTenants s'.allocations ≤ s'.config.totalCapacity.toNat ∧
      (hwfqGetCapacityInfo s').allocatedCapacity = ratesOf s'.maxTenants s'.allocations :=
  rates_within_capacity smallScheduler_made (by decide +kernel)

/-- The rates 1 and 2^64 - 1 are both sold. -/
def wrappingRates : List Call :=
  [.addTenant (some (.rate 1)) true, .addTenant (some (.rate 18446744073709551615)) true]

theorem rates_exceed_capacity :
    Made smallScheduler ∧
      (afterRun smallScheduler wrappingRates).config.totalCapacity.toNat <
        ratesOf (afterRun smallScheduler wrappingRates).maxTenants
          (afterRun smallScheduler wrappingRates).allocations :=
  ⟨smallScheduler_made, by decide +kernel⟩

end Hwfq
