import Hwfq.FailedCalls
import Hwfq.TenantTables

/-!
# Which slot a new tenant gets

The search over the tenant table only decides whether there is an empty slot. The id comes
from the entry store, which hands out the id freed last.
-/
namespace Hwfq
open GuardedRuns

/-- The slots that a new tenant can go to. -/
def emptySlots (s : Scheduler) : Set ℕ := {i | i < s.maxTenants ∧ s.tenants i = none}

/-- A call that adds a tenant gives it the least empty slot. -/
def FirstFit (s : Scheduler) (c : Call) : Prop :=
  ∀ a out i, c = .addTenant a out → (hwfqAddTenant s a out).2.1 = some i → IsLeast (emptySlots s) i

/-- No id on the free list is below the one at its head. -/
def HeadIsLeast (ce : ChunkedEntries) : Prop := ∀ i, FreeFrom ce ce.freeHead i → ce.freeHead ≤ i

/-- A call that adds a tenant finds the free list so, or empty. -/
def HeadFirst (s : Scheduler) (c : Call) : Prop :=
  ∀ a out, c = .addTenant a out → HeadIsLeast s.systemScheduler.entries

section Store
variable {ce : ChunkedEntries} {live : Finset ℕ} (h : PoolInv ce live)
include h

/-- The id handed out next is the least id that is not live exactly when the free list has its
least id at the head; an empty list has none above it. -/
theorem PoolInv.nextId_least_iff (hnew : nextId ce ∉ live) :
    IsLeast {i | i ∉ live} (nextId ce) ↔ HeadIsLeast ce := by
  constructor
  · intro hleast i hfree
    obtain ⟨hlt, hdead⟩ := (h.freeFrom_iff i).mp hfree
    have hle := hleast.2 hdead
    unfold nextId at hle
    split_ifs at hle with hempty
    · exact absurd hlt (Nat.not_lt.mpr hle)
    · exact hle
  · intro hhead
    refine ⟨hnew, ?_⟩
    intro i hdead
    unfold nextId at hnew ⊢
    split_ifs at hnew ⊢ with hempty
    · by_contra hlt
      apply hdead
      rw [h.live_eq_range hempty, Finset.mem_range]
      exact Nat.lt_of_not_le hlt
    · by_cases hlt : i < ce.numAllocated
      · exact hhead i ((h.freeFrom_iff i).mpr ⟨hlt, hdead⟩)
      · have hfirst := ((h.freeFrom_iff ce.freeHead).mp (.head hempty)).1
        omega

end Store

/-- Where the id of a new tenant comes from. -/
theorem SchedulerInv.addTenant_id {s : Scheduler} (h : SchedulerInv s) {a : Option Allocation}
    {out : Bool} {i : ℕ} (hid : (hwfqAddTenant s a out).2.1 = some i) :
    i = nextId s.systemScheduler.entries := by
  rcases addTenant_cases s a out with ⟨status, mem, -, heq⟩ |
    ⟨a, addr, mem₁, flows, mem, -, -, -, -, heq⟩
  · rw [heq] at hid
    cases hid
  · rw [heq] at hid
    exact h.installTenant_id mem addr a flows hid

/-- The slot of a new tenant is the least empty one exactly when its id is the least that is
not live. -/
theorem SchedulerInv.least_slot_iff {s : Scheduler} (h : SchedulerInv s) {a : Option Allocation}
    {out : Bool} {i : ℕ} (hid : (hwfqAddTenant s a out).2.1 = some i) :
    IsLeast (emptySlots s) i ↔ HeadIsLeast s.systemScheduler.entries := by
  obtain ⟨live, hpool, -⟩ := h.system.pooled
  have hnext := h.addTenant_id hid
  have hslots : ∀ j, s.tenants j = none ↔ j ∉ live := by
    intro j
    rw [← hpool.pool.liveId_iff, ← h.tablesAgree.live j]
    simp
  rcases (h.addTenant a out).2 with ⟨-, hnone, -⟩ | ⟨_, _, _, _, j, -, -, -, -, hj, hadm, -⟩
  · rw [hnone] at hid
    cases hid
  obtain rfl : j = i := Option.some.inj (hj.symm.trans hid)
  have hdead := (hslots j).mp hadm.free
  rw [hnext] at hdead
  rw [← hpool.pool.nextId_least_iff hdead, ← hnext]
  constructor
  · intro hleast
    refine ⟨(hslots j).mp hadm.free, ?_⟩
    intro k hk
    by_cases hlt : k < s.maxTenants
    · exact hleast.2 ⟨hlt, (hslots k).mpr hk⟩
    · have hwithin := hadm.within
      omega
  · intro hleast
    refine ⟨⟨hadm.within, hadm.free⟩, ?_⟩
    intro k hk
    exact hleast.2 ((hslots k).mp hk.2)

theorem SchedulerInv.firstFit {s : Scheduler} (h : SchedulerInv s) {c : Call}
    (hhead : HeadFirst s c) : FirstFit s c := by
  intro a out i hadd hid
  exact (h.least_slot_iff hid).mpr (hhead a out hadd)

/-- In every state of every run a new tenant gets the least empty slot exactly when the free
list of tenant ids is empty or has its least id at the head; hence a run in which every
addition finds it so assigns first-fit throughout. -/
theorem first_fit_iff (s₀ : Scheduler) (h : Made s₀) (calls : List Call) :
    (∀ a out i, (hwfqAddTenant (afterRun s₀ calls) a out).2.1 = some i →
        (IsLeast (emptySlots (afterRun s₀ calls)) i ↔
          HeadIsLeast (afterRun s₀ calls).systemScheduler.entries)) ∧
      (Along after HeadFirst s₀ calls → Along after FirstFit s₀ calls) := by
  constructor
  · intro a out i hid
    exact (h.afterRun calls).least_slot_iff hid
  · exact along_imp (fun _ c hinv => hinv.after c) (fun _ _ hinv => hinv.firstFit) (h.afterRun [])

theorem first_fit_iff_small :
    (∀ a out i, (hwfqAddTenant (afterRun smallScheduler
          [.addTenant (some (.rate 40)) true, .removeTenant 0]) a out).2.1 = some i →
        (IsLeast (emptySlots (afterRun smallScheduler
            [.addTenant (some (.rate 40)) true, .removeTenant 0])) i ↔
          HeadIsLeast (afterRun smallScheduler
            [.addTenant (some (.rate 40)) true, .removeTenant 0]).systemScheduler.entries)) ∧
      (Along after HeadFirst smallScheduler [.addTenant (some (.rate 40)) true, .removeTenant 0] →
        Along after FirstFit smallScheduler [.addTenant (some (.rate 40)) true, .removeTenant 0]) :=
  first_fit_iff smallScheduler smallScheduler_made _

/-- Two tenants come and go, the first one first. -/
def leaveInOrder : List Call :=
  [.addTenant (some (.weight 1)) true, .addTenant (some (.weight 1)) true, .removeTenant 0,
    .removeTenant 1]

/-- The next tenant gets slot 1 while slot 0 is empty. -/
theorem not_first_fit :
    let s := afterRun smallScheduler leaveInOrder
    (hwfqAddTenant s (some (.weight 1)) true).2.1 = some 1 ∧ s.tenants 0 = none ∧
      ¬ IsLeast (emptySlots s) 1 := by
  have hempty : (afterRun smallScheduler leaveInOrder).tenants 0 = none ∧
      0 < (afterRun smallScheduler leaveInOrder).maxTenants := by decide +kernel
  refine ⟨by decide +kernel, hempty.1, ?_⟩
  intro hleast
  have hle : 1 ≤ 0 := hleast.2 ⟨hempty.2, hempty.1⟩
  omega

end Hwfq
