import Mathlib.Data.Nat.Notation
import Mathlib.Tactic.SplitIfs

/-!
# Public types and machine integers

The constants, return codes, allocations and configuration of `hwfq.h`, and the
allocator of `hwfq_memory.c`. Fields of C integer types are natural numbers; an
operation that can leave the range of its type is reduced here by `u32`, `u64`,
`subU32` or `subU64`. These are irreducible, so that no unification computes with
them. Floating-point statistics are not modelled.
-/
namespace Hwfq

@[irreducible] def uint32Max : ℕ := 4294967295
@[irreducible] def uint64Max : ℕ := 18446744073709551615

@[irreducible] def u32 (n : ℕ) : ℕ := n % 4294967296
@[irreducible] def u64 (n : ℕ) : ℕ := n % 18446744073709551616

/-- `a -= b` on `uint32_t`, for values of that type. -/
@[irreducible] def subU32 (a b : ℕ) : ℕ :=
  if b ≤ a then a - b else u32 (a + (4294967296 - b))

/-- `a -= b` on `uint64_t`, for values of that type. -/
@[irreducible] def subU64 (a b : ℕ) : ℕ :=
  if b ≤ a then a - b else u64 (a + (18446744073709551616 - b))

/-- The return codes the library can produce. -/
inductive Status where
  | success | invalidArg | noMemory | notFound | overbooked | noWork | tenantHasBacklog | internal
deriving DecidableEq, Repr

/-- `hwfq_allocation_t`: the tag and the union member it selects. `other` is a
tag outside the enumeration. -/
inductive Allocation where
  | weight (weight : UInt32)
  | rate (rate : UInt64)
  | other
deriving DecidableEq, Repr

/-- The rate of a rate-based allocation, nothing for the other kinds. -/
def Allocation.reserved : Allocation → ℕ
  | .rate r => r.toNat
  | _ => 0

/-- `user_data` is an address; 0 is NULL. -/
abbrev UserData := ℕ

abbrev Addr := ℕ

/-- The allocator as the library sees it: `ok k` says whether the `k`-th request
from now on is granted, and granted objects get addresses never used before. -/
structure Allocator where
  ok : ℕ → Bool
  next : Addr

/-- Every request from now on is granted. -/
def Allocator.AlwaysOk (mem : Allocator) : Prop := ∀ k, mem.ok k = true

/-- `hwfq_alloc` of `size` objects. -/
def hwfqAlloc (mem : Allocator) (size : ℕ) : Option Addr × Allocator :=
  if size = 0 then (none, mem)
  else if mem.ok 0 then (some mem.next, ⟨fun k => mem.ok (k + 1), mem.next + 1⟩)
  else (none, ⟨fun k => mem.ok (k + 1), mem.next⟩)

theorem hwfqAlloc_next_le (mem : Allocator) (size : ℕ) :
    mem.next ≤ (hwfqAlloc mem size).2.next := by
  unfold hwfqAlloc
  split_ifs <;> simp

theorem hwfqAlloc_some {mem mem' : Allocator} {size : ℕ} {p : Addr}
    (h : hwfqAlloc mem size = (some p, mem')) : p = mem.next ∧ mem'.next = mem.next + 1 := by
  unfold hwfqAlloc at h
  split_ifs at h with hsize hok
  · simp at h
  · simp only [Prod.mk.injEq, Option.some.injEq] at h
    exact ⟨h.1.symm, by rw [← h.2]⟩
  · simp at h

theorem hwfqAlloc_alwaysOk {mem : Allocator} (hmem : mem.AlwaysOk) {size : ℕ} (hsize : size ≠ 0) :
    hwfqAlloc mem size = (some mem.next, ⟨fun k => mem.ok (k + 1), mem.next + 1⟩) := by
  rw [hwfqAlloc, if_neg hsize, if_pos (hmem 0)]

theorem Allocator.AlwaysOk.alloc {mem : Allocator} (hmem : mem.AlwaysOk) (size : ℕ) :
    (hwfqAlloc mem size).2.AlwaysOk := by
  unfold hwfqAlloc
  split_ifs
  · exact hmem
  · exact fun k => hmem (k + 1)
  · exact fun k => hmem (k + 1)

/-- The fields of `hwfq_config_t`. The two callbacks are recorded by whether
they are set; what they do is up to the caller. -/
structure Config where
  maxTenants : UInt32
  maxFlowsPerTenant : UInt32
  maxTotalFlows : UInt32 := 0
  numGroups : UInt32 := 0
  binsPerGroup : UInt32 := 0
  totalCapacity : UInt64
  enableStatistics : Bool := false
  sessionAvailableFn : Bool := false
  sessionTimeoutFn : Bool := false
deriving DecidableEq, Repr

end Hwfq
