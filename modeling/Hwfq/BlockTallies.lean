import Mathlib.Algebra.BigOperators.Group.Multiset.Basic
import Mathlib.Algebra.Order.Group.Multiset
import Mathlib.Order.Interval.Finset.Nat
import Mathlib.Order.Interval.Multiset
import Mathlib.Tactic.Abel

/-!
# Tallies of memory blocks

An allocator that hands out ascending numbers has granted an interval of them between any two
of its positions. A tally of such a stretch says that what was live and what was granted is
what is live now and what was freed. Tallies add up, and by a tally nothing was freed twice
and nothing that is live was freed.
-/
namespace Hwfq.BlockTallies

/-- From position `n` of the allocator to `n'` the live blocks `m` have become `m'`, and the
blocks `f` were freed. -/
structure Tally (n n' : ℕ) (m m' f : Multiset ℕ) : Prop where
  le : n ≤ n'
  balance : m + Multiset.Ico n n' = m' + f

variable {n n' n'' : ℕ} {m m' m'' f f' : Multiset ℕ}

theorem Tally.refl (n : ℕ) (m : Multiset ℕ) : Tally n n m m 0 :=
  ⟨le_rfl, by rw [Multiset.Ico_self]⟩

theorem Tally.of_eq (h : m' = m) : Tally n n m m' 0 := h ▸ .refl n m

theorem Tally.trans (h : Tally n n' m m' f) (h' : Tally n' n'' m' m'' f') :
    Tally n n'' m m'' (f + f') := by
  refine ⟨h.le.trans h'.le, ?_⟩
  calc m + Multiset.Ico n n'' = m + Multiset.Ico n n' + Multiset.Ico n' n'' := by
        rw [add_assoc, Multiset.Ico_add_Ico_eq_Ico h.le h'.le]
    _ = m' + Multiset.Ico n' n'' + f := by rw [h.balance, add_right_comm]
    _ = m'' + (f + f') := by rw [h'.balance, add_assoc, add_comm f' f]

/-- Blocks that a stretch does not touch. -/
theorem Tally.frame (h : Tally n n' m m' f) (k : Multiset ℕ) :
    Tally n n' (k + m) (k + m') f :=
  ⟨h.le, by rw [add_assoc, h.balance, add_assoc]⟩

/-- The same stretch, its parts of the live blocks told apart in another way. -/
theorem Tally.exchange {l l' : Multiset ℕ} (h : Tally n n' m m' f) (hparts : l' + m = l + m') :
    Tally n n' l l' f := by
  refine ⟨h.le, add_right_cancel (b := m) ?_⟩
  calc l + Multiset.Ico n n' + m = l + (m + Multiset.Ico n n') := by abel
    _ = l + m' + f := by rw [h.balance, add_assoc]
    _ = l' + f + m := by rw [← hparts]; abel

theorem Tally.grant (n : ℕ) (m : Multiset ℕ) : Tally n (n + 1) m (n ::ₘ m) 0 := by
  refine ⟨Nat.le_succ n, ?_⟩
  have hone : Multiset.Ico n (n + 1) = {n} := by
    simp only [Multiset.Ico, Nat.Ico_succ_singleton, Finset.singleton_val]
  rw [hone, add_comm, Multiset.singleton_add, add_zero]

theorem Tally.free (n : ℕ) (m f : Multiset ℕ) : Tally n n (f + m) m f :=
  ⟨le_rfl, by rw [Multiset.Ico_self, add_zero, add_comm]⟩

/-- A new block takes the place of others. -/
theorem Tally.replace (n : ℕ) (m f : Multiset ℕ) : Tally n (n + 1) (f + m) (n ::ₘ m) f := by
  have hgrant := (Tally.grant n m).frame f
  have hfree := Tally.free (n + 1) (n ::ₘ m) f
  have hall := hgrant.trans hfree
  rwa [zero_add] at hall

/-! ## What a tally rules out -/

/-- Live blocks are distinct and have been granted. -/
structure Sound (n : ℕ) (m : Multiset ℕ) : Prop where
  nodup : m.Nodup
  granted : ∀ a ∈ m, a < n

theorem Sound.zero (n : ℕ) : Sound n 0 :=
  ⟨Multiset.nodup_zero, fun _ ha => absurd ha (Multiset.notMem_zero _)⟩

/-- Nothing is freed twice, and nothing that is live was freed. -/
theorem Tally.sound (h : Tally n n' m m' f) (hm : Sound n m) : Sound n' (m' + f) := by
  rw [← h.balance]
  constructor
  · rw [Multiset.nodup_add]
    refine ⟨hm.nodup, Multiset.nodup_Ico, ?_⟩
    rw [Multiset.disjoint_left]
    intro a ha hin
    exact absurd (hm.granted a ha) (Nat.not_lt.mpr (Multiset.mem_Ico.mp hin).1)
  · intro a ha
    rcases Multiset.mem_add.mp ha with hold | hnew
    · exact (hm.granted a hold).trans_le h.le
    · exact (Multiset.mem_Ico.mp hnew).2

end Hwfq.BlockTallies
