import Mathlib.Data.List.Range
import Mathlib.Data.List.Nodup
import Mathlib.Data.List.Sort

/-!
# Visiting the set bits of a machine word

The loop `while (w) { i = ctz(w); body(i); w &= ~(1 << i); }` visits the set
bits of a word in ascending order and nothing else. The word length is a
parameter. A loop over a word is then a fold over `setBits`, and a two-level
bitmap is searched by two nested folds.
-/
namespace Hwfq.SetBits

variable {n : ℕ}

def set (w : BitVec n) (i : ℕ) : BitVec n := w ||| (1#n <<< i)

def clear (w : BitVec n) (i : ℕ) : BitVec n := w &&& ~~~(1#n <<< i)

/-- Count of trailing zeros; the word length itself for the zero word. -/
def ctz (w : BitVec n) : ℕ := ((List.range n).find? (w.getLsbD ·)).getD n

/-- One `ctz` and one `clear` a round. -/
def walk : ℕ → BitVec n → List ℕ
  | 0, _ => []
  | fuel + 1, w => if w = 0#n then [] else ctz w :: walk fuel (clear w (ctz w))

/-- The positions the loop visits, in the order of the visits. A round clears
one bit, so `n` rounds always suffice. -/
def setBits (w : BitVec n) : List ℕ := walk n w

theorem getLsbD_one_shiftLeft {i j : ℕ} (hj : j < n) :
    ((1#n) <<< i).getLsbD j = decide (j = i) := by
  rw [BitVec.getLsbD_shiftLeft, BitVec.getLsbD_one]
  by_cases h : j = i
  · subst h
    have hn : 0 < n := by omega
    simp [hj, hn]
  · rcases Nat.lt_or_ge j i with hlt | hge
    · simp [hlt, h]
    · have hne : j - i ≠ 0 := by omega
      simp [h, hne]

@[simp] theorem getLsbD_set (w : BitVec n) {i j : ℕ} (hj : j < n) :
    (set w i).getLsbD j = (w.getLsbD j || decide (j = i)) := by
  rw [set, BitVec.getLsbD_or, getLsbD_one_shiftLeft hj]

@[simp] theorem getLsbD_clear (w : BitVec n) {i j : ℕ} (hj : j < n) :
    (clear w i).getLsbD j = (w.getLsbD j && !decide (j = i)) := by
  rw [clear, BitVec.getLsbD_and, BitVec.getLsbD_not, getLsbD_one_shiftLeft hj]
  simp [hj]

theorem eq_zero_iff (w : BitVec n) : w = 0#n ↔ ∀ i < n, w.getLsbD i = false := by
  constructor
  · rintro rfl i _
    simp
  · intro h
    apply BitVec.eq_of_getLsbD_eq
    intro i hi
    simp [h i hi]

theorem ne_zero_iff (w : BitVec n) : w ≠ 0#n ↔ ∃ i < n, w.getLsbD i = true := by
  rw [ne_eq, eq_zero_iff]
  push Not
  simp

/-- The ascending list of set bits, as a filter. -/
def ascending (w : BitVec n) : List ℕ := (List.range n).filter (w.getLsbD ·)

theorem ascending_eq_cons {w : BitVec n} (hw : w ≠ 0#n) :
    ascending w = ctz w :: ascending (clear w (ctz w)) := by
  obtain ⟨i, hi, hbit⟩ := (ne_zero_iff w).mp hw
  have hmem : i ∈ ascending w := by simp [ascending, hi, hbit]
  obtain ⟨a, rest, hcons⟩ : ∃ a rest, ascending w = a :: rest :=
    List.exists_cons_of_ne_nil (List.ne_nil_of_mem hmem)
  have hctz : ctz w = a := by
    have hhead : (ascending w).head? = some a := by rw [hcons]; rfl
    rw [ascending, List.head?_filter] at hhead
    simp [ctz, hhead]
  have hnodup : (ascending w).Nodup := List.nodup_range.filter _
  have hnot : a ∉ rest := by
    rw [hcons] at hnodup
    exact (List.nodup_cons.mp hnodup).1
  have hclear : ascending (clear w a) = (ascending w).filter (· ≠ a) := by
    simp only [ascending, List.filter_filter]
    refine List.filter_congr fun j hj => ?_
    rw [getLsbD_clear w (List.mem_range.mp hj)]
    simp [Bool.and_comm]
  have hrest : rest.filter (· ≠ a) = rest :=
    List.filter_eq_self.mpr fun b hb => by
      simpa using fun h : b = a => hnot (h ▸ hb)
  rw [hctz, hclear, hcons, List.filter_cons]
  simpa using hrest.symm

theorem walk_eq_ascending (fuel : ℕ) (w : BitVec n) (hfuel : (ascending w).length ≤ fuel) :
    walk fuel w = ascending w := by
  induction fuel generalizing w with
  | zero => exact (List.length_eq_zero_iff.mp (Nat.le_zero.mp hfuel)).symm
  | succ fuel ih =>
    by_cases hw : w = 0#n
    · subst hw
      simp [walk, ascending]
    · rw [ascending_eq_cons hw] at hfuel ⊢
      rw [walk, if_neg hw, ih _ (by simpa using hfuel)]

theorem setBits_eq_ascending (w : BitVec n) : setBits w = ascending w :=
  walk_eq_ascending n w (by
    simpa [ascending] using List.length_filter_le (w.getLsbD ·) (List.range n))

@[simp] theorem mem_setBits {w : BitVec n} {i : ℕ} :
    i ∈ setBits w ↔ i < n ∧ w.getLsbD i = true := by
  simp [setBits_eq_ascending, ascending]

example : setBits (0b10110#8) = [1, 2, 4] := by decide

end Hwfq.SetBits
