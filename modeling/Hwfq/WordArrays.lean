import Mathlib.Algebra.Group.Nat.Defs
import Mathlib.Order.Bounds.Basic
import Hwfq.SetBits

/-!
# Bitmaps with summary levels

A bitmap is an array of words; its bits are numbered through all the words. A second
bitmap summarises it when each of its bits says whether one word below is nonzero. A
summary is kept by one clear when a word becomes zero and by one set when it stops being
zero, and its least set bit leads to the least set bit below. The word length is a
parameter.
-/
namespace Hwfq.WordArrays
open SetBits

variable {n : ℕ} {up down down' : ℕ → BitVec n} {w : ℕ} {S : ℕ → Prop}

def bit (a : ℕ → BitVec n) (i : ℕ) : Bool := (a (i / n)).getLsbD (i % n)

def setBit (a : ℕ → BitVec n) (i : ℕ) : ℕ → BitVec n :=
  Function.update a (i / n) (set (a (i / n)) (i % n))

def clearBit (a : ℕ → BitVec n) (i : ℕ) : ℕ → BitVec n :=
  Function.update a (i / n) (clear (a (i / n)) (i % n))

/-- On the bits of `S`, `up` says which words of `down` are nonzero. -/
def Summarises (S : ℕ → Prop) (up down : ℕ → BitVec n) : Prop :=
  ∀ i, S i → (bit up i = true ↔ down i ≠ 0#n)

theorem mod_eq_of_div_eq {i j : ℕ} (hdiv : j / n = i / n) : j % n = i % n ↔ j = i := by
  constructor
  · intro hmod
    rw [← Nat.div_add_mod j n, ← Nat.div_add_mod i n, hdiv, hmod]
  · intro h
    rw [h]

theorem bit_setBit (hn : 0 < n) (a : ℕ → BitVec n) (i j : ℕ) :
    bit (setBit a i) j = (bit a j || decide (j = i)) := by
  unfold bit setBit
  by_cases hdiv : j / n = i / n
  · rw [hdiv, Function.update_self, getLsbD_set _ (Nat.mod_lt j hn)]
    simp only [mod_eq_of_div_eq hdiv]
  · have hne : j ≠ i := fun h => hdiv (h ▸ rfl)
    simp [Function.update_of_ne hdiv, hne]

theorem bit_clearBit (hn : 0 < n) (a : ℕ → BitVec n) (i j : ℕ) :
    bit (clearBit a i) j = (bit a j && !decide (j = i)) := by
  unfold bit clearBit
  by_cases hdiv : j / n = i / n
  · rw [hdiv, Function.update_self, getLsbD_clear _ (Nat.mod_lt j hn)]
    simp only [mod_eq_of_div_eq hdiv]
  · have hne : j ≠ i := fun h => hdiv (h ▸ rfl)
    simp [Function.update_of_ne hdiv, hne]

theorem setBit_of_ne (a : ℕ → BitVec n) {i j : ℕ} (hj : j ≠ i / n) : setBit a i j = a j :=
  Function.update_of_ne hj _ _

theorem clearBit_of_ne (a : ℕ → BitVec n) {i j : ℕ} (hj : j ≠ i / n) : clearBit a i j = a j :=
  Function.update_of_ne hj _ _

/-- Bit `k` of word `w`. -/
theorem bit_mul_add (a : ℕ → BitVec n) (w : ℕ) {k : ℕ} (hk : k < n) :
    bit a (w * n + k) = (a w).getLsbD k := by
  have hn : 0 < n := by omega
  unfold bit
  rw [Nat.mul_comm, Nat.mul_add_div hn, Nat.div_eq_of_lt hk, Nat.add_zero, Nat.mul_add_mod,
    Nat.mod_eq_of_lt hk]

theorem word_ne_zero_iff (hn : 0 < n) (a : ℕ → BitVec n) (w : ℕ) :
    a w ≠ 0#n ↔ ∃ i, i / n = w ∧ bit a i = true := by
  rw [ne_zero_iff]
  constructor
  · intro h
    obtain ⟨k, hk, hbit⟩ := h
    refine ⟨w * n + k, ?_, (bit_mul_add a w hk).trans hbit⟩
    rw [Nat.mul_comm, Nat.mul_add_div hn, Nat.div_eq_of_lt hk, Nat.add_zero]
  · intro h
    obtain ⟨i, rfl, hbit⟩ := h
    exact ⟨i % n, Nat.mod_lt i hn, hbit⟩

theorem word_ne_zero_of_bit (hn : 0 < n) {a : ℕ → BitVec n} {i : ℕ} (h : bit a i = true) :
    a (i / n) ≠ 0#n := (word_ne_zero_iff hn a _).mpr ⟨i, rfl, h⟩

/-! ## The least set bit -/

theorem isLeast_ctz {v : BitVec n} (hv : v ≠ 0#n) : IsLeast {i | v.getLsbD i = true} (ctz v) := by
  obtain ⟨i, hi, hbit⟩ := (ne_zero_iff v).mp hv
  cases hfind : (List.range n).find? (v.getLsbD ·) with
  | none =>
    have := List.find?_eq_none.mp hfind i (List.mem_range.mpr hi)
    exact absurd hbit this
  | some c =>
    have hctz : ctz v = c := by rw [ctz, hfind, Option.getD_some]
    obtain ⟨hc, -, hlt⟩ := List.find?_range_eq_some.mp hfind
    rw [hctz]
    constructor
    · exact hc
    · intro j hj
      by_contra hcj
      have := hlt j (Nat.lt_of_not_le hcj)
      simp [show v.getLsbD j = true from hj] at this

theorem ctz_lt {v : BitVec n} (hv : v ≠ 0#n) : ctz v < n :=
  BitVec.lt_of_getLsbD (isLeast_ctz hv).1

/-- The least set bit is in the least nonzero word. -/
theorem isLeast_bit (hn : 0 < n) {u : ℕ} (hu : IsLeast {w | down w ≠ 0#n} u) :
    IsLeast {j | bit down j = true} (u * n + ctz (down u)) := by
  have hword : down u ≠ 0#n := hu.1
  have hlt := ctz_lt hword
  constructor
  · exact (bit_mul_add down u hlt).trans (isLeast_ctz hword).1
  · intro j hj
    have hle : u ≤ j / n := hu.2 (word_ne_zero_of_bit hn hj)
    have hsplit := Nat.div_add_mod j n
    rcases Nat.eq_or_lt_of_le hle with heq | hgt
    · subst heq
      have hctz : ctz (down (j / n)) ≤ j % n := (isLeast_ctz hword).2 hj
      rw [Nat.mul_comm]
      omega
    · have hmul : (u + 1) * n ≤ j / n * n := Nat.mul_le_mul_right n hgt
      rw [Nat.add_mul, Nat.one_mul, Nat.mul_comm (j / n)] at hmul
      omega

theorem Summarises.isLeast_word (h : Summarises (fun _ => True) up down) {u : ℕ}
    (hu : IsLeast {i | bit up i = true} u) : IsLeast {w | down w ≠ 0#n} u := by
  have hset : {w | down w ≠ 0#n} = {i | bit up i = true} := by
    ext i
    exact (h i trivial).symm
  rwa [hset]

/-! ## Keeping a summary -/

section Keep
variable (h : Summarises S up down) (hother : ∀ j, j ≠ w → down' j = down j)
include h hother

/-- Word `w` has become zero. -/
theorem Summarises.empties (hn : 0 < n) (hzero : down' w = 0#n) :
    Summarises S (clearBit up w) down' := by
  intro i hi
  rw [bit_clearBit hn]
  by_cases hiw : i = w
  · subst hiw
    simp [hzero]
  · rw [hother i hiw, ← h i hi]
    simp [hiw]

/-- Word `w` was and is nonzero. -/
theorem Summarises.stays (hold : down w ≠ 0#n) (hnew : down' w ≠ 0#n) : Summarises S up down' := by
  intro i hi
  by_cases hiw : i = w
  · subst hiw
    rw [h i hi]
    exact iff_of_true hold hnew
  · rw [hother i hiw]
    exact h i hi

/-- Word `w` is nonzero now. -/
theorem Summarises.fills (hn : 0 < n) (hnew : down' w ≠ 0#n) :
    Summarises S (setBit up w) down' := by
  intro i hi
  rw [bit_setBit hn]
  by_cases hiw : i = w
  · subst hiw
    simp [hnew]
  · rw [hother i hiw, ← h i hi]
    simp [hiw]

end Keep

/-- A word whose bit `k` was clear has just been set there: it was zero exactly when it is
now the one bit. -/
theorem set_eq_single_iff {v : BitVec n} {k : ℕ} (hclear : v.getLsbD k = false) :
    SetBits.set v k = 1#n <<< k ↔ v = 0#n := by
  constructor
  · intro h
    apply (eq_zero_iff v).mpr
    intro i hi
    have hbit : (SetBits.set v k).getLsbD i = (1#n <<< k).getLsbD i := by rw [h]
    rw [getLsbD_set v hi, getLsbD_one_shiftLeft hi] at hbit
    by_cases hik : i = k
    · rw [hik, hclear]
    · simpa [hik] using hbit
  · intro h
    rw [h, SetBits.set, BitVec.zero_or]

/-! ## A bitmap whose first bits are set -/

/-- Exactly the first `items` bits are set. -/
def SetBelow (a : ℕ → BitVec n) (items : ℕ) : Prop := ∀ i, bit a i = true ↔ i < items

/-- The words with a bit below `items` are the first `⌈items / n⌉`. -/
theorem SetBelow.summarises (hn : 0 < n) {items : ℕ} (hdown : SetBelow down items)
    (hup : SetBelow up ((items + (n - 1)) / n)) : Summarises (fun _ => True) up down := by
  intro i _
  rw [hup i, word_ne_zero_iff hn, ← Nat.succ_le_iff, Nat.le_div_iff_mul_le hn]
  constructor
  · intro hi
    refine ⟨i * n, Nat.mul_div_cancel i hn, (hdown _).mpr ?_⟩
    rw [Nat.succ_mul] at hi
    omega
  · intro hex
    obtain ⟨j, rfl, hj⟩ := hex
    have hjlt := (hdown j).mp hj
    have hle := Nat.mul_div_le j n
    rw [Nat.succ_mul, Nat.mul_comm]
    omega

end Hwfq.WordArrays
