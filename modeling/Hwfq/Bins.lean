import Mathlib.Algebra.BigOperators.Group.Finset.Basic
import Mathlib.Algebra.Order.BigOperators.Group.Multiset
import Mathlib.Data.List.Nodup
import Mathlib.Data.Multiset.Basic
import Mathlib.Tactic.Abel

/-!
# A store of numbered bins as one multiset

A bucketed queue keeps a list for each of `n` bins. What it holds is the sum of
its lists. Replacing one list changes the sum by the difference of that list
only, so an insertion adds one element and a removal takes one away, whatever
the other bins hold. A list whose elements have distinct keys loses exactly the
element whose key is searched for.
-/
namespace Hwfq.Bins

variable {α β : Type*}

/-- Everything the bins below `n` hold, with multiplicity. -/
def contents (n : ℕ) (bins : ℕ → List α) : Multiset α :=
  ∑ b ∈ Finset.range n, (bins b : Multiset α)

theorem mem_contents {n : ℕ} {bins : ℕ → List α} {x : α} :
    x ∈ contents n bins ↔ ∃ b < n, x ∈ bins b := by
  simp [contents, Multiset.mem_sum]

theorem contents_congr {n : ℕ} {f g : ℕ → List α} (h : ∀ b < n, (f b).Perm (g b)) :
    contents n f = contents n g :=
  Finset.sum_congr rfl fun b hb => Multiset.coe_eq_coe.mpr (h b (Finset.mem_range.mp hb))

/-- Replacing the value of one slot trades its share of a sum for the new one. -/
theorem sum_update {γ M : Type*} [AddCommMonoid M] (f : γ → M) (g : ℕ → γ) (v : γ) {n b : ℕ}
    (hb : b < n) :
    (∑ c ∈ Finset.range n, f (Function.update g b v c)) + f (g b) =
      (∑ c ∈ Finset.range n, f (g c)) + f v := by
  have hmem : b ∈ Finset.range n := Finset.mem_range.mpr hb
  have hrest : ∑ c ∈ (Finset.range n).erase b, f (Function.update g b v c) =
      ∑ c ∈ (Finset.range n).erase b, f (g c) :=
    Finset.sum_congr rfl fun c hc => by
      rw [Function.update_of_ne (Finset.ne_of_mem_erase hc)]
  rw [← Finset.add_sum_erase _ _ hmem, ← Finset.add_sum_erase _ (fun c => f (g c)) hmem,
    hrest, Function.update_self]
  abel

theorem contents_update {n b : ℕ} (bins : ℕ → List α) (l : List α) (hb : b < n) :
    contents n (Function.update bins b l) + (bins b : Multiset α) =
      contents n bins + (l : Multiset α) :=
  sum_update (fun xs : List α => (xs : Multiset α)) bins l hb

theorem contents_insert {n b : ℕ} {bins : ℕ → List α} {l : List α} {x : α} (hb : b < n)
    (hl : l.Perm (x :: bins b)) :
    contents n (Function.update bins b l) = x ::ₘ contents n bins := by
  have h := contents_update bins l hb
  rw [Multiset.coe_eq_coe.mpr hl, ← Multiset.cons_coe, Multiset.add_cons] at h
  exact add_right_cancel (b := (bins b : Multiset α)) (by rw [h, Multiset.cons_add])

theorem contents_remove {n b : ℕ} {bins : ℕ → List α} {l : List α} {x : α} (hb : b < n)
    (hl : (bins b).Perm (x :: l)) :
    contents n bins = x ::ₘ contents n (Function.update bins b l) := by
  have h := contents_update bins l hb
  rw [Multiset.coe_eq_coe.mpr hl, ← Multiset.cons_coe, Multiset.add_cons] at h
  exact (add_right_cancel (b := (l : Multiset α)) (by rw [← h, Multiset.cons_add])).symm

theorem contents_map (n : ℕ) (bins : ℕ → List α) (f : α → β) :
    contents n (fun b => (bins b).map f) = (contents n bins).map f := by
  rw [contents, contents, ← Multiset.coe_mapAddMonoidHom, map_sum]
  rfl

theorem contents_eq_zero {n : ℕ} {bins : ℕ → List α} (h : ∀ b < n, bins b = []) :
    contents n bins = 0 :=
  Finset.sum_eq_zero fun b hb => by simp [h b (Finset.mem_range.mp hb)]

/-- A filter goes through a sum over slots. -/
theorem filter_sum (p : α → Prop) [DecidablePred p] (f : ℕ → Multiset α) (n : ℕ) :
    (∑ b ∈ Finset.range n, f b).filter p = ∑ b ∈ Finset.range n, (f b).filter p := by
  induction n with
  | zero => rfl
  | succ n ih => rw [Finset.sum_range_succ, Multiset.filter_add, ih, Finset.sum_range_succ]

/-! ## Unlinking by key -/

section Keyed
variable {κ : Type*} [DecidableEq κ] {f : α → κ} {l : List α} {x : α}

/-- Unlinking leaves the order of the rest. -/
theorem eraseP_key_split (hl : (l.map f).Nodup) (hx : x ∈ l) :
    ∃ l₁ l₂, l = l₁ ++ x :: l₂ ∧ (l.eraseP fun y => f y = f x) = l₁ ++ l₂ := by
  obtain ⟨y, l₁, l₂, -, hy, hsplit, herase⟩ :=
    List.exists_of_eraseP (p := fun y => decide (f y = f x)) hx (by simp)
  have hyx : y = x := List.inj_on_of_nodup_map hl (by simp [hsplit]) hx (by simpa using hy)
  subst hyx
  exact ⟨l₁, l₂, hsplit, herase⟩

theorem eraseP_key_perm (hl : (l.map f).Nodup) (hx : x ∈ l) :
    l.Perm (x :: l.eraseP fun y => f y = f x) := by
  obtain ⟨l₁, l₂, hsplit, herase⟩ := eraseP_key_split hl hx
  rw [herase, hsplit]
  exact List.perm_middle

theorem mem_eraseP_key (hl : (l.map f).Nodup) (hx : x ∈ l) {y : α} :
    y ∈ l.eraseP (fun y => f y = f x) ↔ y ∈ l ∧ y ≠ x := by
  have hperm := eraseP_key_perm hl hx
  have hnodup : (x :: l.eraseP fun y => f y = f x).Nodup := hperm.nodup_iff.mp hl.of_map
  obtain ⟨hnot, -⟩ := List.nodup_cons.mp hnodup
  rw [hperm.mem_iff, List.mem_cons]
  constructor
  · intro hy
    exact ⟨.inr hy, fun heq => hnot (heq ▸ hy)⟩
  · rintro ⟨rfl | hy, hne⟩
    · exact absurd rfl hne
    · exact hy

end Keyed

end Hwfq.Bins
