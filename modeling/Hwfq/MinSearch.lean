import Mathlib.Data.List.Perm.Basic
import Mathlib.Data.List.Pairwise
import Mathlib.Order.Nat
import Mathlib.Tactic.SplitIfs

/-!
# Sorted lists and searches for a least element

A list kept in order by insertion, the first element of it that meets a test,
and a fold that keeps the best candidate seen so far. The order is a Boolean
`lt`; only `lt a b = false ∨ lt b c = false → ...` style facts about it are
used, so two elements with equal keys may come in either order.
-/
namespace Hwfq.MinSearch

variable {α : Type*}

/-- Walk past every element that is less than `x` and insert `x` there. -/
def insertSorted (lt : α → α → Bool) (x : α) : List α → List α
  | [] => [x]
  | c :: rest => if lt c x then c :: insertSorted lt x rest else x :: c :: rest

theorem insertSorted_perm (lt : α → α → Bool) (x : α) (l : List α) :
    (insertSorted lt x l).Perm (x :: l) := by
  induction l with
  | nil => exact .refl _
  | cons c rest ih =>
    rw [insertSorted]
    split
    · exact (ih.cons c).trans (.swap x c rest)
    · exact .refl _

theorem insertSorted_ne_nil (lt : α → α → Bool) (x : α) (l : List α) :
    insertSorted lt x l ≠ [] := fun h => by
  have := (insertSorted_perm lt x l).length_eq
  simp [h] at this

theorem mem_insertSorted {lt : α → α → Bool} {x y : α} {l : List α} :
    y ∈ insertSorted lt x l ↔ y = x ∨ y ∈ l := by
  rw [(insertSorted_perm lt x l).mem_iff, List.mem_cons]

/-- No element is less than an earlier one. -/
def Ordered (lt : α → α → Bool) (l : List α) : Prop := l.Pairwise fun a b => lt b a = false

theorem insertSorted_ordered {lt : α → α → Bool}
    (asymm : ∀ a b, lt a b = true → lt b a = false)
    (trans : ∀ a b c, lt b a = false → lt c b = false → lt c a = false)
    {x : α} {l : List α} (hl : Ordered lt l) : Ordered lt (insertSorted lt x l) := by
  induction l with
  | nil => exact List.pairwise_singleton _ _
  | cons c rest ih =>
    obtain ⟨hc, hrest⟩ := List.pairwise_cons.mp hl
    rw [insertSorted]
    split_ifs with hlt
    · refine List.pairwise_cons.mpr ⟨fun y hy => ?_, ih hrest⟩
      rcases mem_insertSorted.mp hy with rfl | hy
      · exact asymm c y hlt
      · exact hc y hy
    · have hxc : lt c x = false := by simpa using hlt
      refine List.pairwise_cons.mpr ⟨fun y hy => ?_, hl⟩
      rcases List.mem_cons.mp hy with rfl | hy
      · exact hxc
      · exact trans x c y hxc (hc y hy)

/-- The first element that meets a test comes no later than any other that does. -/
theorem find?_first {R : α → α → Prop} {p : α → Bool} {l : List α} {a : α}
    (hl : l.Pairwise R) (hfind : l.find? p = some a) :
    ∀ b ∈ l, p b = true → b = a ∨ R a b := by
  induction l with
  | nil => simp at hfind
  | cons c rest ih =>
    obtain ⟨hc, hrest⟩ := List.pairwise_cons.mp hl
    intro b hb hp
    by_cases hpc : p c = true
    · rw [List.find?_cons_of_pos hpc] at hfind
      cases hfind
      rcases List.mem_cons.mp hb with rfl | hb
      · exact .inl rfl
      · exact .inr (hc b hb)
    · rw [List.find?_cons_of_neg (by simpa using hpc)] at hfind
      rcases List.mem_cons.mp hb with rfl | hb
      · exact (hpc hp).elim
      · exact ih hrest hfind b hb hp

/-- Replace the best candidate when the new one has a strictly smaller key. -/
def keepBest (key : α → ℕ) (best : Option α × ℕ) (cand : Option α) : Option α × ℕ :=
  match cand with
  | some c => if key c < best.2 then (some c, key c) else best
  | none => best

/-- What a fold of `keepBest` from the empty candidate at key `bound` holds
after it has seen `cands`. -/
structure Best (key : α → ℕ) (bound : ℕ) (cands : List (Option α))
    (best : Option α × ℕ) : Prop where
  le_bound : best.2 ≤ bound
  none_bound : best.1 = none → best.2 = bound
  some_mem : ∀ a, best.1 = some a → some a ∈ cands ∧ key a = best.2 ∧ key a < bound
  least : ∀ c, some c ∈ cands → best.2 ≤ key c

theorem Best.step {key : α → ℕ} {bound : ℕ} {cands : List (Option α)}
    {best : Option α × ℕ} (h : Best key bound cands best) (cand : Option α) :
    Best key bound (cands ++ [cand]) (keepBest key best cand) := by
  cases cand with
  | none =>
    exact ⟨h.le_bound, h.none_bound,
      fun a ha => ⟨by simp [(h.some_mem a ha).1], (h.some_mem a ha).2⟩,
      fun c hc => h.least c (by simpa using hc)⟩
  | some d =>
    simp only [keepBest]
    split_ifs with hd
    · refine ⟨hd.le.trans h.le_bound, by simp, ?_, ?_⟩
      · rintro a ⟨⟩
        exact ⟨by simp, rfl, hd.trans_le h.le_bound⟩
      · intro c hc
        rcases List.mem_append.mp hc with hc | hc
        · exact hd.le.trans (h.least c hc)
        · simp only [List.mem_singleton, Option.some.injEq] at hc
          rw [hc]
    · refine ⟨h.le_bound, h.none_bound,
        fun a ha => ⟨by simp [(h.some_mem a ha).1], (h.some_mem a ha).2⟩, ?_⟩
      intro c hc
      rcases List.mem_append.mp hc with hc | hc
      · exact h.least c hc
      · simp only [List.mem_singleton, Option.some.injEq] at hc
        rw [hc]
        exact Nat.le_of_not_lt hd

theorem Best.foldl {key : α → ℕ} {bound : ℕ} {seen : List (Option α)}
    {best : Option α × ℕ} (h : Best key bound seen best) (cands : List (Option α)) :
    Best key bound (seen ++ cands) (cands.foldl (keepBest key) best) := by
  induction cands generalizing seen best with
  | nil => simpa using h
  | cons c cs ih => simpa using ih (h.step c)

/-- The search loop: least key below `bound` among the candidates. -/
theorem best_foldl (key : α → ℕ) (bound : ℕ) (cands : List (Option α)) :
    Best key bound cands (cands.foldl (keepBest key) (none, bound)) := by
  have h : Best key bound [] ((none, bound) : Option α × ℕ) :=
    ⟨le_rfl, fun _ => rfl, by simp, by simp⟩
  simpa using h.foldl cands

/-- A map that keeps the keys apart in the same order, and below the same bound,
carries the search with it, ties included. -/
theorem foldl_keepBest_map {key : α → ℕ} {bound : ℕ} {f : α → α} {cands : List (Option α)}
    (hbound : ∀ a, some a ∈ cands → key a < bound ∧ key (f a) < bound)
    (horder : ∀ a b, some a ∈ cands → some b ∈ cands → (key (f a) < key (f b) ↔ key a < key b)) :
    ((cands.map (Option.map f)).foldl (keepBest key) (none, bound)).1 =
      ((cands.foldl (keepBest key) (none, bound)).1).map f := by
  suffices hfold : ∀ (l : List (Option α)) (best best' : Option α × ℕ), l ⊆ cands →
      (best = (none, bound) ∧ best' = (none, bound) ∨
        ∃ a, some a ∈ cands ∧ best = (some a, key a) ∧ best' = (some (f a), key (f a))) →
      ((l.map (Option.map f)).foldl (keepBest key) best').1 =
        ((l.foldl (keepBest key) best).1).map f by
    exact hfold cands _ _ (List.Subset.refl _) (.inl ⟨rfl, rfl⟩)
  intro l
  induction l with
  | nil =>
    rintro best best' - (⟨rfl, rfl⟩ | ⟨a, -, rfl, rfl⟩)
    · rfl
    · rfl
  | cons c l ih =>
    intro best best' hl hrel
    have hrest : l ⊆ cands := fun x hx => hl (List.mem_cons_of_mem c hx)
    rw [List.map_cons, List.foldl_cons, List.foldl_cons]
    apply ih _ _ hrest
    cases c with
    | none => exact hrel
    | some b =>
      have hb : some b ∈ cands := hl List.mem_cons_self
      obtain ⟨hlt, hlt'⟩ := hbound b hb
      rcases hrel with ⟨rfl, rfl⟩ | ⟨a, ha, rfl, rfl⟩
      · right
        simp only [keepBest, Option.map_some, if_pos hlt, if_pos hlt']
        exact ⟨b, hb, rfl, rfl⟩
      · right
        simp only [keepBest, Option.map_some, horder b a hb ha]
        split_ifs
        · exact ⟨b, hb, rfl, rfl⟩
        · exact ⟨a, ha, rfl, rfl⟩

/-- The running minimum `if key x < m then key x else m`. -/
def keepMin (key : α → ℕ) (m : ℕ) (x : α) : ℕ := if key x < m then key x else m

theorem keepMin_eq_min (key : α → ℕ) (m : ℕ) (x : α) : keepMin key m x = min (key x) m := by
  rw [keepMin]
  split <;> omega

theorem foldl_keepMin_le (key : α → ℕ) (m : ℕ) (l : List α) :
    l.foldl (keepMin key) m ≤ m ∧ ∀ x ∈ l, l.foldl (keepMin key) m ≤ key x := by
  induction l generalizing m with
  | nil => simp
  | cons a l ih =>
    obtain ⟨hm, hall⟩ := ih (keepMin key m a)
    rw [keepMin_eq_min] at hm
    simp only [List.foldl_cons, List.mem_cons, forall_eq_or_imp]
    rw [keepMin_eq_min] at hall ⊢
    exact ⟨hm.trans (min_le_right _ _), hm.trans (min_le_left _ _), hall⟩

theorem foldl_keepMin_mem (key : α → ℕ) (m : ℕ) (l : List α) :
    l.foldl (keepMin key) m = m ∨ ∃ x ∈ l, l.foldl (keepMin key) m = key x := by
  induction l generalizing m with
  | nil => simp
  | cons a l ih =>
    rw [List.foldl_cons]
    rcases ih (keepMin key m a) with h | ⟨x, hx, h⟩
    · rw [h, keepMin]
      split
      · exact .inr ⟨a, by simp, rfl⟩
      · exact .inl rfl
    · exact .inr ⟨x, by simp [hx], h⟩

end Hwfq.MinSearch
