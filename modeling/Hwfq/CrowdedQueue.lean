import Mathlib.Data.Multiset.Filter
import Mathlib.Data.Multiset.MapFold
import Hwfq.IdealQueue

/-!
# An ideal queue with one packet a flow

When a flow puts its next packet in only after the last one was taken, its packets never run
far ahead of the clock. With at most `many` packets waiting, none of them costing more than
`most`, the clock passes the finish of a waiting packet by no more than all of them cost,
whatever the shares of the flows are.
-/
namespace Hwfq.IdealQueue

variable {ι κ : Type*} {st st' : State ι κ} {span : ι → ℕ} {many most : ℕ}

/-! ## Packets near the clock -/

/-- Flow `i` has one packet at most, of length `span i`, and is ahead of the clock by no more
than that. -/
structure Solo (span : ι → ℕ) (st : State ι κ) : Prop where
  distinct : (st.queue.map (·.flow)).Nodup
  length : ∀ q ∈ st.queue, q.finish = q.start + span q.flow
  tag : ∀ q ∈ st.queue, st.last q.flow = q.finish
  near : ∀ q ∈ st.queue, q.start ≤ st.clock + span q.flow
  idle : ∀ i, (∀ q ∈ st.queue, q.flow ≠ i) → st.last i ≤ st.clock + span i

/-- Before anything has arrived. -/
theorem Solo.of_empty (hqueue : st.queue = 0) (hlast : ∀ i, st.last i ≤ st.clock) :
    Solo span st := by
  constructor
  · simp [hqueue]
  · simp [hqueue]
  · simp [hqueue]
  · simp [hqueue]
  · intro i _
    exact (hlast i).trans (Nat.le_add_right _ _)

/-- The clock alone moves on. -/
theorem Solo.later (h : Solo span st) {v due : ℕ} (hv : st.clock ≤ v) :
    Solo span { st with clock := v, due := due } where
  distinct := h.distinct
  length := h.length
  tag := h.tag
  near q hq := (h.near q hq).trans (Nat.add_le_add_right hv _)
  idle i hi := (h.idle i hi).trans (Nat.add_le_add_right hv _)

theorem Solo.take (h : Solo span st) {p : Packet ι κ} {rest : Multiset (Packet ι κ)} {v : ℕ} (due : ℕ)
    (hqueue : st.queue = p ::ₘ rest) (hv : st.clock ≤ v) (heligible : p.start ≤ v) :
    Solo span ⟨v, rest, st.last, due⟩ := by
  have hold : ∀ q ∈ rest, q ∈ st.queue := fun q hq => hqueue ▸ Multiset.mem_cons_of_mem hq
  have hp : p ∈ st.queue := hqueue ▸ Multiset.mem_cons_self p rest
  have hdistinct := h.distinct
  rw [hqueue, Multiset.map_cons, Multiset.nodup_cons] at hdistinct
  constructor
  · exact hdistinct.2
  · exact fun q hq => h.length q (hold q hq)
  · exact fun q hq => h.tag q (hold q hq)
  · exact fun q hq => (h.near q (hold q hq)).trans (Nat.add_le_add_right hv _)
  · intro i hi
    dsimp only at hi ⊢
    by_cases hflow : p.flow = i
    · subst hflow
      rw [h.tag p hp, h.length p hp]
      exact Nat.add_le_add_right heligible _
    · refine (h.idle i ?_).trans (Nat.add_le_add_right hv _)
      intro q hq
      rw [hqueue] at hq
      rcases Multiset.mem_cons.mp hq with rfl | hq
      · exact hflow
      · exact hi q hq

theorem Solo.arrive [DecidableEq ι] (h : Solo span st) {i : ι} (hnone : ∀ q ∈ st.queue, q.flow ≠ i)
    (cost : ℕ) (item : κ) :
    Solo span { st with
      queue := st.packet i (span i) cost item ::ₘ st.queue
      last := Function.update st.last i (st.packet i (span i) cost item).finish } := by
  have hidle := h.idle i hnone
  constructor
  · rw [Multiset.map_cons, Multiset.nodup_cons]
    refine ⟨?_, h.distinct⟩
    intro hin
    obtain ⟨q, hq, hflow⟩ := Multiset.mem_map.mp hin
    exact hnone q hq hflow
  · intro q hq
    rcases Multiset.mem_cons.mp hq with rfl | hq
    · rfl
    · exact h.length q hq
  · intro q hq
    dsimp only
    rcases Multiset.mem_cons.mp hq with rfl | hq
    · exact Function.update_self _ _ _
    · rw [Function.update_of_ne (hnone q hq)]
      exact h.tag q hq
  · intro q hq
    rcases Multiset.mem_cons.mp hq with rfl | hq
    · exact max_le (Nat.le_add_right _ _) hidle
    · exact h.near q hq
  · intro j hj
    dsimp only at hj ⊢
    have hne : j ≠ i := by
      rintro rfl
      exact hj _ (Multiset.mem_cons_self _ _) rfl
    rw [Function.update_of_ne hne]
    exact h.idle j fun q hq => hj q (Multiset.mem_cons_of_mem hq)

/-- A packet that waits finishes within two of its lengths. -/
theorem Solo.finish_le (h : Solo span st) {q : Packet ι κ} (hq : q ∈ st.queue) :
    q.finish ≤ st.clock + 2 * span q.flow := by
  have hlength := h.length q hq
  have hnear := h.near q hq
  omega

/-! ## Packets behind the clock -/

/-- How many packets finish by `t`. -/
def finishedBy (queue : Multiset (Packet ι κ)) (t : ℕ) : ℕ :=
  (queue.filter (·.finish ≤ t)).card

theorem finishedBy_le (queue : Multiset (Packet ι κ)) (t : ℕ) : finishedBy queue t ≤ queue.card :=
  Multiset.card_le_card (Multiset.filter_le _ queue)

theorem finishedBy_cons (p : Packet ι κ) (queue : Multiset (Packet ι κ)) (t : ℕ) :
    finishedBy (p ::ₘ queue) t = finishedBy queue t + if p.finish ≤ t then 1 else 0 := by
  unfold finishedBy
  split_ifs with hp
  · rw [Multiset.filter_cons_of_pos queue hp, Multiset.card_cons]
  · rw [Multiset.filter_cons_of_neg queue hp, Nat.add_zero]

theorem finishedBy_pos {queue : Multiset (Packet ι κ)} {q : Packet ι κ} (hq : q ∈ queue) :
    0 < finishedBy queue q.finish :=
  Multiset.card_pos_iff_exists_mem.mpr ⟨q, Multiset.mem_filter.mpr ⟨hq, le_rfl⟩⟩

/-- Each packet that finishes before a waiting one is still to be paid for by the clock. -/
structure Crowd (many most : ℕ) (st : State ι κ) : Prop where
  cost : ∀ q ∈ st.queue, q.cost ≤ most
  order : ∀ q ∈ st.queue, q.start ≤ q.finish
  due : st.due ≤ most
  behind : ∀ q ∈ st.queue, st.clock + st.due + finishedBy st.queue q.finish * most ≤
    q.finish + (many + 1) * most

theorem Crowd.of_empty (hqueue : st.queue = 0) (hdue : st.due ≤ most) : Crowd many most st := by
  constructor
  · simp [hqueue]
  · simp [hqueue]
  · exact hdue
  · simp [hqueue]

/-- A packet that finishes from now on is not behind. -/
theorem behind_of_le {clock due k finish : ℕ} (hclock : clock ≤ finish) (hdue : due ≤ most)
    (hk : k ≤ many) : clock + due + k * most ≤ finish + (many + 1) * most := by
  have hmul := Nat.mul_le_mul_right most hk
  rw [Nat.add_mul, Nat.one_mul]
  omega

theorem Crowd.take (h : Crowd many most st) {p : Packet ι κ} {rest : Multiset (Packet ι κ)} {v : ℕ}
    (hqueue : st.queue = p ::ₘ rest) (hreach : Reaches st 0 v)
    (hleast : ∀ q ∈ rest, q.start ≤ v → p.finish ≤ q.finish) (hmany : rest.card ≤ many) :
    Crowd many most ⟨v, rest, st.last, p.cost⟩ := by
  have hold : ∀ q ∈ rest, q ∈ st.queue := fun q hq => hqueue ▸ Multiset.mem_cons_of_mem hq
  have hcost := h.cost p (hqueue ▸ Multiset.mem_cons_self p rest)
  constructor
  · exact fun q hq => h.cost q (hold q hq)
  · exact fun q hq => h.order q (hold q hq)
  · exact hcost
  · intro q hq
    have hfew := (finishedBy_le rest q.finish).trans hmany
    have horder := h.order q (hold q hq)
    rcases Nat.lt_or_ge q.start v with hstarted | hlate
    · -- `p` is one of the packets that finish before `q`
      have hahead := hleast q hq hstarted.le
      have hbehind := h.behind q (hold q hq)
      rw [hqueue, finishedBy_cons, if_pos hahead, Nat.add_mul, Nat.one_mul] at hbehind
      rcases hreach.cases with heq | ⟨-, hnone⟩
      · dsimp only
        omega
      · have := hnone q (hold q hq)
        omega
    · exact behind_of_le (hlate.trans horder) hcost hfew

theorem Crowd.advance (h : Crowd many most st) {charge v : ℕ} (hreach : Reaches st charge v)
    (hcharge : charge ≤ st.due) (hmany : st.queue.card ≤ many) :
    Crowd many most { st with clock := v, due := st.due - charge } := by
  have hdue := h.due
  refine ⟨h.cost, h.order, (Nat.sub_le _ _).trans hdue, ?_⟩
  intro q hq
  dsimp only
  rcases hreach.cases with rfl | ⟨-, hnone⟩
  · have hbehind := h.behind q hq
    omega
  · have hfew := (finishedBy_le st.queue q.finish).trans hmany
    exact behind_of_le ((hnone q hq).trans (h.order q hq)) ((Nat.sub_le _ _).trans hdue) hfew

theorem Crowd.arrive [DecidableEq ι] (h : Crowd many most st) (i : ι) (span : ℕ) {cost : ℕ}
    (item : κ) (hcost : cost ≤ most) (hmany : st.queue.card < many) :
    Crowd many most { st with
      queue := st.packet i span cost item ::ₘ st.queue
      last := Function.update st.last i (st.packet i span cost item).finish } := by
  have hclock : st.clock ≤ (st.packet i span cost item).finish :=
    (le_max_left _ _).trans (Nat.le_add_right _ _)
  constructor
  · intro q hq
    rcases Multiset.mem_cons.mp hq with rfl | hq
    · exact hcost
    · exact h.cost q hq
  · intro q hq
    rcases Multiset.mem_cons.mp hq with rfl | hq
    · exact Nat.le_add_right _ _
    · exact h.order q hq
  · exact h.due
  · intro q hq
    have hfew := finishedBy_le (st.packet i span cost item ::ₘ st.queue) q.finish
    rw [Multiset.card_cons] at hfew
    rcases Nat.lt_or_ge q.finish (st.packet i span cost item).finish with hbefore | hafter
    · rcases Multiset.mem_cons.mp hq with rfl | hq
      · exact absurd hbefore (lt_irrefl _)
      · have hbehind := h.behind q hq
        dsimp only
        rw [finishedBy_cons, if_neg (Nat.not_le.mpr hbefore), Nat.add_zero]
        exact hbehind
    · exact behind_of_le (hclock.trans hafter) h.due (hfew.trans hmany)

/-- The clock passes the finish of a waiting packet by what all the packets cost at most. -/
theorem Crowd.clock_le (h : Crowd many most st) {q : Packet ι κ} (hq : q ∈ st.queue) :
    st.clock + st.due ≤ q.finish + many * most := by
  have hbehind := h.behind q hq
  have hself := Nat.mul_le_mul_right most (finishedBy_pos hq)
  rw [Nat.add_mul] at hbehind
  omega

end Hwfq.IdealQueue
