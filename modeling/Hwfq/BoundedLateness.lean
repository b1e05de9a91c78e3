import Mathlib.Algebra.BigOperators.Ring.Finset
import Mathlib.Algebra.Order.BigOperators.Group.Finset
import Hwfq.IdealQueue

/-!
# How late a packet of an ideal queue can be

Flows share the clock: while it moves on by `total`, a flow `i` is due `weight i` of it, and
all the shares together are no more than the whole. A packet whose cost is within the share
of its flow is then served no later than one largest packet after its finish.

Fix a finish `T`. The queue has been busy with packets that finish by `T` since some time
`since`, apart from one packet that was taken before them; what the clock was charged for
them is within what the shares of their flows have come to in that time.
-/
namespace Hwfq.IdealQueue

variable {ι κ : Type*}

/-- The shares of the flows, together no more than the whole. -/
structure Shares (ι : Type*) where
  flows : Finset ι
  weight : ι → ℕ
  total : ℕ
  positive : 0 < total
  fits : ∑ i ∈ flows, weight i ≤ total

variable {S : Shares ι} {most T : ℕ} {st st' : State ι κ}

/-- The cost of a packet is within the share of its flow, and no more than `most`. -/
structure Priced (S : Shares ι) (most : ℕ) (flow : ι) (span cost : ℕ) : Prop where
  known : flow ∈ S.flows
  small : cost ≤ most
  share : cost * S.total ≤ S.weight flow * span

instance [DecidableEq ι] (S : Shares ι) (most : ℕ) (flow : ι) (span cost : ℕ) :
    Decidable (Priced S most flow span cost) :=
  decidable_of_iff (flow ∈ S.flows ∧ cost ≤ most ∧ cost * S.total ≤ S.weight flow * span)
    ⟨fun ⟨hknown, hsmall, hshare⟩ => ⟨hknown, hsmall, hshare⟩,
      fun h => ⟨h.known, h.small, h.share⟩⟩

/-- Every flow `i` has had its share up to `upTo i`, from `since` on. -/
structure Allotment (S : Shares ι) (most T : ℕ) (st : State ι κ) (since : ℕ) (upTo : ι → ℕ) :
    Prop where
  started : since ≤ st.clock
  low : ∀ i, since ≤ upTo i
  high : ∀ i, upTo i ≤ max since T
  tag : ∀ i, upTo i ≤ max st.clock (st.last i)
  waiting : ∀ q ∈ st.queue, q.finish ≤ T → upTo q.flow ≤ q.start
  paid : S.total * (st.clock + st.due) ≤
    S.total * (since + most) + ∑ i ∈ S.flows, S.weight i * (upTo i - since)

/-- The packets that finish by `T` are on time. -/
def OnTime (S : Shares ι) (most T : ℕ) (st : State ι κ) : Prop :=
  ∃ since upTo, Allotment S most T st since upTo

/-! ## A new start -/

/-- The account starts again when every packet that finishes by `T` starts from now on. -/
theorem OnTime.anew (hdue : st.due ≤ most)
    (hlate : ∀ q ∈ st.queue, q.finish ≤ T → st.clock ≤ q.start) : OnTime S most T st := by
  refine ⟨st.clock, fun _ => st.clock, ?_⟩
  constructor
  · exact le_rfl
  · exact fun _ => le_rfl
  · exact fun _ => le_max_left _ _
  · exact fun _ => le_max_left _ _
  · exact hlate
  · simp only [Nat.sub_self, Nat.mul_zero, Finset.sum_const_zero, Nat.add_zero]
    exact Nat.mul_le_mul_left S.total (Nat.add_le_add_left hdue st.clock)

/-- The clock may first jump over a stretch in which nothing has started. -/
theorem OnTime.jump (h : OnTime S most T st) {v : ℕ} (hreach : Reaches st 0 v) :
    OnTime S most T { st with clock := v, due := 0 } := by
  rcases hreach.cases with rfl | ⟨-, hnone⟩
  · obtain ⟨since, upTo, h⟩ := h
    refine ⟨since, upTo, h.started, h.low, h.high, h.tag, h.waiting, ?_⟩
    refine le_trans ?_ h.paid
    exact Nat.mul_le_mul_left S.total (Nat.add_le_add_left (Nat.zero_le _) _)
  · apply OnTime.anew (Nat.zero_le most)
    intro q hq _
    exact hnone q hq

theorem OnTime.advance (h : OnTime S most T st) {charge v : ℕ} (hreach : Reaches st charge v)
    (hcharge : charge ≤ st.due) (hdue : st.due ≤ most) :
    OnTime S most T { st with clock := v, due := st.due - charge } := by
  rcases hreach.cases with rfl | ⟨-, hnone⟩
  · obtain ⟨since, upTo, h⟩ := h
    refine ⟨since, upTo, ?_, h.low, h.high, ?_, h.waiting, ?_⟩
    · exact h.started.trans (Nat.le_add_right _ _)
    · intro i
      exact (h.tag i).trans (max_le_max_right _ (Nat.le_add_right _ _))
    · have hsame : st.clock + charge + (st.due - charge) = st.clock + st.due := by omega
      dsimp only
      rw [hsame]
      exact h.paid
  · apply OnTime.anew (show st.due - charge ≤ most by omega)
    intro q hq _
    exact hnone q hq

/-- One flow has had its share up to `finish`, which pays for a packet from `start` on. -/
theorem sum_update_le [DecidableEq ι] (S : Shares ι) {upTo : ι → ℕ} {since start finish cost : ℕ}
    {i : ι} (hi : i ∈ S.flows) (hlow : since ≤ upTo i) (hstart : upTo i ≤ start)
    (hfinish : start ≤ finish) (hcost : cost * S.total ≤ S.weight i * (finish - start)) :
    ∑ j ∈ S.flows, S.weight j * (upTo j - since) + S.total * cost ≤
      ∑ j ∈ S.flows, S.weight j * (Function.update upTo i finish j - since) := by
  rw [← Finset.add_sum_erase _ _ hi, ← Finset.add_sum_erase _ _ hi, Function.update_self]
  have hrest : ∑ j ∈ S.flows.erase i, S.weight j * (Function.update upTo i finish j - since) =
      ∑ j ∈ S.flows.erase i, S.weight j * (upTo j - since) := by
    apply Finset.sum_congr rfl
    intro j hj
    rw [Function.update_of_ne (Finset.ne_of_mem_erase hj)]
  have hspan : upTo i - since + (finish - start) ≤ finish - since := by omega
  have hweight := Nat.mul_le_mul_left (S.weight i) hspan
  rw [Nat.mul_add] at hweight
  rw [hrest, Nat.mul_comm S.total cost]
  omega

/-! ## Steps -/

/-- What the queue keeps while every packet is within the share of its flow. -/
structure Punctual (S : Shares ι) (most : ℕ) (st : State ι κ) : Prop where
  spread : Spread st
  priced : ∀ q ∈ st.queue, Priced S most q.flow (q.finish - q.start) q.cost
  due : st.due ≤ most
  onTime : ∀ T, OnTime S most T st

/-- Packets arrive within the share of their flow, the clock is charged no more than what is
due, and no flow that is ahead of the clock is made to forget it. -/
def WithinShare (S : Shares ι) (most : ℕ) (st : State ι κ) : Event ι κ → Prop
  | .arrive i span cost _ => 0 < span ∧ Priced S most i span cost
  | .take _ => True
  | .advance charge => charge ≤ st.due
  | .clear i => st.last i ≤ st.clock

/-- An idle queue is punctual. -/
theorem Punctual.of_empty (hqueue : st.queue = 0) (hdue : st.due ≤ most) :
    Punctual S most st := by
  constructor
  · exact .of_empty hqueue
  · simp [hqueue]
  · exact hdue
  · intro T
    apply OnTime.anew hdue
    simp [hqueue]

section Step
variable [DecidableEq ι]

theorem OnTime.arrive (h : OnTime S most T st) {i : ι} {span cost : ℕ} {item : κ} :
    OnTime S most T { st with
      queue := st.packet i span cost item ::ₘ st.queue
      last := Function.update st.last i (st.packet i span cost item).finish } := by
  obtain ⟨since, upTo, h⟩ := h
  refine ⟨since, upTo, h.started, h.low, h.high, ?_, ?_, h.paid⟩
  · intro j
    have htag := h.tag j
    dsimp only
    by_cases hj : j = i
    · subst hj
      rw [Function.update_self]
      exact htag.trans (le_max_of_le_right (Nat.le_add_right _ span))
    · rw [Function.update_of_ne hj]
      exact htag
  · intro q hq hfinish
    rcases Multiset.mem_cons.mp hq with rfl | hq
    · exact h.tag i
    · exact h.waiting q hq hfinish

/-- A packet that finishes by `T` is taken while the clock stands. -/
theorem Allotment.take {since : ℕ} {upTo : ι → ℕ} (h : Allotment S most T st since upTo)
    {p : Packet ι κ} {rest : Multiset (Packet ι κ)} (hqueue : st.queue = p ::ₘ rest)
    (hspread : Spread st) (hpriced : Priced S most p.flow (p.finish - p.start) p.cost)
    (hlast : p.finish ≤ max st.clock (st.last p.flow)) (hT : p.finish ≤ T)
    (hfirst : ∀ q ∈ rest, q.flow = p.flow → p.finish ≤ q.start) :
    Allotment S most T ⟨st.clock, rest, st.last, p.cost⟩ since
      (Function.update upTo p.flow p.finish) := by
  have hp : p ∈ st.queue := hqueue ▸ Multiset.mem_cons_self p rest
  have hlong := hspread.long p hp
  have hstart := h.waiting p hp hT
  have hlow := h.low p.flow
  have hsum := sum_update_le S hpriced.known hlow hstart hlong.le hpriced.share
  constructor
  · exact h.started
  · intro j
    by_cases hj : j = p.flow
    · rw [hj, Function.update_self]
      omega
    · rw [Function.update_of_ne hj]
      exact h.low j
  · intro j
    by_cases hj : j = p.flow
    · rw [hj, Function.update_self]
      exact le_max_of_le_right hT
    · rw [Function.update_of_ne hj]
      exact h.high j
  · intro j
    by_cases hj : j = p.flow
    · rw [hj, Function.update_self]
      exact hlast
    · rw [Function.update_of_ne hj]
      exact h.tag j
  · intro q hq hfinish
    by_cases hj : q.flow = p.flow
    · rw [hj, Function.update_self]
      exact hfirst q hq hj
    · rw [Function.update_of_ne hj]
      exact h.waiting q (hqueue ▸ Multiset.mem_cons_of_mem hq) hfinish
  · have hpaid := h.paid
    have hdue := Nat.mul_le_mul_left S.total (Nat.le_add_right st.clock st.due)
    dsimp only
    rw [Nat.mul_add S.total st.clock p.cost]
    omega

theorem Punctual.take (h : Punctual S most st) {p : Packet ι κ} {rest : Multiset (Packet ι κ)}
    {v : ℕ} (hqueue : st.queue = p ::ₘ rest) (hreach : Reaches st 0 v) (heligible : p.start ≤ v)
    (hleast : ∀ q ∈ rest, q.start ≤ v → p.finish ≤ q.finish) :
    Punctual S most ⟨v, rest, st.last, p.cost⟩ := by
  have hp : p ∈ st.queue := hqueue ▸ Multiset.mem_cons_self p rest
  have hpriced := h.priced p hp
  have hpassed : st.clock ≤ v := hreach.passed
  constructor
  · exact h.spread.fewer hqueue hpassed
  · intro q hq
    exact h.priced q (hqueue ▸ Multiset.mem_cons_of_mem hq)
  · exact hpriced.small
  · intro T
    rcases Nat.lt_or_ge T p.finish with hlate | hearly
    · -- packets that finish by `T` have not started, or they would have been taken
      apply OnTime.anew hpriced.small
      intro q hq hfinish
      by_contra hstarted
      have := hleast q hq (Nat.le_of_not_le hstarted)
      omega
    · obtain ⟨since, upTo, hjump⟩ := (h.onTime T).jump hreach
      have hspread : Spread { st with clock := v, due := 0 } :=
        ⟨h.spread.long, fun q hq => (h.spread.last q hq).trans (max_le_max_right _ hpassed),
          h.spread.apart⟩
      exact ⟨since, _, hjump.take hqueue hspread hpriced (hspread.last p hp) hearly
        fun q hq => h.spread.first hqueue heligible hleast hq⟩

theorem OnTime.clear (h : OnTime S most T st) {i : ι} (hi : st.last i ≤ st.clock) :
    OnTime S most T { st with last := Function.update st.last i 0 } := by
  obtain ⟨since, upTo, h⟩ := h
  refine ⟨since, upTo, h.started, h.low, h.high, ?_, h.waiting, h.paid⟩
  intro j
  have htag := h.tag j
  dsimp only
  by_cases hj : j = i
  · subst hj
    rw [Function.update_self]
    omega
  · rw [Function.update_of_ne hj]
    exact htag

theorem Punctual.step (h : Punctual S most st) {e : Event ι κ} (hstep : Step st e st')
    (hwithin : WithinShare S most st e) : Punctual S most st' := by
  have hspread : Spread st' := by
    apply h.spread.step hstep
    · rintro i span cost item rfl
      exact hwithin.1
    · rintro i rfl
      exact hwithin
  cases hstep with
  | @arrive i span cost item =>
    refine ⟨hspread, ?_, h.due, fun T => (h.onTime T).arrive⟩
    intro q hq
    rcases Multiset.mem_cons.mp hq with rfl | hq
    · have hlength : (st.packet i span cost item).finish - (st.packet i span cost item).start =
          span := Nat.add_sub_cancel_left _ _
      rw [hlength]
      exact hwithin.2
    · exact h.priced q hq
  | take queue reaches eligible least => exact h.take queue reaches eligible least
  | advance reaches =>
    refine ⟨hspread, h.priced, (Nat.sub_le _ _).trans h.due, ?_⟩
    intro T
    exact (h.onTime T).advance reaches hwithin h.due
  | clear => exact ⟨hspread, h.priced, h.due, fun T => (h.onTime T).clear hwithin⟩

end Step

/-! ## The bound -/

/-- The shares of all flows up to `T`, but of the flow `i` only up to its packet. -/
theorem Allotment.share_le {since : ℕ} {upTo : ι → ℕ} (h : Allotment S most T st since upTo)
    {i : ι} {start : ℕ} (hi : i ∈ S.flows) (hstart : upTo i ≤ start) (hT : start ≤ T) :
    ∑ j ∈ S.flows, S.weight j * (upTo j - since) + S.weight i * (T - start) ≤
      S.total * (T - since) := by
  classical
  have hlow := h.low i
  have hothers : ∑ j ∈ S.flows.erase i, S.weight j * (upTo j - since) ≤
      ∑ j ∈ S.flows.erase i, S.weight j * (T - since) := by
    apply Finset.sum_le_sum
    intro j _
    have hhigh := h.high j
    exact Nat.mul_le_mul_left _ (by omega)
  have hown : S.weight i * (upTo i - since) + S.weight i * (T - start) ≤
      S.weight i * (T - since) := by
    rw [← Nat.mul_add]
    exact Nat.mul_le_mul_left _ (by omega)
  have hfits := Nat.mul_le_mul_right (T - since) S.fits
  rw [Finset.sum_mul, ← Finset.add_sum_erase _ _ hi] at hfits
  rw [← Finset.add_sum_erase _ _ hi]
  omega

/-- A waiting packet can still be served by one largest packet after its finish. -/
theorem Punctual.bound (h : Punctual S most st) {q : Packet ι κ} (hq : q ∈ st.queue) :
    st.clock + st.due + q.cost ≤ q.finish + most := by
  obtain ⟨since, upTo, hallot⟩ := h.onTime q.finish
  have hpriced := h.priced q hq
  have hlong := h.spread.long q hq
  have hstart := hallot.waiting q hq le_rfl
  have hlow := hallot.low q.flow
  have hshare := hallot.share_le hpriced.known hstart hlong.le
  have hpaid := hallot.paid
  have hcost := hpriced.share
  have hall : S.total * (st.clock + st.due + q.cost) ≤ S.total * (q.finish + most) := by
    have hsince : q.finish + most = since + most + (q.finish - since) := by omega
    rw [hsince, Nat.mul_add S.total (st.clock + st.due), Nat.mul_add S.total (since + most),
      Nat.mul_comm S.total q.cost]
    omega
  exact Nat.le_of_mul_le_mul_left hall S.positive

end Hwfq.IdealQueue
