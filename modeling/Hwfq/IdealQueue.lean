import Mathlib.Algebra.BigOperators.Group.List.Basic
import Mathlib.Algebra.Ring.Nat
import Mathlib.Data.Multiset.AddSub
import Mathlib.Logic.Function.Basic
import Mathlib.Order.MinMax

/-!
# An ideal WF2Q+ queue

Packets of several flows wait with a start and a finish in virtual time. A packet starts when
its flow has finished the one before, and no earlier than it arrives. The packet taken next
has the least finish of those that have started. The clock has no upper end and is never moved
back; it follows `max (V + charge) (min S)`, so that it skips the time in which no packet has
started. Where packets tie, any of them may be taken.
-/
namespace Hwfq.IdealQueue

/-! ## Runs of a machine that may choose -/

section Runs
variable {σ ε : Type*} {Step : σ → ε → σ → Prop}

/-- `s'` is reached from `s` by steps with the labels `es`. -/
inductive Run (Step : σ → ε → σ → Prop) : σ → List ε → σ → Prop
  | nil (s : σ) : Run Step s [] s
  | cons {s s₁ s' : σ} {e : ε} {es : List ε} (first : Step s e s₁) (rest : Run Step s₁ es s') :
      Run Step s (e :: es) s'

theorem Run.append {s s₁ s' : σ} {es fs : List ε} (h : Run Step s es s₁) (h' : Run Step s₁ fs s') :
    Run Step s (es ++ fs) s' := by
  induction h with
  | nil => exact h'
  | cons first _ ih => exact .cons first (ih h')

theorem Run.single {s s' : σ} {e : ε} (h : Step s e s') : Run Step s [e] s' := .cons h (.nil s')

theorem Run.step_of_single {s s' : σ} {e : ε} (h : Run Step s [e] s') : Step s e s' := by
  cases h with
  | cons first rest =>
    cases rest
    exact first

end Runs

/-! ## The queue -/

variable {ι κ : Type*}

/-- `cost` is what the clock is charged for the packet when it is served. -/
structure Packet (ι κ : Type*) where
  flow : ι
  start : ℕ
  finish : ℕ
  cost : ℕ
  item : κ

/-- `last` is the finish of the latest packet of a flow, `due` what is still to be charged for
the packet taken last. -/
structure State (ι κ : Type*) where
  clock : ℕ
  queue : Multiset (Packet ι κ)
  last : ι → ℕ
  due : ℕ

/-- The queue of a time at which nothing has arrived yet. -/
def State.init (ι κ : Type*) : State ι κ := ⟨0, 0, fun _ => 0, 0⟩

inductive Event (ι κ : Type*) where
  | arrive (flow : ι) (span cost : ℕ) (item : κ)
  | take (item : κ)
  | advance (charge : ℕ)
  | clear (flow : ι)

/-- The packet that arrives now. -/
def State.packet (st : State ι κ) (i : ι) (span cost : ℕ) (item : κ) : Packet ι κ :=
  ⟨i, max st.clock (st.last i), max st.clock (st.last i) + span, cost, item⟩

/-- With packets waiting `v` is `max (clock + charge) (min start)`; with none it may lie
further on. -/
structure Reaches (st : State ι κ) (charge v : ℕ) : Prop where
  passed : st.clock + charge ≤ v
  bound : ∀ q ∈ st.queue, v ≤ max (st.clock + charge) q.start
  attained : st.queue ≠ 0 → v = st.clock + charge ∨ ∃ q ∈ st.queue, q.start = v

/-- One step of the queue. `clear` forgets how far a flow has been served. -/
inductive Step [DecidableEq ι] : State ι κ → Event ι κ → State ι κ → Prop
  | arrive {st : State ι κ} {i : ι} {span cost : ℕ} {item : κ} :
      Step st (.arrive i span cost item)
        { st with
          queue := st.packet i span cost item ::ₘ st.queue
          last := Function.update st.last i (st.packet i span cost item).finish }
  | take {st : State ι κ} {p : Packet ι κ} {rest : Multiset (Packet ι κ)} {v : ℕ}
      (queue : st.queue = p ::ₘ rest) (reaches : Reaches st 0 v) (eligible : p.start ≤ v)
      (least : ∀ q ∈ rest, q.start ≤ v → p.finish ≤ q.finish) :
      Step st (.take p.item) ⟨v, rest, st.last, p.cost⟩
  | advance {st : State ι κ} {charge v : ℕ} (reaches : Reaches st charge v) :
      Step st (.advance charge) { st with clock := v, due := st.due - charge }
  | clear {st : State ι κ} {i : ι} :
      Step st (.clear i) { st with last := Function.update st.last i 0 }

/-- The clock moves by its charge alone, or over a stretch in which nothing has started. -/
theorem Reaches.cases {st : State ι κ} {charge v : ℕ} (h : Reaches st charge v) :
    v = st.clock + charge ∨ st.clock + charge < v ∧ ∀ q ∈ st.queue, v ≤ q.start := by
  rcases h.passed.eq_or_lt with heq | hlt
  · exact .inl heq.symm
  · right
    refine ⟨hlt, ?_⟩
    intro q hq
    have := h.bound q hq
    omega

/-- What the clock is charged by an event. -/
def Event.charge : Event ι κ → ℕ
  | .advance charge => charge
  | _ => 0

section Step
variable [DecidableEq ι] {st st' : State ι κ} {e : Event ι κ}

theorem Step.charged (h : Step st e st') : st.clock + e.charge ≤ st'.clock := by
  cases h with
  | arrive => exact le_rfl
  | take _ reaches => exact reaches.passed
  | advance reaches => exact reaches.passed
  | clear => exact le_rfl

/-- Only a packet that arrives moves the finish of its flow on. -/
theorem Step.last_le (h : Step st e st') (i : ι) :
    st'.last i ≤ st.last i ∨ ∃ span cost item, e = .arrive i span cost item := by
  cases h with
  | @arrive j span cost item =>
    by_cases hi : i = j
    · subst hi
      exact .inr ⟨span, cost, item, rfl⟩
    · left
      dsimp only
      rw [Function.update_of_ne hi]
  | take => exact .inl le_rfl
  | advance => exact .inl le_rfl
  | @clear j =>
    left
    dsimp only
    by_cases hi : i = j
    · rw [hi, Function.update_self]
      exact Nat.zero_le _
    · rw [Function.update_of_ne hi]

/-- What it means that an item is taken. -/
theorem Step.take_cases {item : κ} (h : Step st (.take item) st') :
    ∃ p rest v, p.item = item ∧ st.queue = p ::ₘ rest ∧ Reaches st 0 v ∧ p.start ≤ v ∧
      (∀ q ∈ rest, q.start ≤ v → p.finish ≤ q.finish) ∧ st' = ⟨v, rest, st.last, p.cost⟩ := by
  generalize he : Event.take item = e at h
  cases h with
  | take queue reaches eligible least =>
    cases he
    exact ⟨_, _, _, rfl, queue, reaches, eligible, least, rfl⟩
  | _ => cases he

/-- A packet that waits stays until it is taken. -/
theorem Step.kept (h : Step st e st') {q : Packet ι κ} (hq : q ∈ st.queue)
    (hother : e ≠ .take q.item) : q ∈ st'.queue := by
  cases h with
  | arrive => exact Multiset.mem_cons_of_mem hq
  | take queue =>
    rw [queue] at hq
    rcases Multiset.mem_cons.mp hq with rfl | hq
    · exact absurd rfl hother
    · exact hq
  | advance => exact hq
  | clear => exact hq

/-- A packet that waits has waited before, or has just arrived. -/
theorem Step.origin (h : Step st e st') {p : Packet ι κ} (hp : p ∈ st'.queue) :
    p ∈ st.queue ∨ ∃ i span cost item, e = .arrive i span cost item ∧
      p = st.packet i span cost item := by
  cases h with
  | arrive =>
    rcases Multiset.mem_cons.mp hp with rfl | hp
    · exact .inr ⟨_, _, _, _, rfl, rfl⟩
    · exact .inl hp
  | take queue =>
    left
    rw [queue]
    exact Multiset.mem_cons_of_mem hp
  | advance => exact .inl hp
  | clear => exact .inl hp

/-- What the clock is charged by a list of events. -/
def charged (es : List (Event ι κ)) : ℕ := (es.map Event.charge).sum

theorem Run.charged {es : List (Event ι κ)} (h : Run Step st es st') :
    st.clock + charged es ≤ st'.clock := by
  induction h with
  | nil => exact le_rfl
  | @cons s s₁ s' e es first _ ih =>
    have hfirst := first.charged
    have hsum : IdealQueue.charged (e :: es) = e.charge + IdealQueue.charged es := rfl
    omega

theorem Run.kept {es : List (Event ι κ)} (h : Run Step st es st') {q : Packet ι κ}
    (hq : q ∈ st.queue) (hother : ∀ e ∈ es, e ≠ .take q.item) : q ∈ st'.queue := by
  induction h with
  | nil => exact hq
  | cons first _ ih =>
    have hkept := first.kept hq (hother _ List.mem_cons_self)
    exact ih hkept fun e he => hother e (List.mem_cons_of_mem _ he)

end Step

/-! ## The packets of one flow -/

/-- The packets of one flow come one after the other. -/
structure Spread (st : State ι κ) : Prop where
  long : ∀ q ∈ st.queue, q.start < q.finish
  last : ∀ q ∈ st.queue, q.finish ≤ max st.clock (st.last q.flow)
  apart : ∀ p rest, st.queue = p ::ₘ rest → ∀ q ∈ rest, q.flow = p.flow →
    p.finish ≤ q.start ∨ q.finish ≤ p.start

theorem Spread.of_empty {st : State ι κ} (h : st.queue = 0) : Spread st := by
  constructor
  · simp [h]
  · simp [h]
  · intro p rest hqueue
    rw [h] at hqueue
    exact absurd hqueue.symm (Multiset.cons_ne_zero)

variable {st st' : State ι κ}

/-- What waits elsewhere or later is not held up by fewer packets. -/
theorem Spread.fewer (h : Spread st) {p : Packet ι κ} {rest : Multiset (Packet ι κ)}
    (hqueue : st.queue = p ::ₘ rest) {v due : ℕ} (hv : st.clock ≤ v) :
    Spread (⟨v, rest, st.last, due⟩ : State ι κ) := by
  have hold : ∀ q ∈ rest, q ∈ st.queue := fun q hq => hqueue ▸ Multiset.mem_cons_of_mem hq
  constructor
  · intro q hq
    exact h.long q (hold q hq)
  · intro q hq
    exact (h.last q (hold q hq)).trans (max_le_max_right _ hv)
  · intro q cs hrest
    have hq : st.queue = q ::ₘ p ::ₘ cs := by
      rw [hqueue, show rest = q ::ₘ cs from hrest]
      exact Multiset.cons_swap p q cs
    intro r hr
    exact h.apart q (p ::ₘ cs) hq r (Multiset.mem_cons_of_mem hr)

/-- A packet that is taken is the first of its flow. -/
theorem Spread.first (h : Spread st) {p : Packet ι κ} {rest : Multiset (Packet ι κ)} {v : ℕ}
    (hqueue : st.queue = p ::ₘ rest) (heligible : p.start ≤ v)
    (hleast : ∀ q ∈ rest, q.start ≤ v → p.finish ≤ q.finish) {q : Packet ι κ} (hq : q ∈ rest)
    (hflow : q.flow = p.flow) : p.finish ≤ q.start := by
  have hlong := h.long p (hqueue ▸ Multiset.mem_cons_self p rest)
  have hlong' := h.long q (hqueue ▸ Multiset.mem_cons_of_mem hq)
  rcases h.apart p rest hqueue q hq hflow with hafter | hbefore
  · exact hafter
  · have := hleast q hq (by omega)
    omega

section Step
variable [DecidableEq ι]

theorem Spread.arrive (h : Spread st) {i : ι} {span cost : ℕ} {item : κ} (hspan : 0 < span) :
    Spread { st with
      queue := st.packet i span cost item ::ₘ st.queue
      last := Function.update st.last i (st.packet i span cost item).finish } := by
  have hbefore : ∀ q ∈ st.queue, q.flow = i → q.finish ≤ (st.packet i span cost item).start := by
    rintro q hq rfl
    exact h.last q hq
  constructor
  · intro q hq
    rcases Multiset.mem_cons.mp hq with rfl | hq
    · exact Nat.lt_add_of_pos_right hspan
    · exact h.long q hq
  · intro q hq
    dsimp only
    rcases Multiset.mem_cons.mp hq with rfl | hq
    · rw [show (st.packet i span cost item).flow = i from rfl, Function.update_self]
      exact le_max_right _ _
    · by_cases hi : q.flow = i
      · have hfirst := hbefore q hq hi
        rw [hi, Function.update_self]
        exact le_max_of_le_right (hfirst.trans (Nat.le_add_right _ span))
      · rw [Function.update_of_ne hi]
        exact h.last q hq
  · intro p rest hqueue q hq hflow
    rcases Multiset.cons_eq_cons.mp hqueue with ⟨rfl, rfl⟩ | ⟨-, cs, hold, rfl⟩
    · exact .inr (hbefore q hq hflow)
    · rcases Multiset.mem_cons.mp hq with rfl | hq
      · have hp : p ∈ st.queue := hold ▸ Multiset.mem_cons_self p cs
        exact .inl (hbefore p hp hflow.symm)
      · exact h.apart p cs hold q hq hflow

theorem Spread.step (h : Spread st) {e : Event ι κ} (hstep : Step st e st')
    (hspan : ∀ i span cost item, e = .arrive i span cost item → 0 < span)
    (hclear : ∀ i, e = .clear i → st.last i ≤ st.clock) : Spread st' := by
  cases hstep with
  | arrive => exact h.arrive (hspan _ _ _ _ rfl)
  | take queue reaches => exact h.fewer queue reaches.passed
  | advance reaches =>
    constructor
    · exact h.long
    · intro q hq
      exact (h.last q hq).trans (max_le_max_right _ (Nat.le_of_add_right_le reaches.passed))
    · exact h.apart
  | @clear i =>
    constructor
    · exact h.long
    · intro q hq
      have hold := h.last q hq
      dsimp only
      by_cases hi : q.flow = i
      · have := hclear i rfl
        rw [hi] at hold ⊢
        rw [Function.update_self]
        omega
      · rw [Function.update_of_ne hi]
        exact hold
    · exact h.apart

end Step

end Hwfq.IdealQueue
