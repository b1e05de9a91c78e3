import Hwfq.QueueTraces
import Hwfq.TokenRegistration

/-!
# Turns of tokens of one size

The tokens of the system scheduler all stand for the same amount of work, and an entry has
at most one of them. The clock then never runs ahead of a waiting token by more than what
the tokens ahead of it are charged, so a rebase cuts no finish time off. Two entries of one
rate take turns: neither is served twice while the other waits.
-/
namespace Hwfq
open GuardedRuns MinSearch

variable {α : Type*} {gs gs' : GroupScheduler α} {mem : Allocator} {s : SessionState α}
  {m : Multiset (SessionState α)}

/-- A token in fixed point: its longest interval, and the most that it moves the clock. -/
def quantumSpan : ℕ := tenantQuantumSize <<< timePrecisionShift

/-- As many tokens as a store has entries. -/
def mostTokens : ℕ := maxChunks * chunkSize

theorem quantumSpan_eq : quantumSpan = 4294967296 := by
  simp [quantumSpan, tenantQuantumSize, timePrecisionShift]

theorem mostTokens_eq : mostTokens = 1073741824 := by
  simp [mostTokens, maxChunks, chunkSize]

theorem serviceIntervalOf_quantum_le (rate : ℕ) :
    serviceIntervalOf tenantQuantumSize rate ≤ quantumSpan := by
  have hsmall : ¬ tenantQuantumSize > uint64Max >>> timePrecisionShift := by
    simp [tenantQuantumSize, timePrecisionShift, uint64Max, Nat.shiftRight_eq_div_pow]
  have hdiv := Nat.div_le_self (tenantQuantumSize <<< timePrecisionShift) rate
  have hpos : 1 ≤ quantumSpan := by
    rw [quantumSpan_eq]
    omega
  unfold serviceIntervalOf
  dsimp only
  rw [if_neg hsmall]
  split_ifs
  · exact hpos
  · exact hdiv

theorem virtualTimeDelta_quantum (gs : GroupScheduler α) :
    0 < virtualTimeDelta gs tenantQuantumSize ∧
      virtualTimeDelta gs tenantQuantumSize ≤ quantumSpan := by
  have hscaled : u64 (tenantQuantumSize <<< timePrecisionShift) = quantumSpan := by
    simp [u64, quantumSpan, tenantQuantumSize, timePrecisionShift]
  have hdiv := Nat.div_le_self quantumSpan gs.totalCapacity
  have hspan := quantumSpan_eq
  unfold virtualTimeDelta
  dsimp only
  rw [hscaled]
  generalize quantumSpan / gs.totalCapacity = advance at hdiv ⊢
  split_ifs <;> omega

/-! ## The tokens ahead of a token -/

/-- How many tokens finish by time `t`. -/
def finishedBy (m : Multiset (SessionState α)) (t : ℕ) : ℕ :=
  (m.filter (·.finishTime ≤ t)).card

theorem finishedBy_le (m : Multiset (SessionState α)) (t : ℕ) : finishedBy m t ≤ m.card :=
  Multiset.card_le_card (Multiset.filter_le _ m)

theorem finishedBy_cons (s : SessionState α) (m : Multiset (SessionState α)) (t : ℕ) :
    finishedBy (s ::ₘ m) t = finishedBy m t + if s.finishTime ≤ t then 1 else 0 := by
  unfold finishedBy
  split_ifs with hs
  · rw [Multiset.filter_cons_of_pos m hs, Multiset.card_cons]
  · rw [Multiset.filter_cons_of_neg m hs, Nat.add_zero]

theorem finishedBy_pos (hs : s ∈ m) : 0 < finishedBy m s.finishTime :=
  Multiset.card_pos_iff_exists_mem.mpr ⟨s, Multiset.mem_filter.mpr ⟨hs, le_rfl⟩⟩

/-- A token that finishes before the clock is waited for by one charge a token ahead of it. -/
def Lag (v : ℕ) (m : Multiset (SessionState α)) : Prop :=
  ∀ q ∈ m, v + finishedBy m q.finishTime * quantumSpan ≤
    q.finishTime + (mostTokens + 1) * quantumSpan

theorem lag_iff {v : ℕ} : Lag v m ↔ ∀ q ∈ m,
    v + finishedBy m q.finishTime * 4294967296 ≤ q.finishTime + 4611686022722355200 := by
  rw [Lag, quantumSpan_eq, mostTokens_eq]

/-- What is charged when token `s` is chosen at time `v₁` and the clock goes on to `v₂`. -/
structure Charge (v v₁ v₂ : ℕ) (s : SessionState α) (m : Multiset (SessionState α)) : Prop where
  eligible : s.startTime ≤ v₁
  least : ∀ q ∈ m, q.startTime ≤ v₁ → s.finishTime ≤ q.finishTime
  started : v ≤ v₁
  jump : v < v₁ → v₁ ≤ s.startTime ∧ ∀ q ∈ m, v₁ ≤ q.startTime
  advance : v₁ < v₂
  bound : ∀ q ∈ m, v₂ ≤ v₁ + quantumSpan ∨ v₂ ≤ q.startTime

variable {v v₁ v₂ : ℕ}

/-- A waiting token that finishes before the clock has the token that was chosen ahead of it. -/
theorem Lag.charge (h : Lag v (s ::ₘ m)) (hcharge : Charge v v₁ v₂ s m)
    (hstamps : ∀ q ∈ m, q.startTime ≤ q.finishTime) (hcard : m.card ≤ mostTokens) : Lag v₂ m := by
  rw [lag_iff] at h ⊢
  intro q hq
  have hold := h q (Multiset.mem_cons_of_mem hq)
  have hfew := (finishedBy_le m q.finishTime).trans hcard
  have hstamp := hstamps q hq
  have hspan := quantumSpan_eq
  have hmost := mostTokens_eq
  have hbound := hcharge.bound q hq
  rw [finishedBy_cons] at hold
  rcases Nat.lt_or_ge (q.finishTime + quantumSpan) v₂ with hfar | hnear
  · have hstay : v₁ = v := by
      rcases hcharge.started.lt_or_eq with hjump | heq
      · have := (hcharge.jump hjump).2 q hq
        omega
      · exact heq.symm
    have hahead := hcharge.least q hq (by omega)
    rw [if_pos hahead] at hold
    omega
  · omega

theorem Lag.cons (h : Lag v m) (hs : v ≤ s.finishTime) (hcard : (s ::ₘ m).card ≤ mostTokens) :
    Lag v (s ::ₘ m) := by
  rw [lag_iff] at h ⊢
  intro q hq
  have hfew := (finishedBy_le (s ::ₘ m) q.finishTime).trans hcard
  have hmost := mostTokens_eq
  rcases Nat.lt_or_ge q.finishTime v with hlate | hearly
  · rcases Multiset.mem_cons.mp hq with rfl | hq
    · omega
    · have hold := h q hq
      rw [finishedBy_cons, if_neg (by omega)]
      exact hold
  · omega

/-- A rebase cuts no finish time off: the clock has not left any token behind by half of
its range. -/
theorem Lag.uncut (h : Lag v m) (hs : s ∈ m) : rebaseOffsetAt v ≤ s.finishTime := by
  have hold := lag_iff.mp h s hs
  have hpos := finishedBy_pos hs
  unfold rebaseOffsetAt rebaseThreshold uint64Max
  split_ifs <;> omega

theorem Lag.rebase {off : ℕ} (h : Lag v m) (hv : off ≤ v) (hoff : ∀ q ∈ m, off ≤ q.finishTime) :
    Lag (v - off) (m.map (·.rebase off)) := by
  rw [lag_iff] at h ⊢
  intro q hq
  obtain ⟨p, hp, rfl⟩ := Multiset.mem_map.mp hq
  have hfinish : ∀ r : SessionState α, (r.rebase off).finishTime = r.finishTime - off :=
    fun r => rebaseTime_eq_sub off r.finishTime
  have hsame : finishedBy (m.map (·.rebase off)) (p.rebase off).finishTime =
      finishedBy m p.finishTime := by
    unfold finishedBy
    rw [Multiset.filter_map, Multiset.card_map]
    congr 1
    apply Multiset.filter_congr
    intro r hr
    have hrcut := hoff r hr
    have hpcut := hoff p hp
    simp only [Function.comp_apply, hfinish]
    omega
  have hold := h p hp
  have hcut := hoff p hp
  rw [hsame, hfinish]
  omega

/-! ## Taking a token -/

/-- Tags stay near the clock, and no token is left behind by half of its range. -/
structure Paced (gs : GroupScheduler α) : Prop where
  clock : gs.virtualTime < rebaseThreshold
  start : ∀ q ∈ gs.queued, q.startTime ≤ gs.virtualTime + quantumSpan
  span : ∀ q ∈ gs.queued, q.finishTime ≤ q.startTime + quantumSpan
  tag : ∀ q ∈ gs.queued, ∀ e, activeEntry gs q.entryId = some e → e.lastFinishTime = q.finishTime
  idle : ∀ id e, activeEntry gs id = some e → (∀ q ∈ gs.queued, q.entryId ≠ id) →
    e.lastFinishTime ≤ gs.virtualTime + quantumSpan
  lag : Lag gs.virtualTime gs.queued

/-- Token `s` was taken and charged: the others and the tags of the entries are rebased. -/
structure Turn (gs gs' : GroupScheduler α) (s : SessionState α) (rest : Multiset (SessionState α))
    (v₁ v₂ : ℕ) : Prop where
  queued : gs.queued = s ::ₘ rest
  charge : Charge gs.virtualTime v₁ v₂ s rest
  rest : gs'.queued = rest.map (·.rebase (rebaseOffsetAt v₂))
  clock : gs'.virtualTime = v₂ - rebaseOffsetAt v₂
  entries : ∀ id, activeEntry gs' id = (activeEntry gs id).map fun e =>
    { e with lastFinishTime := rebaseTime (rebaseOffsetAt v₂) e.lastFinishTime }
  rates : ∀ id, rateOf gs' id = rateOf gs id

/-- A dequeue that leaves tokens behind, and its charge, make a turn. -/
theorem Searchable.turn (h : Searchable (⟨mem, gs⟩ : GroupState α)) (hpaced : Paced gs)
    {gs₁ : GroupScheduler α} (hdeq : groupSchedulerDequeue gs = (some s, gs₁)) :
    ∃ v₁ v₂, Turn gs (groupSchedulerUpdateVirtualTime gs₁ tenantQuantumSize) s gs₁.queued v₁ v₂ := by
  obtain ⟨hs, heligible, hleast, hstarted, hjump⟩ := h.selection hdeq
  have hqueued : gs.queued = s ::ₘ gs₁.queued := (dequeue_some h.inv.calendar hdeq).2.2
  have hledger := dequeue_ledger gs
  have hnext := h.step .dequeue
  simp only [GroupState.step, hdeq] at hledger hnext
  have hrest : ∀ q ∈ gs₁.queued, q ∈ gs.queued := fun q hq =>
    hqueued ▸ Multiset.mem_cons_of_mem hq
  have hjumped : gs.virtualTime < gs₁.virtualTime →
      gs₁.virtualTime ≤ s.startTime ∧ ∀ q ∈ gs₁.queued, gs₁.virtualTime ≤ q.startTime := by
    intro hlt
    have hfirst := (hjump hlt).2.2
    exact ⟨hfirst ⟨s, hs, rfl⟩, fun q hq => hfirst ⟨q, hrest q hq, rfl⟩⟩
  obtain ⟨hpos, hdelta⟩ := virtualTimeDelta_quantum gs₁
  have hspan := quantumSpan_eq
  have hnear : gs₁.virtualTime ≤ gs.virtualTime + quantumSpan := by
    have hstart := hpaced.start s hs
    rcases hstarted.lt_or_eq with hlt | heq
    · have := (hjumped hlt).1
      omega
    · omega
  have hadvance : advancedVirtualTime gs₁ tenantQuantumSize =
      max (gs₁.virtualTime + virtualTimeDelta gs₁ tenantQuantumSize) gs₁.minStartTime := by
    have hclock := hpaced.clock
    rw [advancedVirtualTime_eq, if_neg]
    unfold rebaseThreshold at hclock
    unfold uint64Max at hclock ⊢
    omega
  refine ⟨gs₁.virtualTime, advancedVirtualTime gs₁ tenantQuantumSize, hqueued, ?_, ?_, ?_, ?_, ?_⟩
  · refine ⟨heligible, fun q hq => hleast q (hrest q hq), hstarted, hjumped, ?_, ?_⟩
    · rw [hadvance]
      omega
    · intro q hq
      have hmin : gs₁.minStartTime ≤ q.startTime := hnext.cache.least.le q hq
      rw [hadvance]
      omega
  · exact updateVirtualTime_queued gs₁ tenantQuantumSize
  · exact updateVirtualTime_virtualTime gs₁ tenantQuantumSize
  · intro id
    rw [updateVirtualTime_activeEntry hnext.inv.nodup hnext.inv.listed, activeEntry_of_ledger hledger]
    rfl
  · intro id
    rw [rateOf_update hnext.inv.nodup, rateOf_of_ledger hledger]

section Turn
variable {rest : Multiset (SessionState α)} (h : Turn gs gs' s rest v₁ v₂)
include h

theorem Turn.mem_queued {q : SessionState α} (hq : q ∈ rest) : q ∈ gs.queued :=
  h.queued ▸ Multiset.mem_cons_of_mem hq

theorem Turn.mem_rest {q : SessionState α} (hq : q ∈ gs.queued) (hne : q.entryId ≠ s.entryId) :
    q ∈ rest := by
  rw [h.queued] at hq
  rcases Multiset.mem_cons.mp hq with rfl | hq
  · exact absurd rfl hne
  · exact hq

theorem Turn.rebased_mem {q : SessionState α} (hq : q ∈ rest) :
    q.rebase (rebaseOffsetAt v₂) ∈ gs'.queued :=
  h.rest ▸ Multiset.mem_map_of_mem _ hq

/-- The clock before the rebase is near its old value. -/
theorem Turn.near (hpaced : Paced gs) (hmore : rest ≠ 0) :
    v₁ ≤ gs.virtualTime + quantumSpan ∧ v₂ ≤ gs.virtualTime + 2 * quantumSpan := by
  obtain ⟨q, hq⟩ := Multiset.exists_mem_of_ne_zero hmore
  have hbound := h.charge.bound q hq
  have hstart := hpaced.start q (h.mem_queued hq)
  have hfirst : v₁ ≤ gs.virtualTime + quantumSpan := by
    rcases h.charge.started.lt_or_eq with hlt | heq
    · have := (h.charge.jump hlt).2 q hq
      omega
    · omega
  omega

theorem Turn.lag (hpaced : Paced gs) (hinv : GroupInv mem gs)
    (hcard : gs.queued.card ≤ mostTokens) : Lag v₂ rest := by
  have hold := hpaced.lag
  rw [h.queued] at hold hcard
  apply hold.charge h.charge
  · exact fun q hq => (hinv.stamps q (h.mem_queued hq)).1
  · exact (Multiset.card_le_card (Multiset.le_cons_self rest s)).trans hcard

theorem Turn.paced (hpaced : Paced gs) (hinv : GroupInv mem gs) (hmore : rest ≠ 0)
    (hcard : gs.queued.card ≤ mostTokens) : Paced gs' := by
  have hlag := h.lag hpaced hinv hcard
  have hoff := rebaseOffsetAt_le v₂
  have hclock := h.clock
  have hcharge := h.charge
  obtain ⟨hnear₁, hnear₂⟩ := h.near hpaced hmore
  have hbelow := hpaced.clock
  have hspan := quantumSpan_eq
  have hstarted := hcharge.started
  have hadvance := hcharge.advance
  constructor
  · rw [hclock, rebaseOffsetAt]
    unfold rebaseThreshold uint64Max at *
    split_ifs <;> omega
  · rw [h.rest, hclock]
    intro q hq
    obtain ⟨p, hp, rfl⟩ := Multiset.mem_map.mp hq
    have hstart := hpaced.start p (h.mem_queued hp)
    simp only [SessionState.rebase, rebaseTime_eq_sub]
    omega
  · rw [h.rest]
    intro q hq
    obtain ⟨p, hp, rfl⟩ := Multiset.mem_map.mp hq
    have hlength := hpaced.span p (h.mem_queued hp)
    simp only [SessionState.rebase, rebaseTime_eq_sub]
    omega
  · rw [h.rest]
    intro q hq e he
    obtain ⟨p, hp, rfl⟩ := Multiset.mem_map.mp hq
    rw [h.entries] at he
    obtain ⟨e₀, he₀, rfl⟩ := Option.map_eq_some_iff.mp he
    exact congrArg (rebaseTime _) (hpaced.tag p (h.mem_queued hp) e₀ he₀)
  · intro id e he hnone
    rw [h.entries] at he
    obtain ⟨e₀, he₀, rfl⟩ := Option.map_eq_some_iff.mp he
    rw [hclock]
    have hlast : e₀.lastFinishTime ≤ v₂ + quantumSpan := by
      by_cases hid : s.entryId = id
      · have hs : s ∈ gs.queued := h.queued ▸ Multiset.mem_cons_self s rest
        have htag := hpaced.tag s hs e₀ (hid ▸ he₀)
        have hlength := hpaced.span s hs
        have heligible := hcharge.eligible
        omega
      · have hold := hpaced.idle id e₀ he₀ fun q hq heq => by
          have hin := h.mem_rest hq (heq ▸ fun hsame => hid hsame.symm)
          exact hnone _ (h.rebased_mem hin) heq
        omega
    simp only [rebaseTime_eq_sub]
    omega
  · rw [h.rest, hclock]
    exact hlag.rebase hoff fun q hq => hlag.uncut hq

end Turn

/-! ## Adding a token -/

/-- A token for an entry that has none, as `register_tenant_backlog` adds it. -/
structure Gain (gs gs' : GroupScheduler α) (id : ℕ) (entry : EntryConfig) (s : SessionState α) :
    Prop where
  found : groupSchedulerFindEntry gs id = some entry
  none : ∀ q ∈ gs.queued, q.entryId ≠ id
  queued : gs'.queued = s ::ₘ gs.queued
  owner : s.entryId = id
  start : s.startTime = max gs.virtualTime entry.lastFinishTime
  interval : s.serviceInterval = serviceIntervalOf tenantQuantumSize (entryRate gs entry)
  finish : s.finishTime = if s.startTime > uint64Max - s.serviceInterval then uint64Max
    else s.startTime + s.serviceInterval
  clock : gs'.virtualTime = gs.virtualTime
  entries : ∀ j, activeEntry gs' j =
    if j = id then (activeEntry gs j).map fun e => { e with lastFinishTime := s.finishTime }
    else activeEntry gs j
  rates : ∀ j, rateOf gs' j = rateOf gs j

theorem rateOf_enqueued (gs : GroupScheduler α) (s : SessionState α) (id j : ℕ) :
    rateOf (enqueued gs id s) j = rateOf gs j := by
  rw [rateOf_of_ledger (enqueued_ledger id gs s)]
  by_cases hj : j = id
  · subst hj
    unfold rateOf groupSchedulerFindEntry GroupScheduler.writeEntry
    rw [get_write, if_pos rfl]
    cases hwfqChunkedGet gs.entries j with
    | none => rfl
    | some e =>
      cases hconf : e.configured with
      | false => simp [Option.filter_some, hconf]
      | true =>
        simp only [Option.map_some, Option.filter_some, hconf, if_true]
        rfl
  · unfold rateOf groupSchedulerFindEntry GroupScheduler.writeEntry
    rw [get_write_of_ne hj]
    rfl

theorem Admissible.gain {id : ℕ} {entry : EntryConfig}
    (h : Admissible gs id tenantQuantumSize entry) (hnone : ∀ q ∈ gs.queued, q.entryId ≠ id)
    (addr : Addr) (ud : Option α) (cf : Bool) :
    ∃ s, Gain gs (enqueued gs id (newSession gs entry addr id tenantQuantumSize ud cf)) id entry s :=
  ⟨_, h.found, hnone, h.queued addr ud cf, rfl,
    newSession_startTime gs entry addr id tenantQuantumSize ud cf, rfl, rfl, enqueued_virtualTime id,
    enqueued_activeEntry gs _ id, rateOf_enqueued gs _ id⟩

section Gain
variable {id : ℕ} {entry : EntryConfig} (h : Gain gs gs' id entry s)
include h

theorem Gain.last_le (hpaced : Paced gs) :
    entry.lastFinishTime ≤ gs.virtualTime + quantumSpan :=
  hpaced.idle id entry.core (activeEntry_of_find h.found) h.none

theorem Gain.interval_le : s.serviceInterval ≤ quantumSpan := by
  rw [h.interval]
  exact serviceIntervalOf_quantum_le _

/-- No finish time of a token is capped. -/
theorem Gain.finish_eq (hpaced : Paced gs) : s.finishTime = s.startTime + s.serviceInterval := by
  have hlast := h.last_le hpaced
  have hinterval := h.interval_le
  have hclock := hpaced.clock
  have hspan := quantumSpan_eq
  have hfinish := h.finish
  rw [h.start] at hfinish ⊢
  rw [hfinish, if_neg]
  unfold rebaseThreshold at hclock
  unfold uint64Max at hclock ⊢
  omega

theorem Gain.paced (hpaced : Paced gs) (hcard : gs.queued.card < mostTokens) : Paced gs' := by
  have hlast := h.last_le hpaced
  have hinterval := h.interval_le
  have hstart := h.start
  have hfinish := h.finish_eq hpaced
  have hclock := h.clock
  constructor
  · rw [hclock]
    exact hpaced.clock
  · rw [h.queued, hclock]
    intro q hq
    rcases Multiset.mem_cons.mp hq with rfl | hq
    · omega
    · exact hpaced.start q hq
  · rw [h.queued]
    intro q hq
    rcases Multiset.mem_cons.mp hq with rfl | hq
    · omega
    · exact hpaced.span q hq
  · rw [h.queued]
    intro q hq e he
    rw [h.entries] at he
    rcases Multiset.mem_cons.mp hq with rfl | hq
    · rw [if_pos h.owner] at he
      obtain ⟨e₀, -, rfl⟩ := Option.map_eq_some_iff.mp he
      rfl
    · rw [if_neg (h.none q hq)] at he
      exact hpaced.tag q hq e he
  · intro j e he hnone
    rw [h.queued] at hnone
    have hj : j ≠ id := fun heq => hnone s (Multiset.mem_cons_self s _) (heq ▸ h.owner)
    rw [h.entries, if_neg hj] at he
    rw [hclock]
    exact hpaced.idle j e he fun q hq => hnone q (Multiset.mem_cons_of_mem hq)
  · rw [h.queued, hclock]
    apply hpaced.lag.cons
    · omega
    · rw [Multiset.card_cons]
      exact hcard

end Gain

/-! ## Two entries of one rate -/

/-- The start and the finish of the token of an entry, or of the one it would get now. -/
def HasTags (gs : GroupScheduler α) (d id start finish : ℕ) : Prop :=
  (∃ q ∈ gs.queued, q.entryId = id ∧ q.startTime = start ∧ q.finishTime = finish) ∨
    (∀ q ∈ gs.queued, q.entryId ≠ id) ∧ ∃ e, activeEntry gs id = some e ∧
      start = max gs.virtualTime e.lastFinishTime ∧ finish = start + d

/-- A token is `d` long, unless a rebase has cut off a start that was reached already. -/
def Spaced (gs : GroupScheduler α) (d id : ℕ) : Prop :=
  ∀ a b, HasTags gs d id a b → b ≤ a + d ∧ (gs.virtualTime < a → b = a + d)

/-- Of two tokens each may be chosen first: a start that is not reached yet comes before
the finish of the other. -/
def Level (gs : GroupScheduler α) (d i j : ℕ) : Prop :=
  ∀ a b a' b', HasTags gs d i a b → HasTags gs d j a' b' →
    (a ≤ gs.virtualTime ∨ a < b') ∧ (a' ≤ gs.virtualTime ∨ a' < b)

theorem Level.symm {d i j : ℕ} (h : Level gs d i j) : Level gs d j i :=
  fun a b a' b' ha hb => (h a' b' a b hb ha).symm

/-- Entry `i` had one turn more: its token finishes last, and may still be chosen right
after the other. -/
def Ahead (gs : GroupScheduler α) (d i j : ℕ) : Prop :=
  ∀ a b a' b', HasTags gs d i a b → HasTags gs d j a' b' →
    b' < b ∧ (a ≤ gs.virtualTime ∨ a ≤ b')

/-- The turns that two entries have had, `m` and `n`, go with what their tags say. -/
inductive Lead (gs : GroupScheduler α) (d i j : ℕ) : ℕ → ℕ → Prop
  | level {n} (level : Level gs d i j) : Lead gs d i j n n
  | first {n} (ahead : Ahead gs d i j) : Lead gs d i j (n + 1) n
  | second {n} (ahead : Ahead gs d j i) : Lead gs d i j n (n + 1)

theorem Lead.close {d i j n n' : ℕ} (h : Lead gs d i j n n') : n ≤ n' + 1 ∧ n' ≤ n + 1 := by
  cases h with
  | level => omega
  | first => omega
  | second => omega

/-- A scheduler that shows no new tags at the same time. -/
theorem Lead.of_tags {d i j n n' : ℕ} (h : Lead gs d i j n n')
    (hclock : gs'.virtualTime = gs.virtualTime)
    (hi : ∀ {a b}, HasTags gs' d i a b → HasTags gs d i a b)
    (hj : ∀ {a b}, HasTags gs' d j a b → HasTags gs d j a b) : Lead gs' d i j n n' := by
  cases h with
  | level hlevel =>
    apply Lead.level
    intro a b a' b' ha hb
    rw [hclock]
    exact hlevel a b a' b' (hi ha) (hj hb)
  | first hahead =>
    apply Lead.first
    intro a b a' b' ha hb
    rw [hclock]
    exact hahead a b a' b' (hi ha) (hj hb)
  | second hahead =>
    apply Lead.second
    intro a b a' b' ha hb
    rw [hclock]
    exact hahead a b a' b' (hj ha) (hi hb)

/-- A token that is added has the tags that its entry would have got. -/
theorem Gain.hasTags {id d j a b : ℕ} {entry : EntryConfig} (h : Gain gs gs' id entry s)
    (hpaced : Paced gs) (hd : j = id → s.serviceInterval = d) (htags : HasTags gs' d j a b) :
    HasTags gs d j a b := by
  have hclock := h.clock
  rcases htags with ⟨q, hq, hid, rfl, rfl⟩ | ⟨hnone, e, he, rfl, rfl⟩
  · rw [h.queued] at hq
    rcases Multiset.mem_cons.mp hq with rfl | hq
    · have hj : j = id := hid.symm.trans h.owner
      subst hj
      refine .inr ⟨h.none, entry.core, activeEntry_of_find h.found, h.start, ?_⟩
      rw [h.finish_eq hpaced, hd rfl]
    · exact .inl ⟨q, hq, hid, rfl, rfl⟩
  · rw [h.queued] at hnone
    have hj : j ≠ id := fun heq => hnone s (Multiset.mem_cons_self s _) (heq ▸ h.owner)
    rw [h.entries, if_neg hj] at he
    rw [hclock]
    exact .inr ⟨fun q hq => hnone q (Multiset.mem_cons_of_mem hq), e, he, rfl, rfl⟩

theorem Gain.spaced {id d j : ℕ} {entry : EntryConfig} (h : Gain gs gs' id entry s)
    (hpaced : Paced gs) (hd : j = id → s.serviceInterval = d) (hspaced : Spaced gs d j) :
    Spaced gs' d j := by
  intro a b htags
  rw [h.clock]
  exact hspaced a b (h.hasTags hpaced hd htags)

section Turn
variable {rest : Multiset (SessionState α)} (h : Turn gs gs' s rest v₁ v₂) {d j a b : ℕ}
include h

/-- A token that stays is rebased. -/
theorem Turn.hasTags_kept (hin : ∃ q ∈ gs.queued, q.entryId = j) (hne : j ≠ s.entryId)
    (htags : HasTags gs' d j a b) : ∃ q ∈ rest, q.entryId = j ∧
      a = q.startTime - rebaseOffsetAt v₂ ∧ b = q.finishTime - rebaseOffsetAt v₂ := by
  rcases htags with ⟨q, hq, hid, rfl, rfl⟩ | ⟨hnone, -⟩
  · rw [h.rest] at hq
    obtain ⟨p, hp, rfl⟩ := Multiset.mem_map.mp hq
    exact ⟨p, hp, hid, rebaseTime_eq_sub _ _, rebaseTime_eq_sub _ _⟩
  · obtain ⟨q, hq, rfl⟩ := hin
    have hstays := hnone _ (h.rebased_mem (h.mem_rest hq hne))
    exact absurd rfl hstays

/-- The entry that had its turn would start again at the clock or where its token finished. -/
theorem Turn.hasTags_taken (hpaced : Paced gs) (hids : (gs.queued.map (·.entryId)).Nodup)
    (htags : HasTags gs' d s.entryId a b) :
    a = max v₂ s.finishTime - rebaseOffsetAt v₂ ∧ b = a + d := by
  rcases htags with ⟨q, hq, hid, rfl, rfl⟩ | ⟨-, e, he, rfl, rfl⟩
  · rw [h.queued, Multiset.map_cons, Multiset.nodup_cons] at hids
    rw [h.rest] at hq
    obtain ⟨p, hp, rfl⟩ := Multiset.mem_map.mp hq
    have hp' : p.entryId ∈ rest.map (·.entryId) := Multiset.mem_map_of_mem (·.entryId) hp
    have hsame : p.entryId = s.entryId := hid
    exact absurd (hsame ▸ hp') hids.1
  · rw [h.entries] at he
    obtain ⟨e₀, he₀, rfl⟩ := Option.map_eq_some_iff.mp he
    have hs : s ∈ gs.queued := h.queued ▸ Multiset.mem_cons_self s rest
    have htag := hpaced.tag s hs e₀ he₀
    dsimp only
    rw [h.clock, rebaseTime_eq_sub, htag]
    exact ⟨Nat.sub_max_sub_right _ _ _, rfl⟩

theorem Turn.spaced (hpaced : Paced gs) (hids : (gs.queued.map (·.entryId)).Nodup)
    (hin : ∃ q ∈ gs.queued, q.entryId = j) (hspaced : Spaced gs d j) : Spaced gs' d j := by
  intro a b htags
  by_cases hj : j = s.entryId
  · subst hj
    have := (h.hasTags_taken hpaced hids htags).2
    omega
  · obtain ⟨q, hq, hid, rfl, rfl⟩ := h.hasTags_kept hin hj htags
    have hold := hspaced _ _ (.inl ⟨q, h.mem_queued hq, hid, rfl, rfl⟩)
    have hclock := h.clock
    have hstarted := h.charge.started
    have hadvance := h.charge.advance
    have hoff := rebaseOffsetAt_le v₂
    omega

end Turn

/-- What two entries rely on when a token is taken while both have theirs. -/
structure Waiting (gs : GroupScheduler α) (d i j : ℕ) : Prop where
  paced : Paced gs
  positive : 0 < d
  distinct : (gs.queued.map (·.entryId)).Nodup
  first : ∃ q ∈ gs.queued, q.entryId = i
  second : ∃ q ∈ gs.queued, q.entryId = j
  firstSpaced : Spaced gs d i
  secondSpaced : Spaced gs d j

theorem Waiting.symm {d i j : ℕ} (h : Waiting gs d i j) : Waiting gs d j i :=
  ⟨h.paced, h.positive, h.distinct, h.second, h.first, h.secondSpaced, h.firstSpaced⟩

section Lead
variable {rest : Multiset (SessionState α)} (h : Turn gs gs' s rest v₁ v₂) {d i j n n' : ℕ}
  (hwait : Waiting gs d i j)
include h hwait

/-- A turn of neither entry. -/
theorem Turn.level_kept (hi : i ≠ s.entryId) (hj : j ≠ s.entryId) (hlevel : Level gs d i j) :
    Level gs' d i j := by
  intro a b a' b' ha hb
  obtain ⟨p, hp, hpid, rfl, rfl⟩ := h.hasTags_kept hwait.first hi ha
  obtain ⟨q, hq, hqid, rfl, rfl⟩ := h.hasTags_kept hwait.second hj hb
  have hold := hlevel _ _ _ _ (.inl ⟨p, h.mem_queued hp, hpid, rfl, rfl⟩)
    (.inl ⟨q, h.mem_queued hq, hqid, rfl, rfl⟩)
  have hclock := h.clock
  have hstarted := h.charge.started
  have hadvance := h.charge.advance
  omega

theorem Turn.ahead_kept (hlag : Lag v₂ rest) (hi : i ≠ s.entryId) (hj : j ≠ s.entryId)
    (hahead : Ahead gs d i j) : Ahead gs' d i j := by
  intro a b a' b' ha hb
  obtain ⟨p, hp, hpid, rfl, rfl⟩ := h.hasTags_kept hwait.first hi ha
  obtain ⟨q, hq, hqid, rfl, rfl⟩ := h.hasTags_kept hwait.second hj hb
  have hold := hahead _ _ _ _ (.inl ⟨p, h.mem_queued hp, hpid, rfl, rfl⟩)
    (.inl ⟨q, h.mem_queued hq, hqid, rfl, rfl⟩)
  have hclock := h.clock
  have hstarted := h.charge.started
  have hadvance := h.charge.advance
  have huncut := hlag.uncut hq
  omega

/-- When neither was ahead, the entry that is served is ahead afterwards. -/
theorem Turn.level_served (hi : i = s.entryId) (hj : j ≠ s.entryId) (hlevel : Level gs d i j) :
    Ahead gs' d i j := by
  subst hi
  intro a b a' b' ha hb
  obtain ⟨rfl, rfl⟩ := h.hasTags_taken hwait.paced hwait.distinct ha
  obtain ⟨q, hq, hqid, rfl, rfl⟩ := h.hasTags_kept hwait.second hj hb
  have hs : s ∈ gs.queued := h.queued ▸ Multiset.mem_cons_self s rest
  have htags : HasTags gs d s.entryId s.startTime s.finishTime := .inl ⟨s, hs, rfl, rfl, rfl⟩
  have htags' : HasTags gs d j q.startTime q.finishTime :=
    .inl ⟨q, h.mem_queued hq, hqid, rfl, rfl⟩
  have hold := hlevel _ _ _ _ htags htags'
  have hspaced := hwait.firstSpaced _ _ htags
  have hspaced' := hwait.secondSpaced _ _ htags'
  have hclock := h.clock
  have hstarted := h.charge.started
  have hadvance := h.charge.advance
  have heligible := h.charge.eligible
  have hleast := h.charge.least q hq
  have hpos := hwait.positive
  have hoff := rebaseOffsetAt_le v₂
  omega

/-- The entry that is ahead is not served while the other waits. -/
theorem Turn.ahead_waits (hahead : Ahead gs d i j) : i ≠ s.entryId := by
  rintro rfl
  obtain ⟨q, hq, hqid⟩ := hwait.second
  have hs : s ∈ gs.queued := h.queued ▸ Multiset.mem_cons_self s rest
  have htags : HasTags gs d s.entryId s.startTime s.finishTime := .inl ⟨s, hs, rfl, rfl, rfl⟩
  have htags' : HasTags gs d j q.startTime q.finishTime := .inl ⟨q, hq, hqid, rfl, rfl⟩
  have hold := hahead _ _ _ _ htags htags'
  have hspaced := hwait.firstSpaced _ _ htags
  have hspaced' := hwait.secondSpaced _ _ htags'
  have hstarted := h.charge.started
  have heligible := h.charge.eligible
  rw [h.queued] at hq
  rcases Multiset.mem_cons.mp hq with rfl | hq
  · omega
  · have hleast := h.charge.least q hq
    omega

/-- When the other was ahead, neither is once the entry is served. -/
theorem Turn.ahead_served (hi : i ≠ s.entryId) (hj : j = s.entryId) (hahead : Ahead gs d i j) :
    Level gs' d i j := by
  subst hj
  intro a b a' b' ha hb
  obtain ⟨p, hp, hpid, rfl, rfl⟩ := h.hasTags_kept hwait.first hi ha
  obtain ⟨rfl, rfl⟩ := h.hasTags_taken hwait.paced hwait.distinct hb
  have hs : s ∈ gs.queued := h.queued ▸ Multiset.mem_cons_self s rest
  have hold := hahead _ _ _ _ (.inl ⟨p, h.mem_queued hp, hpid, rfl, rfl⟩)
    (.inl ⟨s, hs, rfl, rfl, rfl⟩)
  have hclock := h.clock
  have hstarted := h.charge.started
  have hadvance := h.charge.advance
  have hpos := hwait.positive
  have hoff := rebaseOffsetAt_le v₂
  omega

/-- The lead of one entry over the other after a turn. -/
theorem Turn.lead (hlag : Lag v₂ rest) (hij : i ≠ j) (hlead : Lead gs d i j n n') :
    Lead gs' d i j (n + if s.entryId = i then 1 else 0) (n' + if s.entryId = j then 1 else 0) := by
  cases hlead with
  | level hlevel =>
    by_cases hi : i = s.entryId
    · have hj : j ≠ s.entryId := fun heq => hij (hi.trans heq.symm)
      rw [if_pos hi.symm, if_neg (Ne.symm hj)]
      exact .first (h.level_served hwait hi hj hlevel)
    · by_cases hj : j = s.entryId
      · rw [if_neg (Ne.symm hi), if_pos hj.symm]
        exact .second (h.level_served hwait.symm hj hi hlevel.symm)
      · rw [if_neg (Ne.symm hi), if_neg (Ne.symm hj)]
        exact .level (h.level_kept hwait hi hj hlevel)
  | first hahead =>
    have hi := h.ahead_waits hwait hahead
    rw [if_neg (Ne.symm hi)]
    by_cases hj : j = s.entryId
    · rw [if_pos hj.symm]
      exact .level (h.ahead_served hwait hi hj hahead)
    · rw [if_neg (Ne.symm hj)]
      exact .first (h.ahead_kept hwait hlag hi hj hahead)
  | second hahead =>
    have hj := h.ahead_waits hwait.symm hahead
    rw [if_neg (Ne.symm hj)]
    by_cases hi : i = s.entryId
    · rw [if_pos hi.symm]
      exact .level (h.ahead_served hwait.symm hj hi hahead).symm
    · rw [if_neg (Ne.symm hi)]
      exact .second (h.ahead_kept hwait.symm hlag hj hi hahead)

end Lead

/-! ## Turns along a trace -/

/-- Two entries of rate `r` that have had `n` and `n'` turns. -/
structure TakingTurns (gs : GroupScheduler α) (r i j n n' : ℕ) : Prop where
  paced : Paced gs
  firstRate : rateOf gs i = some r
  secondRate : rateOf gs j = some r
  firstSpaced : Spaced gs (serviceIntervalOf tenantQuantumSize r) i
  secondSpaced : Spaced gs (serviceIntervalOf tenantQuantumSize r) j
  lead : Lead gs (serviceIntervalOf tenantQuantumSize r) i j n n'

variable {r i j n n' : ℕ}

theorem TakingTurns.gain {id : ℕ} {entry : EntryConfig} (h : TakingTurns gs r i j n n')
    (hgain : Gain gs gs' id entry s) (hcard : gs.queued.card < mostTokens) :
    TakingTurns gs' r i j n n' := by
  have hinterval : ∀ {k}, rateOf gs k = some r → k = id →
      s.serviceInterval = serviceIntervalOf tenantQuantumSize r := by
    rintro k hrate rfl
    rw [rateOf, hgain.found, Option.map_some, Option.some.injEq] at hrate
    rw [hgain.interval, hrate]
  have hfirst := hinterval h.firstRate
  have hsecond := hinterval h.secondRate
  constructor
  · exact hgain.paced h.paced hcard
  · exact (hgain.rates i).trans h.firstRate
  · exact (hgain.rates j).trans h.secondRate
  · exact hgain.spaced h.paced hfirst h.firstSpaced
  · exact hgain.spaced h.paced hsecond h.secondSpaced
  · exact h.lead.of_tags hgain.clock (hgain.hasTags h.paced hfirst) (hgain.hasTags h.paced hsecond)

/-- A trace that ends with one token an entry at most has given no entry a second one. -/
theorem TakingTurns.trace (h : TakingTurns gs r i j n n') (htrace : TokenTrace gs gs')
    (hids : (gs'.queued.map (·.entryId)).Nodup) (hcard : gs'.queued.card ≤ mostTokens) :
    TakingTurns gs' r i j n n' := by
  induction htrace with
  | refl => exact h
  | @enqueue gs₁ mem id ud cf htrace ih =>
    rcases enqueue_cases mem gs₁ id tenantQuantumSize ud cf with
      ⟨-, heq, -⟩ | ⟨-, -, -, -, entry, hadm, heq⟩
    · rw [heq] at hids hcard ⊢
      exact ih hids hcard
    · rw [heq] at hids hcard ⊢
      have hqueued := hadm.queued mem.next ud cf
      rw [hqueued, Multiset.map_cons, Multiset.nodup_cons] at hids
      rw [hqueued, Multiset.card_cons] at hcard
      have hnone : ∀ q ∈ gs₁.queued, q.entryId ≠ id := by
        rintro q hq rfl
        have hin : q.entryId ∈ gs₁.queued.map (·.entryId) :=
          Multiset.mem_map_of_mem (·.entryId) hq
        exact hids.1 hin
      obtain ⟨token, hgain⟩ := hadm.gain hnone mem.next ud cf
      exact (ih hids.2 (Nat.le_of_succ_le hcard)).gain hgain hcard

/-- A token is taken while both entries have theirs. -/
theorem TakingTurns.turn {rest : Multiset (SessionState α)} (h : TakingTurns gs r i j n n')
    (hturn : Turn gs gs' s rest v₁ v₂) (hinv : GroupInv mem gs)
    (hids : (gs.queued.map (·.entryId)).Nodup) (hcard : gs.queued.card ≤ mostTokens)
    (hij : i ≠ j) (hi : ∃ q ∈ gs.queued, q.entryId = i) (hj : ∃ q ∈ gs.queued, q.entryId = j) :
    TakingTurns gs' r i j (n + if s.entryId = i then 1 else 0)
      (n' + if s.entryId = j then 1 else 0) := by
  have hwait : Waiting gs (serviceIntervalOf tenantQuantumSize r) i j :=
    ⟨h.paced, serviceIntervalOf_pos _ _, hids, hi, hj, h.firstSpaced, h.secondSpaced⟩
  have hmore : rest ≠ 0 := by
    rintro rfl
    obtain ⟨p, hp, rfl⟩ := hi
    obtain ⟨q, hq, rfl⟩ := hj
    rw [hturn.queued, Multiset.mem_cons] at hp hq
    rcases hp with rfl | hp
    · rcases hq with rfl | hq
      · exact hij rfl
      · exact Multiset.notMem_zero _ hq
    · exact Multiset.notMem_zero _ hp
  constructor
  · exact hturn.paced h.paced hinv hmore hcard
  · exact (hturn.rates i).trans h.firstRate
  · exact (hturn.rates j).trans h.secondRate
  · exact hturn.spaced h.paced hids hi h.firstSpaced
  · exact hturn.spaced h.paced hids hj h.secondSpaced
  · exact hturn.lead hwait (hturn.lag h.paced hinv hcard) hij h.lead

end Hwfq
