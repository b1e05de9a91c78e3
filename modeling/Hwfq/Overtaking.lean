import Hwfq.FlowEffects
import Hwfq.TokenTurns

/-!
# Sessions that are overtaken

A session that starts no earlier than another one of its queue and finishes after it is not
chosen while the other is queued. This says of what an entry queues that it is overtaken,
before it is queued: neither the clock nor the finish tag of the entry ever falls behind.
-/
namespace Hwfq

variable {α : Type*} {gs gs' : GroupScheduler α} {mem : Allocator} {q : SessionState α} {id w : ℕ}
  {mine : SessionState α → Prop}

/-- A session of `w` work units that entry `id` queues now starts no earlier than `q` and
finishes after it. -/
def Outruns (gs : GroupScheduler α) (q : SessionState α) (id w : ℕ) : Prop :=
  ∀ last ∈ finishTag gs id, ∀ rate ∈ rateOf gs id,
    q.startTime ≤ max gs.virtualTime last ∧
      q.finishTime < min (max gs.virtualTime last + serviceIntervalOf w rate) uint64Max

instance (gs : GroupScheduler α) (q : SessionState α) (id w : ℕ) : Decidable (Outruns gs q id w) :=
  inferInstanceAs (Decidable (∀ last ∈ finishTag gs id, ∀ rate ∈ rateOf gs id, _ ∧ _))

/-- A session of `others` outruns what entry `id` queues now in sessions of `w` work units. -/
def HasRival (gs : GroupScheduler α) (others : SessionState α → Prop) (id w : ℕ) : Prop :=
  ∃ q ∈ gs.queued, others q ∧ Outruns gs q id w

instance (gs : GroupScheduler α) (others : SessionState α → Prop) [DecidablePred others] (id w : ℕ) :
    Decidable (HasRival gs others id w) := Multiset.decidableExistsMultiset

/-- Time has passed, and `off` was taken off every time stamp. -/
theorem Outruns.later (h : Outruns gs q id w) {off : ℕ} (hrate : rateOf gs' id = rateOf gs id)
    (htag : ∀ last' ∈ finishTag gs' id, ∃ last ∈ finishTag gs id,
      max gs.virtualTime last ≤ max gs'.virtualTime last' + off) :
    Outruns gs' (q.rebase off) id w := by
  intro last' hlast' rate hr
  obtain ⟨last, hlast, hpassed⟩ := htag last' hlast'
  obtain ⟨hstart, hfinish⟩ := h last hlast rate (hrate ▸ hr)
  have hpos := serviceIntervalOf_pos w rate
  have hone := one_lt_uint64Max
  rw [rebase_startTime, rebase_finishTime]
  omega

theorem newSession_finish_min (gs : GroupScheduler α) (e : EntryConfig) (addr id w : ℕ) (ud : Option α)
    (cf : Bool) : (newSession gs e addr id w ud cf).finishTime =
      min (max gs.virtualTime e.lastFinishTime + serviceIntervalOf w (entryRate gs e)) uint64Max := by
  have hinterval : (newSession gs e addr id w ud cf).serviceInterval =
    serviceIntervalOf w (entryRate gs e) := rfl
  have hshort := serviceIntervalOf_le w (entryRate gs e)
  rw [newSession_finishTime, newSession_startTime, hinterval]
  split_ifs <;> omega

theorem finishTag_of_find {e : EntryConfig} (he : groupSchedulerFindEntry gs id = some e) :
    finishTag gs id = some e.lastFinishTime := by
  rw [finishTag, activeEntry_of_find he]
  rfl

/-- What the entry queues is overtaken. -/
theorem Outruns.session (h : Outruns gs q id w) {e : EntryConfig}
    (he : groupSchedulerFindEntry gs id = some e) (addr : Addr) (ud : Option α) (cf : Bool) :
    q.startTime ≤ (newSession gs e addr id w ud cf).startTime ∧
      q.finishTime < (newSession gs e addr id w ud cf).finishTime := by
  rw [newSession_startTime, newSession_finish_min]
  exact h e.lastFinishTime (finishTag_of_find he) (entryRate gs e) (by rw [rateOf, he]; rfl)

/-! ## Queues -/

/-- `q` is queued and stands in front of every session of `mine`. -/
structure Passed (gs : GroupScheduler α) (q : SessionState α) (mine : SessionState α → Prop) :
    Prop where
  queued : q ∈ gs.queued
  front : ∀ p ∈ gs.queued, mine p → q.startTime ≤ p.startTime ∧ q.finishTime < p.finishTime

/-- A session that is passed is not chosen. -/
theorem Passed.not_chosen (h : Passed gs q mine) (hsearch : Searchable (⟨mem, gs⟩ : GroupState α))
    {p : SessionState α} (hdeq : groupSchedulerDequeue gs = (some p, gs')) : ¬ mine p := by
  intro hmine
  obtain ⟨hp, hstarted, hleast, -⟩ := hsearch.selection hdeq
  obtain ⟨hstart, hfinish⟩ := h.front p hp hmine
  have hfirst := hleast q h.queued (hstart.trans hstarted)
  omega

/-- `q` stands in front of `mine`, and of what entry `id` queues in sessions of size `w`. -/
structure Leads (gs : GroupScheduler α) (q : SessionState α) (id w : ℕ)
    (mine : SessionState α → Prop) : Prop where
  passed : Passed gs q mine
  outruns : Outruns gs q id w
  clock : gs.virtualTime ≤ uint64Max
  tag : ∀ last ∈ finishTag gs id, last ≤ uint64Max

theorem finishTag_enqueued (gs : GroupScheduler α) (p : SessionState α) (j id : ℕ) :
    finishTag (enqueued gs j p) id =
      if id = j then (finishTag gs id).map fun _ => p.finishTime else finishTag gs id := by
  unfold finishTag
  rw [enqueued_activeEntry]
  split_ifs
  · rw [Option.map_map, Option.map_map]
    rfl
  · rfl

/-- A new session is one that `q` outruns, or it is not of `mine`. -/
theorem Leads.enqueue (h : Leads gs q id w mine) (mem : Allocator) {j v : ℕ}
    (hnew : j = id ∧ v = w ∨ ∀ p, p.entryId = j → ¬ mine p) (ud : Option α) (cf : Bool) :
    Leads (groupSchedulerEnqueue mem gs j v ud cf).gs q id w mine := by
  rcases enqueue_cases mem gs j v ud cf with ⟨-, heq, -⟩ | ⟨-, -, -, -, e, hadm, heq⟩
  · rwa [heq]
  rw [heq]
  have hqueued := hadm.queued mem.next ud cf
  have hclock := h.clock
  constructor
  · constructor
    · rw [hqueued]
      exact Multiset.mem_cons_of_mem h.passed.queued
    · rw [hqueued]
      intro p hp hmine
      rcases Multiset.mem_cons.mp hp with rfl | hp
      · rcases hnew with ⟨rfl, rfl⟩ | hothers
        · exact h.outruns.session hadm.found mem.next ud cf
        · exact absurd hmine (hothers _ rfl)
      · exact h.passed.front p hp hmine
  · -- the tag of the entry only grows
    rw [← q.rebase_zero]
    apply h.outruns.later (rateOf_enqueued gs _ j id)
    intro last' hlast'
    rw [finishTag_enqueued] at hlast'
    rw [enqueued_virtualTime]
    split_ifs at hlast' with hj
    · obtain ⟨last, hlast, rfl⟩ := Option.mem_map.mp hlast'
      have htag := h.tag last hlast
      subst hj
      rw [finishTag_of_find hadm.found, Option.mem_some_iff] at hlast
      rw [newSession_finish_min]
      exact ⟨_, finishTag_of_find hadm.found, by omega⟩
    · exact ⟨last', hlast', le_rfl⟩
  · rw [enqueued_virtualTime]
    exact hclock
  · intro last' hlast'
    rw [finishTag_enqueued] at hlast'
    split_ifs at hlast' with hj
    · obtain ⟨last, -, rfl⟩ := Option.mem_map.mp hlast'
      rw [newSession_finish_min]
      exact min_le_right _ _
    · exact h.tag last' hlast'

/-- Tokens are put in. -/
theorem Leads.trace (h : Leads gs q id tenantQuantumSize (·.entryId = id)) (htrace : TokenTrace gs gs') :
    Leads gs' q id tenantQuantumSize (·.entryId = id) := by
  induction htrace with
  | refl => exact h
  | enqueue mem j ud cf _ ih =>
    apply ih.enqueue mem
    by_cases hj : j = id
    · exact .inl ⟨hj, rfl⟩
    · right
      rintro p rfl
      exact hj

/-! ## The clock moves -/

theorem Outruns.dequeue (h : Outruns gs q id w) (hcal : CalendarInv gs) {p : SessionState α}
    (hdeq : groupSchedulerDequeue gs = (some p, gs')) : Outruns gs' q id w := by
  have hledger : gs'.ledger = gs.ledger := by
    have hsame := dequeue_ledger gs
    rwa [hdeq] at hsame
  obtain ⟨-, hstate, -⟩ := dequeue_some hcal hdeq
  have hclock : gs.virtualTime ≤ gs'.virtualTime := by
    rw [hstate, dequeued_virtualTime]
    exact virtualTime_le_dequeueTime gs
  rw [← q.rebase_zero]
  apply h.later (rateOf_of_ledger hledger id)
  intro last hlast
  rw [finishTag, activeEntry_of_ledger hledger] at hlast
  exact ⟨last, hlast, by omega⟩

/-- The clock is charged and perhaps rebased. -/
theorem Outruns.update (h : Outruns gs q id w) (hinv : GroupInv mem gs) (work : ℕ) :
    Outruns (groupSchedulerUpdateVirtualTime gs work) (q.rebase (updateOffset gs work)) id w := by
  apply h.later (rateOf_update hinv.nodup work id)
  intro last' hlast'
  unfold finishTag at hlast' ⊢
  rw [updateVirtualTime_activeEntry hinv.nodup hinv.listed] at hlast'
  obtain ⟨e', he', rfl⟩ := Option.mem_map.mp hlast'
  obtain ⟨e, he, rfl⟩ := Option.map_eq_some_iff.mp he'
  refine ⟨e.lastFinishTime, Option.mem_map_of_mem _ he, ?_⟩
  have hlater := virtualTime_le_advanced hinv.clock.le work
  rw [updateVirtualTime_virtualTime]
  dsimp only
  rw [rebaseTime_eq_sub]
  omega

/-- No session of `mine` is queued yet. -/
theorem Outruns.leads (h : Outruns gs q id w) (hinv : GroupInv mem gs) (hq : q ∈ gs.queued)
    (hnone : ∀ p ∈ gs.queued, ¬ mine p) : Leads gs q id w mine := by
  constructor
  · exact ⟨hq, fun p hp hmine => absurd hmine (hnone p hp)⟩
  · exact h
  · exact hinv.clock.le
  · intro last hlast
    obtain ⟨e, he, rfl⟩ := Option.mem_map.mp hlast
    exact hinv.tags id e he

end Hwfq
