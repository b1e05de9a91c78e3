import Hwfq.BoundedLateness
import Hwfq.CrowdedQueue
import Hwfq.IdealScheduler
import Hwfq.TokenTurns

/-!
# The token queue as an ideal queue

All tokens of the system scheduler stand for the same amount of work, a tenant has at most one
of them, and a store has at most `2^30` entries. So no finish of a token is ever capped, and no
rebase cuts one off: the token queue does what the ideal queue does, whatever the weights of
the tenants are.
-/
namespace Hwfq
open GuardedRuns IdealQueue

variable {α : Type*} {gs gs' : GroupScheduler α} {mem : Allocator} {off cap : ℕ} {span : ℕ → ℕ}
  {ideal ideal' : IdealQueue.State ℕ (SessionState α)}

/-- What the clock is charged for a token. -/
def tokenCharge (cap : ℕ) : ℕ := advanceAt cap (chargedWork tenantQuantumSize)

/-- How long a token of an entry is. -/
def tokenSpan (gs : GroupScheduler α) (id : ℕ) : ℕ :=
  ((rateOf gs id).map (serviceIntervalOf tenantQuantumSize)).getD 0

theorem tokenCharge_le (gs : GroupScheduler α) :
    0 < tokenCharge gs.totalCapacity ∧ tokenCharge gs.totalCapacity ≤ quantumSpan :=
  virtualTimeDelta_quantum gs

theorem tokenSpan_le (gs : GroupScheduler α) (id : ℕ) : tokenSpan gs id ≤ quantumSpan := by
  unfold tokenSpan
  cases rateOf gs id with
  | none => exact Nat.zero_le _
  | some r => exact serviceIntervalOf_quantum_le r

/-- The share of every tenant is within what it has reserved. -/
def SharesTokens (span : ℕ → ℕ) (charge : ℕ) (S : Shares ℕ) : Prop :=
  ∀ i, 0 < span i → Priced S charge i (span i) charge

/-- An event of a queue of tokens. -/
def TokenEvent (span : ℕ → ℕ) (charge : ℕ) : Event ℕ (SessionState α) → Prop
  | .arrive i length cost _ => length = span i ∧ cost = charge
  | .take _ => True
  | .advance c => c = charge
  | .clear _ => False

/-- The entries whose tokens are taken by the events, in their order. -/
def taken (es : List (Event ℕ (SessionState α))) : List ℕ :=
  es.filterMap fun
    | .take item => some item.entryId
    | _ => none

/-- The tokens of a scheduler and the ideal queue that they follow. -/
structure TokenQueue (span : ℕ → ℕ) (off cap : ℕ) (gs : GroupScheduler α)
    (ideal : IdealQueue.State ℕ (SessionState α)) : Prop where
  implements : Implements off cap gs ideal
  spans : ∀ i, tokenSpan gs i = span i
  uniform : ∀ q ∈ ideal.queue, q.cost = tokenCharge cap
  due : ideal.due = 0
  clock : gs.virtualTime ≤ 2 ^ 63
  solo : Solo span ideal
  crowd : Crowd mostTokens quantumSpan ideal
  punctual : ∀ S, SharesTokens span (tokenCharge cap) S → Punctual S (tokenCharge cap) ideal

section TokenQueue
variable (h : TokenQueue span off cap gs ideal)
include h

theorem TokenQueue.span_le (i : ℕ) : span i ≤ quantumSpan := h.spans i ▸ tokenSpan_le gs i

theorem TokenQueue.charge_le : 0 < tokenCharge cap ∧ tokenCharge cap ≤ quantumSpan :=
  h.implements.capacity ▸ tokenCharge_le gs

theorem TokenQueue.card_eq : ideal.queue.card = gs.queued.card :=
  (Multiset.card_eq_card_of_rel h.implements.queue).symm

/-! ## Adding a token -/

theorem TokenQueue.enqueued {id : ℕ} {entry : EntryConfig}
    (hadm : Admissible gs id tenantQuantumSize entry) (hnone : ∀ q ∈ gs.queued, q.entryId ≠ id)
    (hcard : gs.queued.card < mostTokens) (addr : Addr) (ud : Option α) (cf : Bool) :
    ∃ ideal', IdealQueue.Step ideal
        (.arrive id (span id) (tokenCharge cap)
          (newSession gs entry addr id tenantQuantumSize ud cf).untimed) ideal' ∧
      TokenQueue span off cap
        (Hwfq.enqueued gs id (newSession gs entry addr id tenantQuantumSize ud cf)) ideal' := by
  have hspan : span id = serviceIntervalOf tenantQuantumSize (entryRate gs entry) := by
    rw [← h.spans id, tokenSpan, rateOf, hadm.found]
    rfl
  have hfree : ∀ q ∈ ideal.queue, q.flow ≠ id := by
    intro q hq
    obtain ⟨s, hs, hstands⟩ := h.implements.session_of hq
    rw [hstands.flow]
    exact hnone s hs
  have hidle := h.solo.idle id hfree
  have htag := h.implements.tags id entry.core (activeEntry_of_find hadm.found)
  have hcore : entry.core.lastFinishTime = entry.lastFinishTime := rfl
  have hclock := h.implements.clock
  have hvt := h.clock
  have hshort := h.span_le id
  have hquantum := quantumSpan_eq
  have hmost := mostTokens_eq
  have hroom : max gs.virtualTime entry.lastFinishTime +
      serviceIntervalOf tenantQuantumSize (entryRate gs entry) < uint64Max := by
    rw [← hspan]
    unfold uint64Max
    omega
  have hfew : gs.queued.card < uint32Max := by
    unfold uint32Max
    omega
  obtain ⟨ideal', hstep, hnext⟩ := h.implements.enqueued hadm hroom hfew addr ud cf
  rw [← hspan] at hstep
  refine ⟨ideal', hstep, ?_⟩
  have hpunctual : ∀ S, SharesTokens span (tokenCharge cap) S →
      Punctual S (tokenCharge cap) ideal' := by
    intro S hS
    have hpos : 0 < span id := hspan ▸ serviceIntervalOf_pos _ _
    exact (h.punctual S hS).step hstep ⟨hpos, hS id hpos⟩
  have hsolo := h.solo.arrive hfree (tokenCharge cap)
    (newSession gs entry addr id tenantQuantumSize ud cf).untimed
  have hcrowd := h.crowd.arrive id (span id)
    (newSession gs entry addr id tenantQuantumSize ud cf).untimed h.charge_le.2
    (h.card_eq.trans_lt hcard)
  cases hstep
  constructor
  · exact hnext
  · intro i
    rw [tokenSpan, rateOf_enqueued]
    exact h.spans i
  · intro q hq
    rcases Multiset.mem_cons.mp hq with rfl | hq
    · rfl
    · exact h.uniform q hq
  · exact h.due
  · rw [enqueued_virtualTime]
    exact hvt
  · exact hsolo
  · exact hcrowd
  · exact hpunctual

/-- A trace that ends with one token an entry at most has put in tokens of entries that had
none. -/
theorem TokenQueue.trace (htrace : TokenTrace gs gs') (hids : (gs'.queued.map (·.entryId)).Nodup)
    (hcard : gs'.queued.card ≤ mostTokens) :
    ∃ ideal' es, IdealQueue.Run IdealQueue.Step ideal es ideal' ∧
      (∀ e ∈ es, TokenEvent span (tokenCharge cap) e) ∧ taken es = [] ∧
      IdealQueue.charged es = 0 ∧ TokenQueue span off cap gs' ideal' := by
  induction htrace with
  | refl => exact ⟨ideal, [], .nil _, by simp, rfl, rfl, h⟩
  | @enqueue gs₁ mem id ud cf htrace ih =>
    rcases enqueue_cases mem gs₁ id tenantQuantumSize ud cf with
      ⟨-, heq, -⟩ | ⟨-, -, -, -, entry, hadm, heq⟩
    · rw [heq] at hids hcard ⊢
      exact ih hids hcard
    · rw [heq] at hids hcard ⊢
      have hqueued := hadm.queued mem.next ud cf
      rw [hqueued, Multiset.map_cons, Multiset.nodup_cons] at hids
      rw [hqueued, Multiset.card_cons] at hcard
      have hnone : ∀ q ∈ gs₁.queued, q.entryId ≠ id := by
        rintro q hq rfl
        have hin : q.entryId ∈ gs₁.queued.map (·.entryId) :=
          Multiset.mem_map_of_mem (·.entryId) hq
        exact hids.1 hin
      obtain ⟨ideal₁, es, hrun, hevents, htaken, hcharged, hnext⟩ :=
        ih hids.2 (Nat.le_of_succ_le hcard)
      obtain ⟨ideal', hstep, hlast⟩ := hnext.enqueued hadm hnone hcard mem.next ud cf
      refine ⟨ideal', es ++ [_], hrun.append (.single hstep), ?_, ?_, ?_, hlast⟩
      · intro e he
        rcases List.mem_append.mp he with he | he
        · exact hevents e he
        · rw [List.mem_singleton.mp he]
          exact ⟨rfl, rfl⟩
      · rw [taken, List.filterMap_append, ← taken, htaken]
        rfl
      · rw [IdealQueue.charged, List.map_append, List.sum_append, ← IdealQueue.charged, hcharged]
        rfl

/-! ## Taking a token -/

/-- A token is taken and the clock is charged for it. -/
theorem TokenQueue.turn (hsearch : Searchable (⟨mem, gs⟩ : GroupState α))
    (hcard : gs.queued.card ≤ mostTokens) {s : SessionState α} {gs₁ : GroupScheduler α}
    (hdeq : groupSchedulerDequeue gs = (some s, gs₁)) :
    ∃ off' ideal', IdealQueue.Run IdealQueue.Step ideal
        [.take s.untimed, .advance (tokenCharge cap)] ideal' ∧
      TokenQueue span off' cap (groupSchedulerUpdateVirtualTime gs₁ tenantQuantumSize) ideal' := by
  obtain ⟨ideal₁, htake, himp⟩ := h.implements.dequeued hsearch hdeq
  obtain ⟨p, rest, v, -, hqueue, hreach, heligible, hleast, rfl⟩ := htake.take_cases
  have hp : p ∈ ideal.queue := hqueue ▸ Multiset.mem_cons_self p rest
  have hpassed : ideal.clock ≤ v := hreach.passed
  have hcost := h.uniform p hp
  have hrest : rest.card ≤ mostTokens := by
    have hall := h.card_eq
    rw [hqueue, Multiset.card_cons] at hall
    omega
  have hsolo := h.solo.take p.cost hqueue hpassed heligible
  have hcrowd := h.crowd.take hqueue hreach hleast hrest
  have hnext := hsearch.step .dequeue
  simp only [GroupState.step, hdeq] at hnext
  have hcharge : virtualTimeDelta gs₁ tenantQuantumSize = tokenCharge cap := by
    rw [virtualTimeDelta_charged, himp.capacity]
    rfl
  have hquantum := quantumSpan_eq
  have hmost := mostTokens_eq
  have hclock := h.implements.clock
  have hclock₁ := himp.clock
  have hvt := h.clock
  have hsmall := h.charge_le.2
  -- the clock jumps to the start of a token, which is near
  have hnear : v ≤ ideal.clock + quantumSpan := by
    have hstart := h.solo.near p hp
    have hshort := h.span_le p.flow
    have hbound := hreach.bound p hp
    omega
  dsimp only at hclock₁
  have hroom : gs₁.virtualTime + virtualTimeDelta gs₁ tenantQuantumSize ≤ uint64Max := by
    rw [hcharge]
    unfold uint64Max
    omega
  have hadvance : advancedVirtualTime gs₁ tenantQuantumSize =
      max (gs₁.virtualTime + tokenCharge cap) gs₁.minStartTime := by
    rw [advancedVirtualTime_eq, hcharge, if_neg]
    rw [hcharge] at hroom
    omega
  have huncut : ∀ q ∈ gs₁.queued, updateOffset gs₁ tenantQuantumSize ≤ q.finishTime := by
    intro q hq
    obtain ⟨r, hr, hstands⟩ := himp.packet_of hq
    have hbehind := hcrowd.clock_le hr
    have hfinish := hstands.finish
    have hle := hnext.cache.least.le q hq
    have hstamps := hnext.inv.stamps q hq
    dsimp only at hbehind hle hstamps
    rw [hcost, hmost, hquantum] at hbehind
    unfold updateOffset rebaseOffsetAt
    rw [hadvance]
    unfold rebaseThreshold uint64Max
    split_ifs <;> omega
  obtain ⟨ideal', hstep, hlast⟩ := himp.updated hnext hroom huncut
  rw [hcharge] at hstep
  have hpunctual : ∀ S, SharesTokens span (tokenCharge cap) S →
      Punctual S (tokenCharge cap) ideal' := by
    intro S hS
    have hfirst := (h.punctual S hS).step htake trivial
    exact hfirst.step hstep hcost.ge
  refine ⟨off + updateOffset gs₁ tenantQuantumSize, ideal', .cons htake (.single hstep), ?_⟩
  cases hstep with
  | advance hreach₂ =>
  constructor
  · exact hlast
  · intro i
    have hledger := dequeue_ledger gs
    rw [hdeq] at hledger
    rw [tokenSpan, rateOf_update hnext.inv.nodup, rateOf_of_ledger hledger]
    exact h.spans i
  · intro q hq
    exact h.uniform q (hqueue ▸ Multiset.mem_cons_of_mem hq)
  · rw [hcost]
    exact Nat.sub_self _
  · have hle := advancedVirtualTime_le hnext.inv.cache tenantQuantumSize
    rw [updateVirtualTime_virtualTime, updateOffset, rebaseOffsetAt]
    unfold rebaseThreshold
    unfold uint64Max at hle ⊢
    dsimp only at hle ⊢
    split_ifs <;> omega
  · exact hsolo.later ((Nat.le_add_right _ _).trans hreach₂.passed)
  · exact hcrowd.advance hreach₂ hcost.ge hrest
  · exact hpunctual

/-- The token of an entry is taken within two of its lengths. -/
theorem TokenQueue.wait_le {S : Shares ℕ} (hS : SharesTokens span (tokenCharge cap) S)
    {q : Packet ℕ (SessionState α)} (hq : q ∈ ideal.queue) : ideal.clock ≤ q.finish := by
  have hbound := (h.punctual S hS).bound hq
  have hcost := h.uniform q hq
  have hdue := h.due
  omega

end TokenQueue

theorem Unloaded.tokenQueue (h : Unloaded gs) :
    TokenQueue (tokenSpan gs) 0 gs.totalCapacity gs
      (IdealQueue.State.init ℕ (SessionState α)) := by
  have hqueue : (IdealQueue.State.init ℕ (SessionState α)).queue = 0 := rfl
  constructor
  · constructor
    · rfl
    · exact h.clock.symm
    · rw [h.queued]
      exact Multiset.Rel.zero
    · intro id e he
      exact h.tags id e he
    · rw [h.queued]
      exact Nat.zero_le _
  · exact fun _ => rfl
  · rw [hqueue]
    exact fun q hq => absurd hq (Multiset.notMem_zero q)
  · rfl
  · rw [h.clock]
    exact Nat.zero_le _
  · exact .of_empty rfl fun _ => le_rfl
  · exact .of_empty rfl (Nat.zero_le _)
  · exact fun S _ => .of_empty rfl (Nat.zero_le _)

end Hwfq
