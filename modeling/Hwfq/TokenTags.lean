import Hwfq.TenantWaits

/-!
# The tags of the tokens

The tags of a token are within two quanta of the clock, in every run and however the tenants
are configured on the way. So no finish of a token reaches the sentinel of the search: whenever
a tenant has a token, a dequeue takes one.
-/
namespace Hwfq
open GuardedRuns

section Group
variable {α : Type*} {gs gs' : GroupScheduler α} {mem : Allocator}

/-- Tokens start and finish near the clock. What an entry remembers is near the clock, or it
is the finish of its token. -/
structure TagsNear (gs : GroupScheduler α) : Prop where
  clock : gs.virtualTime ≤ 2 ^ 63
  start : ∀ q ∈ gs.queued, q.startTime ≤ gs.virtualTime + quantumSpan
  span : ∀ q ∈ gs.queued, q.finishTime ≤ q.startTime + quantumSpan
  tags : ∀ id e, activeEntry gs id = some e → e.lastFinishTime ≤ gs.virtualTime + quantumSpan ∨
    ∃ q ∈ gs.queued, q.entryId = id ∧ e.lastFinishTime ≤ q.finishTime

theorem TagsNear.unsaturated (h : TagsNear gs) : Unsaturated gs := by
  intro q hq
  have hclock := h.clock
  have hstart := h.start q hq
  have hspan := h.span q hq
  have hquantum := quantumSpan_eq
  unfold uint64Max
  omega

/-- An operation on entries that leaves the queue alone and sets no tag but to zero. -/
theorem TagsNear.of_active (h : TagsNear gs) (hq : gs'.queueView = gs.queueView)
    (hact : ∀ id e, activeEntry gs' id = some e →
      e.lastFinishTime = 0 ∨ activeEntry gs id = some e) : TagsNear gs' := by
  have hqueued : gs'.queued = gs.queued := queued_of_queueView hq
  have hclock : gs'.virtualTime = gs.virtualTime := congrArg QueueView.virtualTime hq
  constructor
  · rw [hclock]
    exact h.clock
  · rw [hqueued, hclock]
    exact h.start
  · rw [hqueued]
    exact h.span
  · rw [hqueued, hclock]
    intro id e he
    rcases hact id e he with hzero | hold
    · left
      rw [hzero]
      exact Nat.zero_le _
    · exact h.tags id e hold

theorem tagsNear_edits : EditsKeep (TagsNear (α := α)) :=
  .of_active fun h hview hact => h.of_active hview hact

/-- A new token starts where its entry left off, for the entry had no other. -/
theorem TagsNear.enqueued (h : TagsNear gs) {id : ℕ} {entry : EntryConfig}
    (hadm : Admissible gs id tenantQuantumSize entry) (hnone : ∀ q ∈ gs.queued, q.entryId ≠ id)
    (addr : Addr) (ud : Option α) (cf : Bool) :
    TagsNear (Hwfq.enqueued gs id (newSession gs entry addr id tenantQuantumSize ud cf)) := by
  have hqueued := hadm.queued addr ud cf
  have hclock : (Hwfq.enqueued gs id
      (newSession gs entry addr id tenantQuantumSize ud cf)).virtualTime = gs.virtualTime :=
    enqueued_virtualTime id
  have hstart := newSession_startTime gs entry addr id tenantQuantumSize ud cf
  have hfinish := newSession_finishTime gs entry addr id tenantQuantumSize ud cf
  have hshort := serviceIntervalOf_quantum_le (entryRate gs entry)
  have hlast : entry.lastFinishTime ≤ gs.virtualTime + quantumSpan := by
    rcases h.tags id entry.core (activeEntry_of_find hadm.found) with hnear | ⟨q, hq, hid, -⟩
    · exact hnear
    · exact absurd hid (hnone q hq)
  have hinterval : (newSession gs entry addr id tenantQuantumSize ud cf).serviceInterval =
      serviceIntervalOf tenantQuantumSize (entryRate gs entry) := rfl
  have howner : (newSession gs entry addr id tenantQuantumSize ud cf).entryId = id := rfl
  generalize newSession gs entry addr id tenantQuantumSize ud cf = token
    at hqueued hclock hstart hfinish hinterval howner ⊢
  dsimp only at hqueued
  constructor
  · rw [hclock]
    exact h.clock
  · rw [hqueued, hclock]
    intro q hq
    rcases Multiset.mem_cons.mp hq with rfl | hq
    · dsimp only
      omega
    · exact h.start q hq
  · rw [hqueued]
    intro q hq
    rcases Multiset.mem_cons.mp hq with rfl | hq
    · dsimp only
      rw [hfinish]
      split_ifs <;> omega
    · exact h.span q hq
  · rw [hqueued, hclock]
    intro j e he
    rw [enqueued_activeEntry] at he
    split_ifs at he with hj
    · obtain ⟨e₀, -, rfl⟩ := Option.map_eq_some_iff.mp he
      exact .inr ⟨_, Multiset.mem_cons_self _ _, howner.trans hj.symm, le_rfl⟩
    · rcases h.tags j e he with hnear | ⟨q, hq, hid, hle⟩
      · exact .inl hnear
      · exact .inr ⟨q, Multiset.mem_cons_of_mem hq, hid, hle⟩

/-- A trace that ends with one token an entry at most keeps the tags near. -/
theorem TagsNear.trace (h : TagsNear gs) (htrace : TokenTrace gs gs')
    (hids : (gs'.queued.map (·.entryId)).Nodup) : TagsNear gs' := by
  induction htrace with
  | refl => exact h
  | @enqueue gs₁ mem id ud cf htrace ih =>
    rcases enqueue_cases mem gs₁ id tenantQuantumSize ud cf with
      ⟨-, heq, -⟩ | ⟨-, -, -, -, entry, hadm, heq⟩
    · rw [heq] at hids ⊢
      exact ih hids
    · rw [heq] at hids ⊢
      rw [hadm.queued mem.next ud cf, Multiset.map_cons, Multiset.nodup_cons] at hids
      have hnone : ∀ q ∈ gs₁.queued, q.entryId ≠ id := by
        rintro q hq rfl
        have hin : q.entryId ∈ gs₁.queued.map (·.entryId) :=
          Multiset.mem_map_of_mem (·.entryId) hq
        exact hids.1 hin
      exact (ih hids.2).enqueued hadm hnone mem.next ud cf

/-- A token is taken, and the clock is charged for it and rebased. -/
theorem TagsNear.turn (h : TagsNear gs) (hsearch : Searchable (⟨mem, gs⟩ : GroupState α))
    {s : SessionState α} {gs₁ : GroupScheduler α}
    (hdeq : groupSchedulerDequeue gs = (some s, gs₁)) :
    TagsNear (groupSchedulerUpdateVirtualTime gs₁ tenantQuantumSize) := by
  obtain ⟨hs, heligible, -, hstarted, hjump⟩ := hsearch.selection hdeq
  have hqueued : gs.queued = s ::ₘ gs₁.queued := (dequeue_some hsearch.inv.calendar hdeq).2.2
  have hledger := dequeue_ledger gs
  have hnext := hsearch.step .dequeue
  simp only [GroupState.step, hdeq] at hledger hnext
  have hkept : ∀ q ∈ gs₁.queued, q ∈ gs.queued := fun q hq =>
    hqueued ▸ Multiset.mem_cons_of_mem hq
  have hquantum := quantumSpan_eq
  have hvt := h.clock
  have hpassed : gs.virtualTime ≤ gs₁.virtualTime := hstarted
  have hjumped : gs₁.virtualTime ≤ gs.virtualTime + quantumSpan := by
    rcases hstarted.lt_or_eq with hlt | heq
    · obtain ⟨q, hq, hstart⟩ := (hjump hlt).2.1
      have hnear := h.start q hq
      omega
    · dsimp only at heq
      omega
  have hlater : gs₁.virtualTime ≤ advancedVirtualTime gs₁ tenantQuantumSize := by
    apply virtualTime_le_advanced
    unfold uint64Max
    omega
  have hbelow : advancedVirtualTime gs₁ tenantQuantumSize ≤ uint64Max :=
    advancedVirtualTime_le hnext.inv.cache tenantQuantumSize
  have hoff := rebaseOffsetAt_le (advancedVirtualTime gs₁ tenantQuantumSize)
  constructor
  · rw [updateVirtualTime_virtualTime, updateOffset, rebaseOffsetAt]
    unfold rebaseThreshold
    unfold uint64Max at hbelow ⊢
    split_ifs <;> omega
  · rw [updateVirtualTime_queued, updateVirtualTime_virtualTime, updateOffset]
    intro q hq
    obtain ⟨p, hp, rfl⟩ := Multiset.mem_map.mp hq
    have hstart := h.start p (hkept p hp)
    simp only [SessionState.rebase, rebaseTime_eq_sub]
    omega
  · rw [updateVirtualTime_queued]
    intro q hq
    obtain ⟨p, hp, rfl⟩ := Multiset.mem_map.mp hq
    have hspan := h.span p (hkept p hp)
    simp only [SessionState.rebase, rebaseTime_eq_sub]
    omega
  · intro id e he
    rw [updateVirtualTime_activeEntry hnext.inv.nodup hnext.inv.listed,
      activeEntry_of_ledger hledger] at he
    obtain ⟨e₀, he₀, rfl⟩ := Option.map_eq_some_iff.mp he
    rw [updateVirtualTime_virtualTime, updateVirtualTime_queued, updateOffset]
    simp only [rebaseTime_eq_sub]
    rcases h.tags id e₀ he₀ with hnear | ⟨q, hq, hid, hle⟩
    · left
      omega
    rw [hqueued] at hq
    rcases Multiset.mem_cons.mp hq with rfl | hq
    -- the token that was taken had started
    · have hspan := h.span q hs
      left
      omega
    · right
      refine ⟨_, Multiset.mem_map_of_mem _ hq, hid, ?_⟩
      simp only [SessionState.rebase, rebaseTime_eq_sub]
      omega

theorem Unloaded.tagsNear (h : Unloaded gs) : TagsNear gs := by
  have hnone : ∀ {P : SessionState α → Prop}, ∀ q ∈ gs.queued, P q := by
    intro P q hq
    rw [h.queued] at hq
    exact absurd hq (Multiset.notMem_zero q)
  constructor
  · rw [h.clock]
    exact Nat.zero_le _
  · exact hnone
  · exact hnone
  · intro id e he
    left
    rw [h.tags id e he]
    exact Nat.zero_le _

end Group

variable {s : Scheduler} {c : Call} {i : ℕ}

/-- Where nothing is saturated, a queue of tokens yields one. -/
theorem SchedulerInv.token_found (h : SchedulerInv s) (hbins : s.grid.numBins ≤ 32768)
    (hnear : TagsNear s.systemScheduler) :
    (groupSchedulerDequeue s.systemScheduler).1.isSome = true ↔ s.systemScheduler.queued ≠ 0 := by
  have hsearch := h.tokens_searchable hbins
  have hfew := h.few_tokens
  have hmost := mostTokens_eq
  have hcard : s.systemScheduler.queued.card ≤ uint32Max := by
    unfold uint32Max
    omega
  have hcount := hsearch.inv.count
  have hiff := hsearch.dequeue_isSome_iff hnear.unsaturated
  dsimp only at hcount hiff
  rw [hiff, hcount, u32_of_le hcard]
  exact Multiset.card_pos

theorem SchedulerInv.tagsNear (h : SchedulerInv s) (hbins : s.grid.numBins ≤ 32768)
    (hnear : TagsNear s.systemScheduler) (c : Call) :
    TagsNear (Hwfq.after s c).systemScheduler := by
  cases htenant : c.configuresTenant with
  | true => exact h.tenantCall_keeps tagsNear_edits hnear htenant
  | false =>
    have hids := (h.after c).system.distinct
    by_cases hquiet : c.asksSession = false
    · exact hnear.trace (h.registers htenant hquiet) hids
    cases c with
    | dequeue out now =>
      obtain rfl : out = true := by simpa [Call.asksSession] using hquiet
      have hsearch := h.tokens_searchable hbins
      rcases h.token_cases now.toNat with ⟨system, hd, heq⟩ | ⟨token, system, hd, htrace⟩
      · have hstate : (Hwfq.after s (.dequeue true now)).systemScheduler = system := heq
        have hnone : ¬ (groupSchedulerDequeue s.systemScheduler).1.isSome = true := by
          rw [hd]
          exact Bool.false_ne_true
        have hempty := (not_congr (h.token_found hbins hnear)).mp hnone
        have hzero : s.systemScheduler.activeSessionCount = 0 := by
          have hcount := hsearch.inv.count
          dsimp only at hcount
          rw [hcount, not_not.mp hempty]
          unfold u32
          rfl
        have hsame : groupSchedulerDequeue s.systemScheduler = (none, s.systemScheduler) := by
          rw [groupSchedulerDequeue, if_pos hzero]
        rw [hd, Prod.mk.injEq] at hsame
        rw [hstate, hsame.2]
        exact hnear
      · exact (hnear.turn hsearch hd).trace htrace hids
    | _ => exact absurd rfl hquiet

/-- What every run keeps true of the tokens. -/
structure TokensNear (s : Scheduler) : Prop where
  inv : SchedulerInv s
  bins : s.grid.numBins ≤ 32768
  near : TagsNear s.systemScheduler

theorem TokensNear.step (h : TokensNear s) (c : Call) : TokensNear (after s c) := by
  have hgrid : (after s c).grid = s.grid := grid_of_config (h.inv.after_config c)
  exact ⟨h.inv.after c, hgrid ▸ h.bins, h.inv.tagsNear h.bins h.near c⟩

theorem Made.tokensNear (h : Made s) (hbins : s.grid.numBins ≤ 32768) : TokensNear s := by
  obtain ⟨mem, config, hinit⟩ := h
  have hnew := hwfqInit_success hinit
  obtain ⟨mem₀, -, hfresh⟩ := hnew.system
  exact ⟨hnew.inv, hbins, hfresh.unloaded.tagsNear⟩

/-- In every run, whatever is configured on the way and whatever memory is refused: a dequeue
finds a token exactly when some tenant is marked as backlogged, and the token it takes has been
put in for such a tenant. -/
theorem tokens_always_found (h : Made s) (hbins : s.grid.numBins ≤ 32768) (calls : List Call) :
    let s' := afterRun s calls
    Unsaturated s'.systemScheduler ∧
      ((groupSchedulerDequeue s'.systemScheduler).1.isSome = true ↔ ∃ i, Flagged s' i) ∧
      ∀ token system, groupSchedulerDequeue s'.systemScheduler = (some token, system) →
        Flagged s' token.entryId := by
  intro s'
  have hlast : TokensNear s' := run_invariant_all (fun _ c hs => hs.step c) (h.tokensNear hbins) calls
  have htaken : ∀ q ∈ s'.systemScheduler.queued, Flagged s' q.entryId := by
    intro q hq
    obtain ⟨f, hf, hbacklog, -⟩ := hlast.inv.system.tokens q hq
    obtain ⟨t, ht, rfl⟩ := Option.map_eq_some_iff.mp hf
    exact ⟨t, ht, hbacklog⟩
  refine ⟨hlast.near.unsaturated, ?_, ?_⟩
  · rw [hlast.inv.token_found hlast.bins hlast.near]
    constructor
    · intro hne
      obtain ⟨q, hq⟩ := Multiset.exists_mem_of_ne_zero hne
      exact ⟨q.entryId, htaken q hq⟩
    · rintro ⟨i, hflag⟩ hzero
      obtain ⟨q, hq, -⟩ := hlast.inv.token_queued hflag
      rw [hzero] at hq
      exact Multiset.notMem_zero q hq
  · intro token system hd
    exact htaken token ((hlast.inv.tokens_searchable hlast.bins).selection hd).1

/-- A tenant is given a rate of its own while both tenants have tokens. -/
theorem tokens_always_found_reallocated :
    let s := afterRun smallScheduler
      (twoTenants ++ unevenSessions ++ .configureTenant 0 (some (.rate 10)) :: unevenRounds)
    Unsaturated s.systemScheduler ∧
      ((groupSchedulerDequeue s.systemScheduler).1.isSome = true ↔ ∃ i, Flagged s i) ∧
      ∀ token system, groupSchedulerDequeue s.systemScheduler = (some token, system) →
        Flagged s token.entryId :=
  tokens_always_found smallScheduler_made (by decide +kernel) _

end Hwfq
