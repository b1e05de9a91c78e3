import Hwfq.FairService
import Hwfq.SchedulerLedgers
import Hwfq.TenantTokens
import Hwfq.TokenTurns

/-!
# Tenants of equal weight take turns

A tenant stands in the system scheduler with one token, and every token stands for the same
amount of work, whatever the size of the session that is then delivered. As long as two
tenants of equal weight both keep their tokens and every dequeue delivers, neither gets two
sessions ahead of the other.
-/
namespace Hwfq
open GuardedRuns

variable {s s' : Scheduler} {c : Call} {i j n n' : ℕ}

/-! ## Configuration before the first session -/

/-- A call that adds, changes or removes a tenant or a flow. -/
def Call.configures (c : Call) : Bool := c.configuresTenant || c.editsFlows

theorem unloaded_edits {α : Type*} : EditsKeep (Unloaded (α := α)) :=
  .of_active fun h hview hact => h.of_active hview hact

theorem SchedulerInv.unloaded (h : SchedulerInv s) (hs : Unloaded s.systemScheduler)
    (hc : c.configures = true) : Unloaded (Hwfq.after s c).systemScheduler := by
  cases htenant : c.configuresTenant with
  | true => exact h.tenantCall_keeps unloaded_edits hs htenant
  | false =>
    have hedit : c.editsFlows = true := by simpa [Call.configures, htenant] using hc
    exact (h.flowEdit_system htenant hedit).symm ▸ hs

theorem SchedulerInv.run_unloaded (h : SchedulerInv s) (hs : Unloaded s.systemScheduler)
    {setup : List Call} (hsetup : ∀ c ∈ setup, c.configures = true) :
    Unloaded (Hwfq.afterRun s setup).systemScheduler := by
  induction setup generalizing s with
  | nil => exact hs
  | cons c setup ih =>
    have hfirst := h.unloaded hs (hsetup c List.mem_cons_self)
    exact ih (h.after c) hfirst fun d hd => hsetup d (List.mem_cons_of_mem c hd)

/-! ## The first turn -/

section Start
variable {α : Type*} {gs : GroupScheduler α} {r : ℕ}

theorem Unloaded.hasTags {d id a b : ℕ} (h : Unloaded gs) (htags : HasTags gs d id a b) :
    a = 0 ∧ b = d := by
  rcases htags with ⟨q, hq, -⟩ | ⟨-, e, he, rfl, rfl⟩
  · rw [h.queued] at hq
    exact absurd hq (Multiset.notMem_zero q)
  · rw [h.clock, h.tags id e he]
    omega

/-- Before any token is there both entries stand at time 0. -/
theorem Unloaded.takingTurns (h : Unloaded gs) (hi : rateOf gs i = some r)
    (hj : rateOf gs j = some r) : TakingTurns gs r i j 0 0 := by
  have hpos := serviceIntervalOf_pos tenantQuantumSize r
  have hnone : ∀ {P : SessionState α → Prop}, ∀ q ∈ gs.queued, P q := by
    intro P q hq
    rw [h.queued] at hq
    exact absurd hq (Multiset.notMem_zero q)
  have hspaced : ∀ k, Spaced gs (serviceIntervalOf tenantQuantumSize r) k := by
    intro k a b htags
    obtain ⟨rfl, rfl⟩ := h.hasTags htags
    omega
  constructor
  · constructor
    · rw [h.clock]
      unfold rebaseThreshold uint64Max
      omega
    · exact hnone
    · exact hnone
    · exact hnone
    · intro id e he _
      rw [h.tags id e he]
      exact Nat.zero_le _
    · exact hnone
  · exact hi
  · exact hj
  · exact hspaced i
  · exact hspaced j
  · apply Lead.level
    intro a b a' b' ha hb
    obtain ⟨rfl, rfl⟩ := h.hasTags ha
    obtain ⟨rfl, rfl⟩ := h.hasTags hb
    omega

end Start

theorem SchedulerInv.findEntry_weight (h : SchedulerInv s) {w : UInt32}
    (hi : s.allocations i = some (.weight w)) :
    ∃ e, groupSchedulerFindEntry s.systemScheduler i = some e ∧ e.allocation = .weight w := by
  have halloc := h.system.allocations i
  have hface : (s.faces i).map (·.allocation) = s.allocations i := by
    rw [Scheduler.faces, Option.map_map, Scheduler.allocations]
    rfl
  rw [hface, hi, activeEntry_eq, Option.map_map] at halloc
  exact Option.map_eq_some_iff.mp halloc

/-- Tenants of equal weight have the same rate. -/
theorem SchedulerInv.equal_rates (h : SchedulerInv s) {w : UInt32}
    (hi : s.allocations i = some (.weight w)) (hj : s.allocations j = some (.weight w)) :
    ∃ r, rateOf s.systemScheduler i = some r ∧ rateOf s.systemScheduler j = some r := by
  obtain ⟨e, he, hweight⟩ := h.findEntry_weight hi
  obtain ⟨e', he', hweight'⟩ := h.findEntry_weight hj
  have hsame : entryRate s.systemScheduler e' = entryRate s.systemScheduler e := by
    unfold entryRate calculateEffectiveRate
    rw [hweight, hweight']
  refine ⟨entryRate s.systemScheduler e, ?_, ?_⟩
  · rw [rateOf, he, Option.map_some]
  · rw [rateOf, he', Option.map_some, hsame]

/-- There are at most as many tokens as the store has entries. -/
theorem SchedulerInv.few_tokens (h : SchedulerInv s) :
    s.systemScheduler.queued.card ≤ mostTokens := by
  obtain ⟨live, hpool, -⟩ := h.system.pooled
  have hsub : s.systemScheduler.queued.map (·.entryId) ≤
      Multiset.range s.systemScheduler.entries.numAllocated := by
    apply (Multiset.le_iff_subset h.system.distinct).mpr
    intro id hid
    obtain ⟨q, hq, rfl⟩ := Multiset.mem_map.mp hid
    obtain ⟨f, hf, -⟩ := h.system.tokens q hq
    have hact : (activeEntry s.systemScheduler q.entryId).isSome = true := by
      rw [h.system.active, hf]
      rfl
    exact Multiset.mem_range.mpr (hpool.pool.live_lt _ (hpool.pool.mem_of_active hact))
  have hcard := Multiset.card_le_card hsub
  rw [Multiset.card_map, Multiset.card_range] at hcard
  exact hcard.trans hpool.pool.chunks

/-! ## One call -/

/-- The size of the session of tenant `i` that a call has returned. -/
def Response.sizeFor (i : ℕ) (r : Response) : Option ℕ :=
  (r.delivery.filter (·.tenantId = i)).map (·.workSize)

/-- The sizes of the sessions of tenant `i` that calls have returned, in their order. -/
def sizesReturned (i : ℕ) (responses : List Response) : List ℕ :=
  responses.filterMap (Response.sizeFor i)

/-- The tenants stay as they are configured, and a dequeue finds both tenants backlogged and
returns a session. -/
def TakesTurns (i j : ℕ) (s : Scheduler) (c : Call) : Prop :=
  c.configuresTenant = false ∧
    (c.asksSession = true → Flagged s i ∧ Flagged s j ∧ (respond s c).status = .success)

instance (s : Scheduler) (i : ℕ) : Decidable (Flagged s i) :=
  inferInstanceAs (Decidable (∃ t ∈ s.tenants i, t.hasBacklog = true))

instance (i j : ℕ) (s : Scheduler) (c : Call) : Decidable (TakesTurns i j s c) :=
  inferInstanceAs (Decidable (c.configuresTenant = false ∧
    (c.asksSession = true → Flagged s i ∧ Flagged s j ∧ (respond s c).status = .success)))

theorem respond_delivery (hquiet : c.asksSession = false) : (respond s c).delivery = none := by
  cases c with
  | dequeue out now =>
    obtain rfl : out = false := hquiet
    rfl
  | _ => rfl

/-- A dequeue that returns a session took the token of its tenant and charged it; from then on
tokens were only put in. -/
theorem SchedulerInv.takes_token (h : SchedulerInv s) {now : ℕ}
    (hok : (hwfqDequeue s true now).1 = .success) :
    ∃ token system d, groupSchedulerDequeue s.systemScheduler = (some token, system) ∧
      (hwfqDequeue s true now).2.1 = some d ∧ d.tenantId = token.entryId ∧
      TokenTrace (groupSchedulerUpdateVirtualTime system tenantQuantumSize)
        (hwfqDequeue s true now).2.2.systemScheduler := by
  unfold hwfqDequeue at hok ⊢
  simp only [Bool.not_true, Bool.false_eq_true, if_false] at hok ⊢
  rcases h.select with ⟨system, -, heq, -⟩ | ⟨token, system, t, flows, hd, -, -, -, hcase⟩
  · rw [heq] at hok
    cases hok
  rcases hcase with ⟨-, heq⟩ | ⟨q, x, -, hcar, heq⟩
  · rw [heq] at hok
    cases hok
  rw [heq] at hok ⊢
  dsimp only at hok ⊢
  split_ifs at hok ⊢
  have hcharge := chargeFlow_system (afterSelect s system token.entryId t flows) token.entryId
    x.workSize
  generalize Hwfq.chargeFlow (afterSelect s system token.entryId t flows) token.entryId
    x.workSize = s₂ at hcharge hok ⊢
  split at hok
  · cases hok
  · rename_i addr mem _
    refine ⟨token, system, _, hd, rfl, hcar.tenant, ?_⟩
    unfold deliverSession
    dsimp only
    generalize hadd : Hwfq.addInFlight { s₂ with mem := mem } (newInFlightEntry x addr now) = s₃
    have hsame : s₃.systemScheduler = s₂.systemScheduler := hadd ▸ rfl
    have hwait := recordWait_system s₃ token.entryId x now
    have hput := Registers.registerIfBacklogged (Hwfq.recordWait s₃ token.entryId x now) token.entryId
    rw [Registers, hwait, hsame, hcharge] at hput
    exact hput

theorem SchedulerInv.token_queued (h : SchedulerInv s) (hflag : Flagged s i) :
    ∃ q ∈ s.systemScheduler.queued, q.entryId = i := by
  obtain ⟨t, ht, hbacklog⟩ := hflag
  have hface : s.faces i = some t.face := by
    rw [Scheduler.faces, Option.mem_def.mp ht, Option.map_some]
  exact h.system.registered i t.face hface hbacklog

/-- Two tenants of the rate `r` have been returned `n` and `n'` sessions. -/
structure TurnsTaken (s : Scheduler) (r i j n n' : ℕ) : Prop where
  inv : SchedulerInv s
  bins : s.grid.numBins ≤ 32768
  turns : TakingTurns s.systemScheduler r i j n n'

/-- How many sessions of tenant `i` a call has returned, one or none. -/
def turnOf (i : ℕ) (s : Scheduler) (c : Call) : ℕ :=
  if ((respond s c).sizeFor i).isSome then 1 else 0

theorem TurnsTaken.asked {r : ℕ} (h : TurnsTaken s r i j n n') (hij : i ≠ j) {now : UInt64}
    (hi : Flagged s i) (hj : Flagged s j)
    (hok : (respond s (.dequeue true now)).status = .success) :
    TakingTurns (after s (.dequeue true now)).systemScheduler r i j
      (n + turnOf i s (.dequeue true now)) (n' + turnOf j s (.dequeue true now)) := by
  obtain ⟨token, system, d, hd, hdelivery, htenant, htrace⟩ := h.inv.takes_token hok
  have hsearch := h.inv.tokens_searchable h.bins
  obtain ⟨v₁, v₂, hturn⟩ := hsearch.turn h.turns.paced hd
  have hcount : ∀ k, turnOf k s (.dequeue true now) = if token.entryId = k then 1 else 0 := by
    intro k
    have hreport : (respond s (.dequeue true now)).delivery = some d := hdelivery
    unfold turnOf Response.sizeFor
    rw [hreport, Option.isSome_map, Option.filter_some, htenant]
    split_ifs <;> simp_all
  have hnext := h.turns.turn hturn hsearch.inv h.inv.system.distinct h.inv.few_tokens hij
    (h.inv.token_queued hi) (h.inv.token_queued hj)
  have hafter := h.inv.after (.dequeue true now)
  rw [hcount, hcount]
  exact hnext.trace htrace hafter.system.distinct hafter.few_tokens

theorem TurnsTaken.step {r : ℕ} (h : TurnsTaken s r i j n n') (hij : i ≠ j)
    (hc : TakesTurns i j s c) :
    TurnsTaken (after s c) r i j (n + turnOf i s c) (n' + turnOf j s c) := by
  obtain ⟨htenants, hask⟩ := hc
  have hafter := h.inv.after c
  have hgrid : (after s c).grid = s.grid := grid_of_config (h.inv.after_config c)
  constructor
  · exact hafter
  · rw [hgrid]
    exact h.bins
  · by_cases hquiet : c.asksSession = false
    · have hzero : ∀ k, turnOf k s c = 0 := by
        intro k
        rw [turnOf, Response.sizeFor, respond_delivery hquiet]
        rfl
      rw [hzero, hzero]
      exact h.turns.trace (h.inv.registers htenants hquiet) hafter.system.distinct hafter.few_tokens
    · cases c with
      | dequeue out now =>
        obtain rfl : out = true := by simpa [Call.asksSession] using hquiet
        obtain ⟨hi, hj, hok⟩ := hask rfl
        exact h.asked hij hi hj hok
      | _ => exact absurd rfl hquiet

/-! ## Runs -/

theorem sizesReturned_length (i : ℕ) (s : Scheduler) (c : Call) (calls : List Call) :
    (sizesReturned i (outputs after respond s (c :: calls))).length =
      turnOf i s c + (sizesReturned i (outputs after respond (after s c) calls)).length := by
  unfold sizesReturned turnOf
  rw [outputs_cons]
  cases hsize : (respond s c).sizeFor i with
  | none =>
    rw [List.filterMap_cons_none hsize]
    simp
  | some w =>
    rw [List.filterMap_cons_some hsize, List.length_cons]
    simp [Nat.add_comm]

theorem TurnsTaken.run {r : ℕ} (h : TurnsTaken s r i j n n') (hij : i ≠ j) {calls : List Call}
    (hcalls : Along after (TakesTurns i j) s calls) :
    TurnsTaken (Hwfq.afterRun s calls) r i j
      (n + (sizesReturned i (outputs after respond s calls)).length)
      (n' + (sizesReturned j (outputs after respond s calls)).length) := by
  induction calls generalizing s n n' with
  | nil => exact h
  | cons c calls ih =>
    have hrest := ih (h.step hij hcalls.1) hcalls.2
    rw [sizesReturned_length, sizesReturned_length, ← Nat.add_assoc, ← Nat.add_assoc]
    exact hrest

theorem Made.turnsTaken (h : Made s) (hbins : s.grid.numBins ≤ 32768) {setup : List Call}
    (hsetup : ∀ c ∈ setup, c.configures = true) {w : UInt32}
    (hi : (Hwfq.afterRun s setup).allocations i = some (.weight w))
    (hj : (Hwfq.afterRun s setup).allocations j = some (.weight w)) :
    ∃ r, TurnsTaken (Hwfq.afterRun s setup) r i j 0 0 := by
  have hinv := h.afterRun setup
  have hgrid : (Hwfq.afterRun s setup).grid = s.grid :=
    grid_of_config (h.inv.afterRun_config setup)
  obtain ⟨mem, config, hinit⟩ := h
  obtain ⟨mem₀, -, hfresh⟩ := (hwfqInit_success hinit).system
  have hunloaded := (hwfqInit_success hinit).inv.run_unloaded hfresh.unloaded hsetup
  obtain ⟨r, hrate, hrate'⟩ := hinv.equal_rates hi hj
  exact ⟨r, hinv, hgrid ▸ hbins, hunloaded.takingTurns hrate hrate'⟩

/-- Sessions of one size make the same difference in work as in number. -/
theorem sum_close {a b : List ℕ} {z : ℕ} (hsize : ∀ x ∈ a ++ b, x = z)
    (hlength : a.length ≤ b.length + 1) : a.sum ≤ b.sum + z := by
  have ha := List.sum_eq_card_nsmul a z fun x hx => hsize x (List.mem_append_left b hx)
  have hb := List.sum_eq_card_nsmul b z fun x hx => hsize x (List.mem_append_right a hx)
  have hmul := Nat.mul_le_mul_right z hlength
  rw [Nat.add_mul, Nat.one_mul] at hmul
  rw [ha, hb, nsmul_eq_mul, nsmul_eq_mul]
  exact hmul

/-- Over a run in which both tenants are always asked in good order, they take turns. -/
theorem TurnsTaken.sizes {r : ℕ} (h : TurnsTaken s r i j 0 0) (hij : i ≠ j) {calls : List Call}
    (hcalls : Along after (TakesTurns i j) s calls) :
    let sizes := fun k => sizesReturned k (outputs after respond s calls)
    ((sizes i).length ≤ (sizes j).length + 1 ∧ (sizes j).length ≤ (sizes i).length + 1) ∧
      ∀ z, (∀ x ∈ sizes i ++ sizes j, x = z) →
        (sizes i).sum ≤ (sizes j).sum + z ∧ (sizes j).sum ≤ (sizes i).sum + z := by
  intro sizes
  have hlead := (h.run hij hcalls).turns.lead.close
  rw [Nat.zero_add, Nat.zero_add] at hlead
  refine ⟨hlead, ?_⟩
  intro z hsize
  constructor
  · exact sum_close hsize hlead.1
  · apply sum_close
    · intro x hx
      exact hsize x (List.mem_append.mpr (List.mem_append.mp hx).symm)
    · exact hlead.2

/-- Two tenants of equal weight take turns: while both are backlogged and every dequeue
returns a session, the sessions that have been returned for them differ by one at most. Where
all these sessions have one size, the work differs by one session at most. -/
theorem tenants_take_turns (h : Made s) (hbins : s.grid.numBins ≤ 32768) {setup calls : List Call}
    (hsetup : ∀ c ∈ setup, c.configures = true) (hij : i ≠ j) {w : UInt32}
    (hi : (afterRun s setup).allocations i = some (.weight w))
    (hj : (afterRun s setup).allocations j = some (.weight w))
    (hcalls : Along after (TakesTurns i j) (afterRun s setup) calls) :
    let sizes := fun k => sizesReturned k (outputs after respond (afterRun s setup) calls)
    ((sizes i).length ≤ (sizes j).length + 1 ∧ (sizes j).length ≤ (sizes i).length + 1) ∧
      ∀ z, (∀ x ∈ sizes i ++ sizes j, x = z) →
        (sizes i).sum ≤ (sizes j).sum + z ∧ (sizes j).sum ≤ (sizes i).sum + z := by
  obtain ⟨r, hstart⟩ := h.turnsTaken hbins hsetup hi hj
  exact hstart.sizes hij hcalls

/-- As `TakesTurns`, for tenants that have sessions queued. -/
def ServesQueued (i j : ℕ) (s : Scheduler) (c : Call) : Prop :=
  c.configuresTenant = false ∧
    (c.asksSession = true → s.queue i ≠ 0 ∧ s.queue j ≠ 0 ∧ (respond s c).status = .success)

/-- Where no tenant loses its token, queued sessions are all it takes to be backlogged. -/
theorem TokensKept.takesTurns (h : TokensKept s) {calls : List Call}
    (hkeeps : Along after KeepsTokens s calls) (hcalls : Along after (ServesQueued i j) s calls) :
    Along after (TakesTurns i j) s calls := by
  induction calls generalizing s with
  | nil => trivial
  | cons c calls ih =>
    obtain ⟨⟨htenants, hask⟩, hrest⟩ := hcalls
    constructor
    · refine ⟨htenants, ?_⟩
      intro hasks
      obtain ⟨hi, hj, hok⟩ := hask hasks
      exact ⟨h.flagged i hi, h.flagged j hj, hok⟩
    · exact ih (h.step hkeeps.1) hkeeps.2 hrest

/-- Two tenants of equal weight that have sessions queued take turns, in every run in which no
tenant loses its token. -/
theorem queued_tenants_take_turns (h : Made s) (hmem : s.mem.AlwaysOk) (hreached : Reached s)
    {setup calls : List Call} (hsetup : ∀ c ∈ setup, c.configures = true) (hij : i ≠ j)
    {w : UInt32} (hi : (afterRun s setup).allocations i = some (.weight w))
    (hj : (afterRun s setup).allocations j = some (.weight w))
    (hkeeps : Along after KeepsTokens s (setup ++ calls))
    (hcalls : Along after (ServesQueued i j) (afterRun s setup) calls) :
    let sizes := fun k => sizesReturned k (outputs after respond (afterRun s setup) calls)
    ((sizes i).length ≤ (sizes j).length + 1 ∧ (sizes j).length ≤ (sizes i).length + 1) ∧
      ∀ z, (∀ x ∈ sizes i ++ sizes j, x = z) →
        (sizes i).sum ≤ (sizes j).sum + z ∧ (sizes j).sum ≤ (sizes i).sum + z := by
  obtain ⟨hbefore, hlater⟩ := (along_append _ _ _).mp hkeeps
  have hready : TokensKept (afterRun s setup) := h.tokensKept hmem hreached hbefore
  obtain ⟨r, hstart⟩ := h.turnsTaken (hreached.numBins.trans_le hreached) hsetup hi hj
  exact hstart.sizes hij (hready.takesTurns hlater hcalls)

/-- Two tenants of weight 1 with one flow each. -/
def twoTenants : List Call :=
  [.addTenant (some (.weight 1)) true, .addTenant (some (.weight 1)) true,
    .addFlow 0 (some (.weight 1)) true, .addFlow 1 (some (.weight 1)) true]

/-- Three sessions of the first tenant need the whole capacity each, those of the second one
unit each. -/
def unevenSessions : List Call :=
  List.replicate 3 (.enqueue 0 1 (some { userData := 7, workSize := 100 }) 0) ++
    List.replicate 3 (.enqueue 1 1 (some { userData := 8, workSize := 1 }) 0)

/-- Four times a dequeue and the completion of its session. -/
def unevenRounds : List Call :=
  [.dequeue true 0, .complete 1 1 (some { userData := 8, workSize := 1 }),
    .dequeue true 0, .complete 0 1 (some { userData := 7, workSize := 100 }),
    .dequeue true 0, .complete 0 1 (some { userData := 7, workSize := 100 }),
    .dequeue true 0, .complete 1 1 (some { userData := 8, workSize := 1 })]

theorem tenants_take_turns_uneven :
    let sizes := fun k => sizesReturned k
      (outputs after respond (afterRun smallScheduler twoTenants) (unevenSessions ++ unevenRounds))
    ((sizes 0).length ≤ (sizes 1).length + 1 ∧ (sizes 1).length ≤ (sizes 0).length + 1) ∧
      ∀ z, (∀ x ∈ sizes 0 ++ sizes 1, x = z) →
        (sizes 0).sum ≤ (sizes 1).sum + z ∧ (sizes 1).sum ≤ (sizes 0).sum + z := by
  have hbins : smallScheduler.grid.numBins ≤ 32768 := by decide +kernel
  have hsetup : ∀ c ∈ twoTenants, c.configures = true := by decide
  apply tenants_take_turns smallScheduler_made hbins hsetup (by decide) (w := 1)
  · decide +kernel
  · decide +kernel
  · decide +kernel

/-- The work returned for two tenants differs by no more than the largest session of each. -/
def WorkShared (i j : ℕ) (s : Scheduler) (calls : List Call) : Prop :=
  let work := fun k => (sizesReturned k (outputs after respond s calls)).sum
  let largest := fun k => ((s.queue k).map (·.workSize)).sup
  work i ≤ work j + (largest i + largest j) ∧ work j ≤ work i + (largest i + largest j)

theorem work_not_shared :
    Made smallScheduler ∧
      (afterRun smallScheduler twoTenants).allocations 0 = some (.weight 1) ∧
      (afterRun smallScheduler twoTenants).allocations 1 = some (.weight 1) ∧
      Along after (TakesTurns 0 1) (afterRun smallScheduler (twoTenants ++ unevenSessions))
        unevenRounds ∧
      ¬ WorkShared 0 1 (afterRun smallScheduler (twoTenants ++ unevenSessions)) unevenRounds := by
  refine ⟨smallScheduler_made, ?_, ?_, ?_, ?_⟩
  · decide +kernel
  · decide +kernel
  · decide +kernel
  · unfold WorkShared
    decide +kernel

end Hwfq
