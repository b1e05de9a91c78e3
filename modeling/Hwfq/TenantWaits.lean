import Hwfq.IdealTokens
import Hwfq.TenantTurns
import Mathlib.Tactic.Ring

/-!
# How long a tenant waits

From the first session on the tokens of the tenants are taken as the ideal queue takes its
packets, in every run of calls that leaves the tenants as they are configured. Where the
shares of the tenants fit into the capacity, a tenant with a token waits while no more tokens
of other tenants are taken than its token is long.
-/
namespace Hwfq
open GuardedRuns IdealQueue

variable {s : Scheduler} {c : Call} {i off cap : ℕ} {span : ℕ → ℕ}
  {ideal : IdealQueue.State ℕ (SessionState TenantPtr)}

/-- The tenant whose token a call takes. -/
def tokenTaken (s : Scheduler) (c : Call) : Option ℕ :=
  if c.asksSession then (groupSchedulerDequeue s.systemScheduler).1.map (·.entryId) else none

/-- The tenants whose tokens are taken along a run, in their order. -/
def tokensTaken (s : Scheduler) (calls : List Call) : List ℕ :=
  (outputs after tokenTaken s calls).reduceOption

theorem tokensTaken_cons (s : Scheduler) (c : Call) (calls : List Call) :
    tokensTaken s (c :: calls) = (tokenTaken s c).toList ++ tokensTaken (after s c) calls := by
  unfold tokensTaken
  rw [outputs_cons]
  cases tokenTaken s c <;> rfl

/-- A dequeue takes a token and charges the clock for it, whatever becomes of the session; from
then on tokens are only put in. -/
theorem SchedulerInv.token_cases (h : SchedulerInv s) (now : ℕ) :
    (∃ system, groupSchedulerDequeue s.systemScheduler = (none, system) ∧
      (hwfqDequeue s true now).2.2.systemScheduler = system) ∨
    ∃ token system, groupSchedulerDequeue s.systemScheduler = (some token, system) ∧
      TokenTrace (groupSchedulerUpdateVirtualTime system tenantQuantumSize)
        (hwfqDequeue s true now).2.2.systemScheduler := by
  unfold hwfqDequeue
  simp only [Bool.not_true, Bool.false_eq_true, if_false]
  rcases h.select with ⟨system, hd, heq, -⟩ | ⟨token, system, t, flows, hd, -, -, -, hcase⟩
  · left
    refine ⟨system, hd, ?_⟩
    rw [heq]
  · right
    refine ⟨token, system, hd, ?_⟩
    have hsame : (afterSelect s system token.entryId t flows).systemScheduler =
        groupSchedulerUpdateVirtualTime system tenantQuantumSize := rfl
    rw [← hsame]
    generalize afterSelect s system token.entryId t flows = s₁ at hcase ⊢
    rcases hcase with ⟨-, heq⟩ | ⟨q, x, -, -, heq⟩
    · rw [heq]
      exact .refl _
    · rw [heq]
      dsimp only
      split_ifs
      · exact Registers.putBack s₁ token.entryId x
      have hcharge : Registers s₁ (Hwfq.chargeFlow s₁ token.entryId x.workSize) :=
        .of_eq (chargeFlow_system s₁ token.entryId x.workSize)
      generalize Hwfq.chargeFlow s₁ token.entryId x.workSize = s₂ at hcharge ⊢
      split
      · rename_i mem _
        have hfail : Registers s₁ { s₂ with mem := mem } := hcharge
        exact hfail.trans (.putBack _ token.entryId x)
      · rename_i addr mem _
        unfold deliverSession
        dsimp only
        have hadd : Registers s₁
            (Hwfq.addInFlight { s₂ with mem := mem } (newInFlightEntry x addr now)) := hcharge
        have hwait := hadd.trans (.of_eq (recordWait_system _ token.entryId x now))
        exact hwait.trans (.registerIfBacklogged _ token.entryId)

/-- The tokens of a scheduler and the ideal queue that they follow. -/
structure TokensServed (span : ℕ → ℕ) (off cap : ℕ) (s : Scheduler)
    (ideal : IdealQueue.State ℕ (SessionState TenantPtr)) : Prop where
  inv : SchedulerInv s
  bins : s.grid.numBins ≤ 32768
  tokens : TokenQueue span off cap s.systemScheduler ideal

/-- What a call, or a run of calls, makes of the tokens. -/
structure TokenSteps (span : ℕ → ℕ) (cap : ℕ) (ideal : IdealQueue.State ℕ (SessionState TenantPtr))
    (tokens : List ℕ) (es : List (Event ℕ (SessionState TenantPtr)))
    (ideal' : IdealQueue.State ℕ (SessionState TenantPtr)) : Prop where
  run : IdealQueue.Run IdealQueue.Step ideal es ideal'
  events : ∀ e ∈ es, TokenEvent span (tokenCharge cap) e
  taken : taken es = tokens
  charged : IdealQueue.charged es = tokens.length * tokenCharge cap

theorem TokenSteps.append {tokens tokens' : List ℕ}
    {es es' : List (Event ℕ (SessionState TenantPtr))}
    {ideal₁ ideal' : IdealQueue.State ℕ (SessionState TenantPtr)}
    (h : TokenSteps span cap ideal tokens es ideal₁)
    (h' : TokenSteps span cap ideal₁ tokens' es' ideal') :
    TokenSteps span cap ideal (tokens ++ tokens') (es ++ es') ideal' := by
  constructor
  · exact h.run.append h'.run
  · intro e he
    rcases List.mem_append.mp he with he | he
    · exact h.events e he
    · exact h'.events e he
  · rw [← h.taken, ← h'.taken]
    exact List.filterMap_append
  · rw [List.length_append, Nat.add_mul, ← h.charged, ← h'.charged]
    simp only [IdealQueue.charged, List.map_append, List.sum_append]

section TokensServed
variable (h : TokensServed span off cap s ideal)
include h

theorem TokensServed.trace {tokens : List ℕ} {gs : GroupScheduler TenantPtr}
    {es : List (Event ℕ (SessionState TenantPtr))} {off₁ : ℕ}
    {ideal₁ : IdealQueue.State ℕ (SessionState TenantPtr)}
    (hfirst : TokenSteps span cap ideal tokens es ideal₁) (hgs : TokenQueue span off₁ cap gs ideal₁)
    (htrace : TokenTrace gs (after s c).systemScheduler) :
    ∃ off' ideal' es', TokenSteps span cap ideal tokens es' ideal' ∧
      TokensServed span off' cap (after s c) ideal' := by
  have hafter := h.inv.after c
  have hgrid : (after s c).grid = s.grid := grid_of_config (h.inv.after_config c)
  obtain ⟨ideal', es', hrun, hevents, htaken, hcharged, hlast⟩ :=
    hgs.trace htrace hafter.system.distinct hafter.few_tokens
  have hrest : TokenSteps span cap ideal₁ [] es' ideal' :=
    ⟨hrun, hevents, htaken, hcharged.trans (Nat.zero_mul _).symm⟩
  have hall := hfirst.append hrest
  rw [List.append_nil] at hall
  exact ⟨off₁, ideal', _, hall, hafter, hgrid ▸ h.bins, hlast⟩

theorem TokensServed.step (hc : c.configuresTenant = false) :
    ∃ off' ideal' es, TokenSteps span cap ideal (tokenTaken s c).toList es ideal' ∧
      TokensServed span off' cap (after s c) ideal' := by
  have hnothing : TokenSteps span cap ideal [] [] ideal :=
    ⟨.nil _, by simp, rfl, (Nat.zero_mul _).symm⟩
  by_cases hquiet : c.asksSession = false
  · have hnone : (tokenTaken s c).toList = [] := by simp [tokenTaken, hquiet]
    rw [hnone]
    exact h.trace hnothing h.tokens (h.inv.registers hc hquiet)
  cases c with
  | dequeue out now =>
    obtain rfl : out = true := by simpa [Call.asksSession] using hquiet
    have hsearch := h.inv.tokens_searchable h.bins
    rcases h.inv.token_cases now.toNat with ⟨system, hd, heq⟩ | ⟨token, system, hd, htrace⟩
    · have hidle := (h.tokens.implements.idle hsearch (congrArg Prod.fst hd)).2
      rw [hd] at hidle
      have hsame : (after s (.dequeue true now)).systemScheduler = s.systemScheduler :=
        heq.trans hidle
      have hnone : (tokenTaken s (.dequeue true now)).toList = [] := by
        simp [tokenTaken, Call.asksSession, hd]
      rw [hnone]
      refine h.trace hnothing h.tokens ?_
      rw [hsame]
      exact .refl _
    · obtain ⟨off₁, ideal₁, hrun, hturn⟩ := h.tokens.turn hsearch h.inv.few_tokens hd
      have htoken : (tokenTaken s (.dequeue true now)).toList = [token.entryId] := by
        simp [tokenTaken, Call.asksSession, hd]
      rw [htoken]
      refine h.trace ⟨hrun, ?_, rfl, ?_⟩ hturn htrace
      · intro e he
        simp only [List.mem_cons, List.not_mem_nil, or_false] at he
        rcases he with rfl | rfl
        · trivial
        · rfl
      · simp [IdealQueue.charged, Event.charge]
  | _ => exact absurd rfl hquiet

theorem TokensServed.run {calls : List Call} (hcalls : ∀ d ∈ calls, d.configuresTenant = false) :
    ∃ off' ideal' es, TokenSteps span cap ideal (tokensTaken s calls) es ideal' ∧
      TokensServed span off' cap (Hwfq.afterRun s calls) ideal' := by
  induction calls generalizing s off ideal with
  | nil =>
    refine ⟨off, ideal, [], ⟨.nil _, ?_, rfl, (Nat.zero_mul _).symm⟩, h⟩
    simp
  | cons c calls ih =>
    obtain ⟨off₁, ideal₁, es, hfirst, hnext⟩ := h.step (hcalls c List.mem_cons_self)
    obtain ⟨off', ideal', es', hrest, hlast⟩ :=
      ih hnext fun d hd => hcalls d (List.mem_cons_of_mem c hd)
    rw [tokensTaken_cons]
    exact ⟨off', ideal', es ++ es', hfirst.append hrest, hlast⟩

end TokensServed

theorem Made.tokensServed (h : Made s) (hbins : s.grid.numBins ≤ 32768) {setup : List Call}
    (hsetup : ∀ c ∈ setup, c.configures = true) :
    let ready := (Hwfq.afterRun s setup).systemScheduler
    TokensServed (tokenSpan ready) 0 ready.totalCapacity (Hwfq.afterRun s setup)
      (IdealQueue.State.init ℕ (SessionState TenantPtr)) := by
  have hgrid : (Hwfq.afterRun s setup).grid = s.grid :=
    grid_of_config (h.inv.afterRun_config setup)
  have hinv := h.afterRun setup
  obtain ⟨mem, config, hinit⟩ := h
  obtain ⟨mem₀, -, hfresh⟩ := (hwfqInit_success hinit).system
  have hunloaded := (hwfqInit_success hinit).inv.run_unloaded hfresh.unloaded hsetup
  exact ⟨hinv, hgrid ▸ hbins, hunloaded.tokenQueue⟩

/-- However the calls come, as long as they leave the tenants as they are configured: the
system scheduler does what the ideal queue does with the tokens, no finish is capped or cut
off, and the tokens are taken in an order in which the ideal queue takes them. -/
theorem tokens_served_ideally (h : Made s) (hbins : s.grid.numBins ≤ 32768)
    {setup calls : List Call} (hsetup : ∀ c ∈ setup, c.configures = true)
    (hcalls : ∀ c ∈ calls, c.configuresTenant = false) :
    let ready := afterRun s setup
    let system := ready.systemScheduler
    ∃ off ideal es,
      TokenSteps (tokenSpan system) system.totalCapacity
        (IdealQueue.State.init ℕ (SessionState TenantPtr)) (tokensTaken ready calls) es ideal ∧
      Implements off system.totalCapacity (afterRun ready calls).systemScheduler ideal := by
  intro ready system
  obtain ⟨off, ideal, es, hsteps, hserved⟩ := (h.tokensServed hbins hsetup).run hcalls
  exact ⟨off, ideal, es, hsteps, hserved.tokens.implements⟩

theorem tokens_served_ideally_uneven :
    let ready := afterRun smallScheduler twoTenants
    let system := ready.systemScheduler
    let calls := unevenSessions ++ unevenRounds ++ unevenRounds ++ unevenSessions ++ unevenRounds
    ∃ off ideal es,
      TokenSteps (tokenSpan system) system.totalCapacity
        (IdealQueue.State.init ℕ (SessionState TenantPtr)) (tokensTaken ready calls) es ideal ∧
      Implements off system.totalCapacity (afterRun ready calls).systemScheduler ideal := by
  have hbins : smallScheduler.grid.numBins ≤ 32768 := by decide +kernel
  apply tokens_served_ideally smallScheduler_made hbins
  · decide
  · decide

theorem Made.systemLedger (h : Made s) (setup : List Call) :
    EntryLedger (Hwfq.afterRun s setup).systemScheduler :=
  (h.inv.run_ledgers h.ledgers.1 h.ledgers.2 setup).1

/-- Only the entries that are configured have tokens. -/
theorem EntryLedger.sharesTokens {α : Type*} {gs : GroupScheduler α} (h : EntryLedger gs) {S : Shares ℕ}
    {charge : ℕ}
    (hall : ∀ id ∈ gs.configuredEntries, Priced S charge id (tokenSpan gs id) charge) :
    SharesTokens (tokenSpan gs) charge S := by
  intro id hspan
  apply hall id
  rw [h.listed]
  cases hfind : groupSchedulerFindEntry gs id with
  | none =>
    rw [tokenSpan, rateOf, hfind] at hspan
    exact absurd hspan (lt_irrefl 0)
  | some e => rfl

/-- While the token of a tenant waits, the tokens that are taken move the clock by no more
than two of its lengths. -/
theorem TokensServed.wait (h : TokensServed span off cap s ideal) {S : Shares ℕ}
    (hS : SharesTokens span (tokenCharge cap) S) (hflag : Flagged s i) {calls : List Call}
    (hcalls : ∀ c ∈ calls, c.configuresTenant = false) (hothers : i ∉ tokensTaken s calls) :
    (tokensTaken s calls).length * tokenCharge cap ≤ 2 * span i := by
  obtain ⟨off', ideal', es, hsteps, hserved⟩ := h.run hcalls
  obtain ⟨q, hq, hid⟩ := h.inv.token_queued hflag
  obtain ⟨p, hp, hstands⟩ := h.tokens.implements.packet_of hq
  have hitem : p.item.entryId = i := by
    rw [hstands.item, ← hid]
    rfl
  have hstays : p ∈ ideal'.queue := by
    apply hsteps.run.kept hp
    rintro e he rfl
    apply hothers
    rw [← hsteps.taken, ← hitem]
    exact List.mem_filterMap.mpr ⟨_, he, rfl⟩
  have hfinish := h.tokens.solo.finish_le hp
  rw [hstands.flow, hid] at hfinish
  have hclock := hsteps.run.charged
  have hwait := hserved.tokens.wait_le hS hstays
  rw [hsteps.charged] at hclock
  omega

/-- Where the shares of the tenants fit, a tenant with a token waits for a bounded number of
tokens of other tenants, in every run of calls that leaves the tenants as they are configured. -/
theorem tenant_wait_bounded (h : Made s) (hbins : s.grid.numBins ≤ 32768)
    {setup before later : List Call} (hsetup : ∀ c ∈ setup, c.configures = true)
    (hcalls : ∀ c ∈ before ++ later, c.configuresTenant = false) :
    let ready := afterRun s setup
    let system := ready.systemScheduler
    ∀ S : Shares ℕ, SharesTokens (tokenSpan system) (tokenCharge system.totalCapacity) S →
      Flagged (afterRun ready before) i → i ∉ tokensTaken (afterRun ready before) later →
      (tokensTaken (afterRun ready before) later).length * tokenCharge system.totalCapacity ≤
        2 * tokenSpan system i := by
  intro ready system S hS hflag hothers
  obtain ⟨off, ideal, es, -, hserved⟩ := (h.tokensServed hbins hsetup).run
    fun c hc => hcalls c (List.mem_append_left later hc)
  exact hserved.wait hS hflag (fun c hc => hcalls c (List.mem_append_right before hc)) hothers

/-- Each of the two tenants reserves half of the capacity. -/
def halves : Shares ℕ where
  flows := {0, 1}
  weight _ := 1
  total := 2
  positive := Nat.two_pos
  fits := by decide

theorem tenant_wait_bounded_halves :
    let ready := afterRun smallScheduler twoTenants
    let system := ready.systemScheduler
    let middle := afterRun ready (unevenSessions ++ unevenRounds.take 2)
    let later := (unevenRounds.drop 2).take 4
    (tokensTaken middle later).length * tokenCharge system.totalCapacity ≤
      2 * tokenSpan system 1 := by
  have hbins : smallScheduler.grid.numBins ≤ 32768 := by decide +kernel
  have hledger := smallScheduler_made.systemLedger twoTenants
  apply tenant_wait_bounded smallScheduler_made hbins (by decide) (by decide) halves
  · apply hledger.sharesTokens
    decide +kernel
  · decide +kernel
  · decide +kernel

/-! ## Tenants with weights -/

section Weights
variable {α : Type*} {gs : GroupScheduler α}

/-- All entries have weights, and the least of them is still worth two units of capacity. -/
structure Weighted (gs : GroupScheduler α) : Prop where
  positive : 0 < gs.totalCapacity
  capacity : gs.totalCapacity ≤ 2 ^ 32
  weights : weightTotal gs ≤ uint32Max
  entries : ∀ id e, groupSchedulerFindEntry gs id = some e →
    ∃ w, e.allocation = .weight w ∧ 2 * weightTotal gs ≤ w.toNat * gs.totalCapacity

/-- An interval that is not cut to one. -/
theorem intervalAt_bounds {x r : ℕ} (hpos : 0 < r) (hr : r ≤ x) :
    intervalAt r x * r ≤ x ∧ x ≤ 2 * r * intervalAt r x := by
  have hone : 0 < x / r := Nat.div_pos hr hpos
  have hlow := Nat.div_mul_le_self x r
  have hhigh := Nat.lt_div_mul_add hpos (a := x)
  have hself := Nat.le_mul_of_pos_left r hone
  unfold intervalAt
  rw [if_neg hone.ne', Nat.mul_assoc, Nat.mul_comm r]
  omega

theorem tokenCharge_bounds (hpos : 0 < cap) (hcap : cap ≤ 2 ^ 32) :
    tokenCharge cap * cap ≤ 2 ^ 32 ∧ 2 ^ 32 ≤ 2 * cap * tokenCharge cap := by
  have hscaled : chargedWork tenantQuantumSize = 2 ^ 32 :=
    chargedWork_of_lt (by unfold tenantQuantumSize; omega)
  have hsame : tokenCharge cap = intervalAt cap (2 ^ 32) := by
    rw [tokenCharge, hscaled, advanceAt, if_pos hpos]
    rfl
  rw [hsame]
  exact intervalAt_bounds hpos hcap

section Weighted
variable (h : Weighted gs) (hledger : EntryLedger gs)
include h hledger

theorem Weighted.unallocated : unallocated gs = gs.totalCapacity := by
  have hzero : reservedTotal gs = 0 := by
    unfold reservedTotal sumOver
    apply List.sum_eq_zero
    intro x hx
    obtain ⟨id, hid, rfl⟩ := List.mem_map.mp hx
    obtain ⟨e, he⟩ := Option.isSome_iff_exists.mp ((hledger.listed id).mp hid)
    obtain ⟨w, hw, -⟩ := h.entries id e he
    rw [entryAllocations_of_find, he, Option.map_some, hw]
    rfl
  rw [Hwfq.unallocated, hzero, Nat.sub_zero]

/-- The rate of an entry is half of its share, rounded down. -/
theorem Weighted.rate {id : ℕ} {e : EntryConfig} {w : UInt32}
    (hfind : groupSchedulerFindEntry gs id = some e) (hw : e.allocation = .weight w) :
    0 < entryRate gs e ∧ 2 * entryRate gs e ≤ shareOf gs w.toNat ∧
      w.toNat * gs.totalCapacity ≤ 4 * weightTotal gs * entryRate gs e := by
  have hleft := h.unallocated hledger
  have hcap := h.capacity
  have hfit : SharesFit gs := by
    refine ⟨?_, ?_, h.weights⟩
    · unfold uint64Max
      omega
    · have := h.positive
      unfold Hwfq.unallocated at hleft
      omega
  have hweight := hledger.weight_pos hfind hw
  have hproduct : w.toNat * Hwfq.unallocated gs ≤ uint64Max := by
    have hw32 := w.toNat_lt
    have hmul := Nat.mul_le_mul (Nat.le_sub_one_of_lt hw32) hcap
    rw [hleft]
    unfold uint64Max
    omega
  have hexact := (hledger.exact_iff hfit hfind hw).mpr hproduct
  have hrate : entryRate gs e = afterMargin (shareOf gs w.toNat) := by
    rw [← hexact, entryRate, hw]
  obtain ⟨w', hw', hlarge⟩ := h.entries id e hfind
  obtain rfl : w = w' := by
    rw [hw] at hw'
    exact Allocation.weight.inj hw'
  have hpos : 0 < weightTotal gs := by omega
  have hshare : 2 ≤ shareOf gs w.toNat := by
    rw [shareOf, hleft]
    exact (Nat.le_div_iff_mul_le hpos).mpr hlarge
  have hbelow : w.toNat * gs.totalCapacity < weightTotal gs * (shareOf gs w.toNat + 1) := by
    rw [shareOf, hleft]
    exact Nat.lt_mul_div_succ _ hpos
  unfold afterMargin at hrate
  have hround : shareOf gs w.toNat + 1 ≤ 4 * entryRate gs e := by omega
  have hall := Nat.mul_le_mul_left (weightTotal gs) hround
  refine ⟨by omega, by omega, ?_⟩
  rw [Nat.mul_assoc, Nat.mul_left_comm]
  omega

theorem Weighted.rates_fit :
    ∑ id ∈ gs.configuredEntries.toFinset, 2 * (rateOf gs id).getD 0 ≤ gs.totalCapacity := by
  rw [List.sum_toFinset _ hledger.nodup, ← h.unallocated hledger]
  refine le_trans ?_ (shares_total_le gs fun _ => true)
  rw [List.filter_true]
  apply List.sum_le_sum
  intro id hid
  obtain ⟨e, he⟩ := Option.isSome_iff_exists.mp ((hledger.listed id).mp hid)
  obtain ⟨w, hw, -⟩ := h.entries id e he
  have hrate := (h.rate hledger he hw).2.1
  rw [rateOf, he, entryAllocations_of_find, he, Option.map_some, Option.map_some, hw]
  exact hrate

/-- An entry reserves twice its rate. -/
def Weighted.shares : Shares ℕ where
  flows := gs.configuredEntries.toFinset
  weight id := 2 * (rateOf gs id).getD 0
  total := gs.totalCapacity
  positive := h.positive
  fits := h.rates_fit hledger

/-- The token of an entry is as long as a quantum takes at its rate. -/
theorem Weighted.span_bounds {id : ℕ} {e : EntryConfig} {w : UInt32}
    (hfind : groupSchedulerFindEntry gs id = some e) (hw : e.allocation = .weight w) :
    tokenSpan gs id * entryRate gs e ≤ 2 ^ 32 ∧
      2 ^ 32 ≤ 2 * entryRate gs e * tokenSpan gs id := by
  obtain ⟨hpos, htwice, -⟩ := h.rate hledger hfind hw
  have hshare : shareOf gs w.toNat ≤ gs.totalCapacity := by
    rw [shareOf, h.unallocated hledger]
    exact Nat.div_le_of_le_mul (Nat.mul_le_mul_right _ (hledger.weight_pos hfind hw).2)
  have hcap := h.capacity
  have hscaled : taggedWork tenantQuantumSize = 2 ^ 32 := by
    rw [taggedWork_eq]
    unfold tenantQuantumSize uint64Max
    omega
  have hspan : tokenSpan gs id = intervalAt (entryRate gs e) (2 ^ 32) := by
    rw [tokenSpan, rateOf, hfind, Option.map_some, Option.map_some, Option.getD_some,
      serviceIntervalOf_tagged, hscaled]
  rw [hspan]
  exact intervalAt_bounds hpos (by omega)

theorem Weighted.sharesTokens :
    SharesTokens (tokenSpan gs) (tokenCharge gs.totalCapacity) (h.shares hledger) := by
  apply hledger.sharesTokens
  intro id hid
  obtain ⟨e, hfind⟩ := Option.isSome_iff_exists.mp ((hledger.listed id).mp hid)
  obtain ⟨w, hw, -⟩ := h.entries id e hfind
  have hlow := (h.span_bounds hledger hfind hw).2
  have hcharge := (tokenCharge_bounds h.positive h.capacity).1
  constructor
  · exact List.mem_toFinset.mpr hid
  · exact le_rfl
  · have hweight : (h.shares hledger).weight id = 2 * entryRate gs e := by
      simp only [Weighted.shares, rateOf, hfind, Option.map_some, Option.getD_some]
    rw [hweight]
    exact hcharge.trans hlow

end Weighted

/-- Tokens that move a clock by `charge` each, while a token of length `span` waits. -/
theorem tokens_le_of_wait {n charge span rate weight total : ℕ} (hpos : 0 < cap)
    (hwait : n * charge ≤ 2 * span) (hcharge : 2 ^ 32 ≤ 2 * cap * charge)
    (hspan : span * rate ≤ 2 ^ 32) (hrate : weight * cap ≤ 4 * total * rate) :
    n * weight ≤ 16 * total := by
  have hrated : n * rate ≤ 4 * cap := by
    refine Nat.le_of_mul_le_mul_right (c := 2 ^ 32) ?_ (by decide)
    calc n * rate * 2 ^ 32 ≤ n * rate * (2 * cap * charge) := Nat.mul_le_mul_left _ hcharge
      _ = 2 * cap * rate * (n * charge) := by ring
      _ ≤ 2 * cap * rate * (2 * span) := Nat.mul_le_mul_left _ hwait
      _ = 4 * cap * (span * rate) := by ring
      _ ≤ 4 * cap * 2 ^ 32 := Nat.mul_le_mul_left _ hspan
  refine Nat.le_of_mul_le_mul_right (c := cap) ?_ hpos
  calc n * weight * cap = n * (weight * cap) := Nat.mul_assoc _ _ _
    _ ≤ n * (4 * total * rate) := Nat.mul_le_mul_left _ hrate
    _ = 4 * total * (n * rate) := by ring
    _ ≤ 4 * total * (4 * cap) := Nat.mul_le_mul_left _ hrated
    _ = 16 * total * cap := by ring

end Weights

/-- Where all tenants have weights, a tenant with a token waits for no more than sixteen
tokens of other tenants for each of its parts of the total weight. -/
theorem weighted_tenant_wait_bounded (h : Made s) (hbins : s.grid.numBins ≤ 32768)
    {setup before later : List Call} (hsetup : ∀ c ∈ setup, c.configures = true)
    (hcalls : ∀ c ∈ before ++ later, c.configuresTenant = false) {w : UInt32}
    (hweighted : Weighted (afterRun s setup).systemScheduler)
    (hw : (afterRun s setup).allocations i = some (.weight w))
    (hflag : Flagged (afterRun (afterRun s setup) before) i)
    (hothers : i ∉ tokensTaken (afterRun (afterRun s setup) before) later) :
    (tokensTaken (afterRun (afterRun s setup) before) later).length * w.toNat ≤
      16 * weightTotal (afterRun s setup).systemScheduler := by
  have hledger := h.systemLedger setup
  have hinv := h.afterRun setup
  obtain ⟨off, ideal, es, -, hserved⟩ := (h.tokensServed hbins hsetup).run
    fun c hc => hcalls c (List.mem_append_left later hc)
  have hwait := hserved.wait (hweighted.sharesTokens hledger) hflag
    (fun c hc => hcalls c (List.mem_append_right before hc)) hothers
  obtain ⟨e, hfind, halloc⟩ := hinv.findEntry_weight hw
  exact tokens_le_of_wait hweighted.positive hwait
    (tokenCharge_bounds hweighted.positive hweighted.capacity).2
    (hweighted.span_bounds hledger hfind halloc).1 (hweighted.rate hledger hfind halloc).2.2

/-- The first tenant has a quarter of the weight. -/
def oneAndThree : List Call :=
  [.addTenant (some (.weight 1)) true, .addTenant (some (.weight 3)) true,
    .addFlow 0 (some (.weight 1)) true, .addFlow 1 (some (.weight 1)) true]

theorem oneAndThree_weighted : Weighted (afterRun smallScheduler oneAndThree).systemScheduler := by
  have hledger := smallScheduler_made.systemLedger oneAndThree
  have hlisted : (afterRun smallScheduler oneAndThree).systemScheduler.configuredEntries =
      [1, 0] := by decide +kernel
  have hfirst : entryAllocations (afterRun smallScheduler oneAndThree).systemScheduler 0 =
      some (.weight 1) := by decide +kernel
  have hsecond : entryAllocations (afterRun smallScheduler oneAndThree).systemScheduler 1 =
      some (.weight 3) := by decide +kernel
  constructor
  · decide +kernel
  · decide +kernel
  · decide +kernel
  · intro id e hfind
    have hid := (hledger.listed id).mpr (Option.isSome_of_eq_some hfind)
    have halloc := entryAllocations_of_find (afterRun smallScheduler oneAndThree).systemScheduler id
    rw [hfind, Option.map_some] at halloc
    rw [hlisted] at hid
    simp only [List.mem_cons, List.not_mem_nil, or_false] at hid
    rcases hid with rfl | rfl
    · rw [hsecond] at halloc
      exact ⟨3, Option.some.inj halloc.symm, by decide +kernel⟩
    · rw [hfirst] at halloc
      exact ⟨1, Option.some.inj halloc.symm, by decide +kernel⟩

theorem weighted_tenant_wait_bounded_quarter :
    let ready := afterRun smallScheduler oneAndThree
    let busy := afterRun ready unevenSessions
    (tokensTaken busy (unevenRounds.take 2)).length * 1 ≤ 16 * weightTotal ready.systemScheduler := by
  have hbins : smallScheduler.grid.numBins ≤ 32768 := by decide +kernel
  apply weighted_tenant_wait_bounded smallScheduler_made hbins (i := 0) (w := 1)
  · decide
  · decide
  · exact oneAndThree_weighted
  · decide +kernel
  · decide +kernel
  · decide +kernel

end Hwfq
