import Hwfq.FlowDelay
import Hwfq.TenantWaits
import Mathlib.Tactic.Linarith

/-!
# How long a session waits

A session waits for the sessions of its tenant that are served before it, and each of these for
the token of the tenant. Where both levels keep to their shares and every session of the tenant
that is taken is delivered, an accepted session is among those that a bounded number of dequeues
take, whatever the other tenants do.
-/
namespace Hwfq
open GuardedRuns IdealQueue

variable {s : Scheduler} {c : Call} {i off cap least : ℕ} {span : ℕ → ℕ}
  {ideal : IdealQueue.State ℕ (SessionState TenantPtr)}

/-! ## Tokens -/

theorem tokensTaken_append (s : Scheduler) (calls later : List Call) :
    tokensTaken s (calls ++ later) = tokensTaken s calls ++ tokensTaken (afterRun s calls) later := by
  induction calls generalizing s with
  | nil => rfl
  | cons c calls ih =>
    rw [List.cons_append, tokensTaken_cons, ih, tokensTaken_cons, List.append_assoc]
    rfl

/-- The first call that takes the token of tenant `i`. -/
theorem first_token {calls : List Call} (hi : i ∈ tokensTaken s calls) :
    ∃ early c late, calls = early ++ c :: late ∧ i ∉ tokensTaken s early ∧
      tokenTaken (afterRun s early) c = some i := by
  induction calls generalizing s with
  | nil => cases hi
  | cons c calls ih =>
    rw [tokensTaken_cons, List.mem_append, Option.mem_toList] at hi
    by_cases hfirst : tokenTaken s c = some i
    · exact ⟨[], c, calls, rfl, List.not_mem_nil, hfirst⟩
    · obtain ⟨early, d, late, rfl, hearly, htoken⟩ := ih (hi.resolve_left hfirst)
      refine ⟨c :: early, d, late, rfl, ?_, htoken⟩
      rw [tokensTaken_cons, List.mem_append, Option.mem_toList]
      rintro (hbad | hbad)
      · exact hfirst hbad
      · exact hearly hbad

/-- Between two tokens of a tenant that always has one, the others move the clock by no more
than two of its lengths. -/
theorem TokensServed.waits (h : TokensServed span off cap s ideal) {S : Shares ℕ}
    (hS : SharesTokens span (tokenCharge cap) S) {calls : List Call}
    (hcalls : ∀ d ∈ calls, d.configuresTenant = false)
    (hflag : Along Hwfq.after (fun u _ => Flagged u i) s calls) :
    (tokensTaken s calls).length * tokenCharge cap ≤
      ((tokensTaken s calls).count i + 1) * (2 * span i) +
        (tokensTaken s calls).count i * tokenCharge cap := by
  induction hn : calls.length using Nat.strong_induction_on generalizing s off ideal calls with
  | _ n ih =>
    by_cases hi : i ∈ tokensTaken s calls
    · obtain ⟨early, c, late, rfl, hearly, htoken⟩ := first_token hi
      obtain ⟨-, -, hlate⟩ := (along_append _ _ _).mp hflag
      have hfirst : Flagged s i := by
        cases early with
        | nil => exact hflag.1
        | cons d early => exact hflag.1
      have hwait := h.wait hS hfirst (fun d hd => hcalls d (List.mem_append_left _ hd)) hearly
      have hquiet : ∀ d ∈ early ++ [c], d.configuresTenant = false := by
        intro d hd
        apply hcalls d
        simp only [List.mem_append, List.mem_cons, List.not_mem_nil, or_false] at hd ⊢
        tauto
      obtain ⟨off₁, ideal₁, -, -, h₁⟩ := h.run hquiet
      have hstate : Hwfq.afterRun s (early ++ [c]) = Hwfq.after (Hwfq.afterRun s early) c :=
        run_append s early [c]
      rw [hstate] at h₁
      have hless : late.length < n := by
        rw [← hn, List.length_append, List.length_cons]
        omega
      have hrest := ih late.length hless h₁
        (fun d hd => hcalls d (List.mem_append_right _ (List.mem_cons_of_mem c hd))) hlate rfl
      have hnone : (tokensTaken s early).count i = 0 := List.count_eq_zero.mpr hearly
      rw [tokensTaken_append, tokensTaken_cons, htoken]
      simp only [Option.toList_some, List.length_append, List.length_cons, List.length_nil,
        List.count_append, List.count_cons_self, List.count_nil, hnone]
      generalize (tokensTaken (Hwfq.after (Hwfq.afterRun s early) c) late).length = b at hrest ⊢
      generalize (tokensTaken (Hwfq.after (Hwfq.afterRun s early) c) late).count i = k at hrest ⊢
      linarith only [hwait, hrest]
    · cases calls with
      | nil => exact (Nat.zero_mul _).trans_le (Nat.zero_le _)
      | cons c calls =>
        have hwait := h.wait hS hflag.1 hcalls hi
        rw [List.count_eq_zero.mpr hi]
        omega

/-! ## Sessions -/

/-- In service a dequeue takes the session of the tenant whose token it takes. -/
theorem InService.chooses (h : InService s) (hne : s.queue i ≠ 0) (now : UInt64) :
    ∃ x, chosen s = some x ∧ tokenTaken s (.dequeue true now) = some x.tenantId := by
  have hkept := h.serving.kept
  have hinv := hkept.inv
  have hbusy : s.systemScheduler.queued ≠ 0 := by
    obtain ⟨q, hq, -⟩ := hinv.token_queued (hkept.flagged i hne)
    exact fun hzero => Multiset.notMem_zero q (hzero ▸ hq)
  have hfound := (hinv.token_found hkept.numBins h.near).mpr hbusy
  rcases hinv.select with ⟨system, hd, -⟩ | ⟨token, system, t, flows, hd, ht, hflag, -, hcase⟩
  · rw [hd] at hfound
    cases hfound
  have hloaded := h.serving.loaded _ ((flagged_some ht).mpr hflag)
  have hqueued : t.flowScheduler.queued ≠ 0 := by
    intro hzero
    have hcards := hinv.card_queue ht
    rw [hzero, Multiset.card_zero, Multiset.card_eq_zero] at hcards
    exact hloaded hcards
  have hchoose := h.flows _ t.core (cores_some ht)
  have hsearch := (hinv.tenants _ t ht).flows.searchable (hkept.flows_numBins ht)
  have hserve := (hsearch.dequeue_isSome_iff_servable hchoose.few).mpr
    (hchoose.servable hsearch hqueued)
  rcases hcase with ⟨hmiss, -⟩ | ⟨q, x, -, hcar, heq⟩
  · dsimp only at hserve
    rw [hmiss] at hserve
    cases hserve
  · refine ⟨x, ?_, ?_⟩
    · rw [chosen, heq]
    · simp [tokenTaken, Call.asksSession, hd, hcar.tenant]

/-- A dequeue takes a token, and a session of tenant `i` with a token of tenant `i`. -/
theorem InService.turn (h : InService s) (hne : s.queue i ≠ 0) (c : Call) :
    (tokenTaken s c).toList.length = (if c.asksSession then 1 else 0) ∧
      (tokenTaken s c).toList.count i = (leaves i s c).length := by
  cases hask : c.asksSession with
  | false => simp [tokenTaken, leaves, hask]
  | true =>
    cases c with
    | dequeue out now =>
      obtain rfl : out = true := hask
      obtain ⟨x, hchosen, htoken⟩ := h.chooses hne now
      rw [htoken, leaves_asked hchosen]
      by_cases hi : x.tenantId = i <;> simp [hi]
    | _ => cases hask

/-- While a tenant has sessions queued it always has a token, every dequeue takes one, and those
of the tenant are as many as its sessions that are taken. -/
theorem InService.turns (h : InService s) {calls : List Call}
    (hcalls : Along Hwfq.after KeepsService s calls)
    (hbusy : Along Hwfq.after (fun u _ => u.queue i ≠ 0) s calls) :
    (tokensTaken s calls).length = calls.countP Call.asksSession ∧
      (tokensTaken s calls).count i = (outputs Hwfq.after (leaves i) s calls).flatten.length ∧
      Along Hwfq.after (fun u _ => Flagged u i) s calls := by
  induction calls generalizing s with
  | nil => exact ⟨rfl, rfl, trivial⟩
  | cons c calls ih =>
    obtain ⟨hlength, hcount, hflag⟩ := ih (h.step hcalls.1) hcalls.2 hbusy.2
    obtain ⟨htoken, hsession⟩ := h.turn hbusy.1 c
    rw [tokensTaken_cons, outputs_cons, List.flatten_cons, List.length_append, List.length_append,
      List.count_append, List.countP_cons, htoken, hsession, hlength, hcount]
    exact ⟨Nat.add_comm _ _, rfl, h.serving.kept.flagged i hbusy.1, hflag⟩

/-- The sessions of tenant `i` that a call takes are delivered, and each is charged for `least`
or more. -/
def ChargesLeast (least i : ℕ) (s : Scheduler) (c : Call) : Prop :=
  c.asksSession = true → (∀ p ∈ putBackPoint s, p.2.1 ≠ i) ∧
    ∀ t ∈ s.tenants i, ∀ x ∈ chosen s, x.tenantId = i →
      least ≤ virtualTimeDelta t.flowScheduler x.workSize

instance (least i : ℕ) (s : Scheduler) (c : Call) : Decidable (ChargesLeast least i s c) :=
  inferInstanceAs (Decidable (c.asksSession = true → (∀ p ∈ putBackPoint s, p.2.1 ≠ i) ∧
    ∀ t ∈ s.tenants i, ∀ x ∈ chosen s, x.tenantId = i →
      least ≤ virtualTimeDelta t.flowScheduler x.workSize))

theorem ChargesLeast.charge (hc : ChargesLeast least i s c) (h : SchedulerInv s) :
    (leaves i s c).length * least ≤ flowCharge i s c := by
  cases hask : c.asksSession with
  | false => simp [leaves, hask]
  | true =>
    obtain ⟨hback, hleast⟩ := hc hask
    rcases h.asked_tenant with ⟨hnone, -⟩ | ⟨x, hchosen, hthere, hsame⟩
    · simp [leaves, hask, hnone]
    by_cases hi : x.tenantId = i
    · have hpoint : putBackPoint s = none := by
        apply Option.eq_none_iff_forall_not_mem.mpr
        intro p hp
        exact hback p hp ((hsame p hp).trans hi)
      obtain ⟨t, ht⟩ := Option.isSome_iff_exists.mp hthere
      rw [hi] at ht
      have hcharge := hleast t ht x hchosen hi
      simpa [leaves, flowCharge, hask, hchosen, hi, ht, hpoint, Option.filter_some] using hcharge
    · simp [leaves, hask, hchosen, hi, Option.filter_some]

theorem charges_least (h : SchedulerInv s) {calls : List Call}
    (hcalls : Along after (ChargesLeast least i) s calls) :
    (outputs after (leaves i) s calls).flatten.length * least ≤
      (outputs after (flowCharge i) s calls).sum := by
  induction calls generalizing s with
  | nil => simp
  | cons c calls ih =>
    have hfirst := hcalls.1.charge h
    have hrest := ih (h.after c) hcalls.2
    rw [outputs_cons, outputs_cons, List.flatten_cons, List.length_append, List.sum_cons,
      Nat.add_mul]
    exact Nat.add_le_add hfirst hrest

/-! ## The bound -/

/-- What the tenant is charged for while the session waits bounds the sessions of the tenant, and
these bound the tokens of the others. -/
theorem dequeues_le {dequeues sessions charge least bound span : ℕ}
    (hsessions : sessions * least ≤ bound)
    (htokens : dequeues * charge ≤ (sessions + 1) * (2 * span) + sessions * charge) :
    dequeues * charge * least ≤ bound * (2 * span + charge) + 2 * span * least := by
  calc dequeues * charge * least
      ≤ ((sessions + 1) * (2 * span) + sessions * charge) * least :=
        Nat.mul_le_mul_right least htokens
    _ = sessions * least * (2 * span + charge) + 2 * span * least := by ring
    _ ≤ bound * (2 * span + charge) + 2 * span * least :=
        Nat.add_le_add_right (Nat.mul_le_mul_right _ hsessions) _

/-- Both levels together: while an accepted session waits, no more dequeues are made than its
flow, the intervals of the sessions and the token of its tenant account for. -/
theorem session_wait_bounded (h : Made s) (hmem : s.mem.AlwaysOk) (hgroups : 15 < s.numGroups)
    (hreached : Reached s) (S T : Shares ℕ) {most : ℕ} (hmost : most < 2 ^ 62)
    {setup before later : List Call} {j f : UInt32} {w : Session} {now : UInt64}
    (hsetup : ∀ c ∈ setup, c.configures = true)
    (hcalls : ∀ c ∈ before ++ later, c.configuresTenant = false)
    (hservice : Along after KeepsService s
      (setup ++ (before ++ .enqueue j f (some w) now :: later)))
    (hshares : Along after (ServesFlows S most j.toNat) s
      (setup ++ (before ++ .enqueue j f (some w) now :: later)))
    {system : GroupScheduler TenantPtr} (hsystem : system = (afterRun s setup).systemScheduler)
    (htokens : SharesTokens (tokenSpan system) (tokenCharge system.totalCapacity) T)
    {s₁ : Scheduler} (hs₁ : s₁ = afterRun s (setup ++ before)) {t : Tenant}
    (ht : s₁.tenants j.toNat = some t) {entry : EntryConfig}
    (hentry : findFlowEntry t f.toNat = some entry)
    (haccept : (respond s₁ (.enqueue j f (some w) now)).status = .success)
    (hleast : Along after (ChargesLeast least j.toNat) (after s₁ (.enqueue j f (some w) now)) later)
    (hwaits : newContext s₁ s₁.mem.next j.toNat f.toNat w now.toNat ∉
      (outputs after (leaves j.toNat) (after s₁ (.enqueue j f (some w) now)) later).flatten) :
    later.countP Call.asksSession * tokenCharge system.totalCapacity * least ≤
      ((entry.lastFinishTime - t.flowScheduler.virtualTime) +
          serviceIntervalOf w.workSize.toNat (entryRate t.flowScheduler entry) + most) *
        (2 * tokenSpan system j.toNat + tokenCharge system.totalCapacity) +
      2 * tokenSpan system j.toNat * least := by
  have hbins : s.grid.numBins ≤ 32768 := hreached.numBins.trans_le hreached
  rw [← List.append_assoc] at hservice hshares
  obtain ⟨hserved, hcall, hlater⟩ := (along_append _ _ _).mp hservice
  obtain ⟨hshared, hoffer⟩ := (along_append _ _ _).mp hshares
  have hstate : GuardedRuns.run after s (setup ++ before) = s₁ := hs₁.symm
  rw [hstate] at hcall hlater hoffer
  -- the tenant is charged for a bounded amount
  obtain ⟨ideal, htimed⟩ := (h.flowTimed hbins S most j.toNat).run hmost hshared
  rw [← hs₁] at htimed
  obtain ⟨hdelay, hbusy⟩ := htimed.delay hmost rfl hoffer ht hentry haccept hwaits
  -- every dequeue takes a token
  have hin := (h.run_inService hmem hgroups hreached hserved)
  rw [← hs₁] at hin
  have hnext := hin.step hcall
  obtain ⟨hdequeues, hturns, hflag⟩ := hnext.turns hlater hbusy
  have hcharges := charges_least hnext.serving.kept.inv hleast
  -- and between two tokens of the tenant the others have a bounded share
  have hquiet : ∀ d ∈ before ++ [Call.enqueue j f (some w) now], d.configuresTenant = false := by
    intro d hd
    rcases List.mem_append.mp hd with hd | hd
    · exact hcalls d (List.mem_append_left later hd)
    · rw [List.mem_singleton.mp hd]
      rfl
  obtain ⟨off, tokens, -, -, hready⟩ := (h.tokensServed hbins hsetup).run hquiet
  have hafter : afterRun (afterRun s setup) (before ++ [.enqueue j f (some w) now]) =
      after s₁ (.enqueue j f (some w) now) := by
    simp only [afterRun, hs₁, run_append, run_cons, run_nil]
  rw [hafter, ← hsystem] at hready
  have hturn := hready.waits htokens (fun d hd => hcalls d (List.mem_append_right before hd)) hflag
  rw [hdequeues, hturns] at hturn
  apply dequeues_le _ hturn
  omega

/-- Two tenants with equal weights, the first one with two flows. -/
def threeFlows : List Call :=
  [.addTenant (some (.weight 1)) true, .addTenant (some (.weight 1)) true,
    .addFlow 0 (some (.rate 20)) true, .addFlow 0 (some (.weight 3)) true,
    .addFlow 1 (some (.weight 1)) true]

def firstSessions : List Call :=
  [.enqueue 0 1 (some { userData := 7, workSize := 5 }) 0,
    .enqueue 0 2 (some { userData := 8, workSize := 9 }) 0, .dequeue true 0, .dequeue true 0]

/-- A session of the other tenant and one of the other flow are served first. -/
def othersFirst : List Call :=
  [.enqueue 1 1 (some { userData := 20, workSize := 10 }) 0,
    .enqueue 1 1 (some { userData := 21, workSize := 10 }) 0,
    .enqueue 0 2 (some { userData := 10, workSize := 2 }) 0, .dequeue true 0, .dequeue true 0]

theorem session_wait_bounded_others :
    let system := (afterRun smallScheduler threeFlows).systemScheduler
    let s₁ := afterRun smallScheduler (threeFlows ++ firstSessions)
    ∀ t entry, s₁.tenants 0 = some t → findFlowEntry t 1 = some entry →
      othersFirst.countP Call.asksSession * tokenCharge system.totalCapacity * 20971 ≤
        ((entry.lastFinishTime - t.flowScheduler.virtualTime) +
            serviceIntervalOf 7 (entryRate t.flowScheduler entry) + 100000) *
          (2 * tokenSpan system 0 + tokenCharge system.totalCapacity) +
        2 * tokenSpan system 0 * 20971 := by
  intro system s₁ t entry ht hentry
  have hreached : smallScheduler.numGroups * smallScheduler.binsPerGroup ≤ 32768 := by
    decide +kernel
  have hservice : Along after KeepsService smallScheduler (threeFlows ++ (firstSessions ++
      .enqueue 0 1 (some { userData := 9, workSize := 7 }) 0 :: othersFirst)) := by
    decide +kernel
  have hshares : Along after (ServesFlows threeQuarters 100000 (0 : UInt32).toNat) smallScheduler
      (threeFlows ++ (firstSessions ++
        .enqueue 0 1 (some { userData := 9, workSize := 7 }) 0 :: othersFirst)) := by
    decide +kernel
  have htokens : SharesTokens (tokenSpan system) (tokenCharge system.totalCapacity) halves := by
    apply (smallScheduler_made.systemLedger threeFlows).sharesTokens
    decide +kernel
  apply session_wait_bounded smallScheduler_made smallScheduler_granted (by decide +kernel) hreached
    threeQuarters halves (by decide) (by decide) (by decide) hservice hshares rfl htokens rfl ht
    hentry
  · decide +kernel
  · decide +kernel
  · decide +kernel

end Hwfq
