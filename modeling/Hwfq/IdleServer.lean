import Hwfq.TenantTokens

/-!
# An idle server serves

When nothing is in flight, every queued session that fits into the capacity can be
handed out. A dequeue then succeeds if the tokens lead to a session: every tenant with
sessions has a token, every tenant with a token has sessions, and both calendars have
a choice.
-/
namespace Hwfq
open GuardedRuns

variable {s s' : Scheduler} {c : Call} {i : ℕ} {t : Tenant}

/-! ## The condition on a call -/

/-- Accepted sessions fit into the capacity, and a dequeue finds a token it can choose
and loses no session that it puts back. -/
def ServesIdle (s : Scheduler) (c : Call) : Prop :=
  KeepsTokens s c ∧
    match c with
    | .enqueue _ _ work _ => ∀ w ∈ work, w.workSize.toNat ≤ s.totalCapacity
    | .dequeue true _ =>
        (s.systemScheduler.queued ≠ 0 → Servable s.systemScheduler) ∧
          ∀ p ∈ putBackPoint s, takesBack p
    | _ => True

structure Serving (s : Scheduler) : Prop where
  kept : TokensKept s
  fits : ∀ x ∈ s.queuedSessions, x.workSize ≤ s.totalCapacity
  loaded : ∀ i, Flagged s i → s.queue i ≠ 0

/-! ## Queues of single tenants -/

theorem SchedulerInv.queue_balance (h : SchedulerInv s) (c : Call) (j : ℕ) :
    s.queue j + (accepted s c).filter (fun x => x.tenantId = j) =
      (Hwfq.after s c).queue j +
        ((delivered s c).map Prod.fst + disposed s c + lost s c).filter fun x => x.tenantId = j := by
  rw [← h.queue_filter, ← (h.after c).queue_filter, ← Multiset.filter_add, ← Multiset.filter_add,
    (h.balanced c).queued]

/-- Sessions are disposed of with their tenant. -/
theorem SchedulerInv.disposed_unflagged (h : SchedulerInv s) {x : FlowSessionContext}
    (hx : x ∈ disposed s c) : ¬ Flagged (Hwfq.after s c) x.tenantId := by
  cases c with
  | removeTenant i =>
    rcases (h.removeTenant i.toNat).2 with ⟨hbad, heq⟩ | ⟨t, ht, hidle, heq⟩
    · have hstatus : (respond s (.removeTenant i)).status ≠ .success := hbad
      rw [disposed, if_neg hstatus] at hx
      exact absurd hx (Multiset.notMem_zero x)
    · have hstatus : (respond s (.removeTenant i)).status = .success := congrArg Prod.fst heq
      have hstate : Hwfq.after s (.removeTenant i) = Hwfq.tenantRemoved s i.toNat t :=
        congrArg (fun r => r.2.2) heq
      rw [disposed, if_pos hstatus] at hx
      rw [h.queued_tenant hx, hstate]
      rintro ⟨u, hu, -⟩
      have hgone : (Hwfq.tenantRemoved s i.toNat t).tenants i.toNat = none :=
        Function.update_self ..
      rw [hgone] at hu
      cases hu
  | _ => exact absurd hx (Multiset.notMem_zero x)

/-- A call that takes no token leaves every tenant that has one with its sessions. -/
theorem Serving.loaded_quiet (h : Serving s) (hq : c.asksSession = false) :
    ∀ j, Flagged (after s c) j → (after s c).queue j ≠ 0 := by
  intro j hflag hzero
  have hbalance := h.kept.inv.queue_balance c j
  have hnone : (disposed s c).filter (fun x => x.tenantId = j) = 0 := by
    apply Multiset.filter_eq_nil.mpr
    rintro x hx rfl
    exact h.kept.inv.disposed_unflagged hx hflag
  rw [delivered_none (newEntry_quiet hq), lost_quiet hq, hzero, Multiset.map_zero, zero_add,
    add_zero, zero_add, hnone, add_eq_zero] at hbalance
  rcases (h.kept.inv.flagStep hq).gains j hflag with hold | hold | ⟨x, hx, htenant⟩
  · exact h.loaded j hold hbalance.1
  · exact hold hbalance.1
  · exact Multiset.filter_eq_nil.mp hbalance.2 x hx htenant

/-! ## Dequeue -/

/-- Taking a token clears one flag. -/
theorem afterSelect_flagged {system : GroupScheduler TenantPtr}
    {flows : GroupScheduler FlowSessionContext} {j : ℕ}
    (hj : Flagged (afterSelect s system i t flows) j) : j ≠ i ∧ Flagged s j := by
  obtain ⟨u, hu, hflag⟩ := hj
  have hne : j ≠ i := by
    rintro rfl
    have hself : (afterSelect s system j t flows).tenants j =
        some { t with hasBacklog := false, tenantSession := none, flowScheduler := flows } :=
      Function.update_self ..
    rw [hself] at hu
    rw [← Option.some.inj hu] at hflag
    cases hflag
  exact ⟨hne, u, (Function.update_of_ne hne _ _).symm.trans hu, hflag⟩

/-- The tenant that was asked has a token afterwards only if its session was put back or
it has others. -/
theorem SchedulerInv.dequeue_gains (h : SchedulerInv s) (now : UInt64) {j : ℕ}
    (hj : Flagged (Hwfq.after s (.dequeue true now)) j) :
    (Flagged s j ∧ ∀ x ∈ chosen s, x.tenantId ≠ j) ∨
      (s.queue j ≠ 0 ∧ (putBackPoint s).isSome = true) ∨
      (Hwfq.after s (.dequeue true now)).queue j ≠ 0 := by
  have hstate : Hwfq.after s (.dequeue true now) = (hwfqDequeue s true now.toNat).2.2 := rfl
  have hrefused : ∀ {status s₁}, dequeueSelect s = (.refused status, s₁) →
      ∀ x ∈ chosen s, x.tenantId ≠ j := by
    intro status s₁ heq x hx
    rw [chosen, heq] at hx
    cases hx
  rcases h.select with ⟨system, -, heq, -⟩ | ⟨token, system, t, flows, -, ht, -, hinv, hcase⟩
  · rw [hstate, dequeue_refused heq] at hj
    exact .inl ⟨hj, hrefused heq⟩
  rcases hcase with ⟨-, heq⟩ | ⟨q, x, htake, hcar, heq⟩
  · rw [hstate, dequeue_refused heq] at hj
    exact .inl ⟨(afterSelect_flagged hj).2, hrefused heq⟩
  have hselected := Selected.of_select ht htake hcar heq hinv
  rcases (hselected.flagStep now).gains j hj with hold | ⟨rfl, hpoint | hqueue⟩
  · obtain ⟨hne, hflag⟩ := afterSelect_flagged hold
    refine .inl ⟨hflag, fun y hy => ?_⟩
    rw [hselected.taken.chosen, Option.mem_some_iff] at hy
    rw [← hy, hcar.tenant]
    exact hne.symm
  · refine .inr (.inl ⟨?_, hpoint⟩)
    rw [hselected.taken.queue h]
    exact Multiset.cons_ne_zero
  · exact .inr (.inr hqueue)

/-- A session that is put back is not delivered. -/
theorem SchedulerInv.putBack_delivered (h : SchedulerInv s) (now : UInt64)
    (hpoint : (putBackPoint s).isSome = true) : delivered s (.dequeue true now) = 0 := by
  have hcall := (h.dequeue true now.toNat).2
  generalize hstatus : (hwfqDequeue s true now.toNat).1 = status at hcall
  generalize (hwfqDequeue s true now.toNat).2.1 = delivery at hcall
  generalize (hwfqDequeue s true now.toNat).2.2 = s' at hcall
  cases hcall with
  | refused _ point _ =>
    rw [point rfl] at hpoint
    cases hpoint
  | missed _ point _ _ _ =>
    rw [point rfl] at hpoint
    cases hpoint
  | putBack failed _ _ _ =>
    rw [← hstatus] at failed
    exact (nothing_moved (c := .dequeue true now) h failed).2.1
  | delivered _ _ delivers =>
    rw [delivers.point] at hpoint
    cases hpoint

theorem Serving.loaded_asked (h : Serving s) {now : UInt64}
    (hback : ∀ p ∈ putBackPoint s, takesBack p) :
    ∀ j, Flagged (after s (.dequeue true now)) j → (after s (.dequeue true now)).queue j ≠ 0 := by
  intro j hflag hzero
  have hlost : lost s (.dequeue true now) = 0 := by
    cases hpoint : putBackPoint s with
    | none => exact lost_none hpoint
    | some p => rw [lost_some rfl hpoint, if_pos (hback p hpoint)]
  have hbalance := h.kept.inv.queue_balance (.dequeue true now) j
  have haccepted : accepted s (.dequeue true now) = 0 := rfl
  have hdisposed : disposed s (.dequeue true now) = 0 := rfl
  rw [haccepted, hdisposed, hlost, hzero, Multiset.filter_zero, add_zero, add_zero, add_zero,
    zero_add] at hbalance
  rcases h.kept.inv.dequeue_gains now hflag with ⟨hold, hothers⟩ | ⟨hne, hpoint⟩ | hne
  · apply h.loaded j hold
    rw [hbalance]
    apply Multiset.filter_eq_nil.mpr
    intro x hx
    exact hothers x (delivered_chosen hx)
  · rw [h.kept.inv.putBack_delivered now hpoint] at hbalance
    exact hne hbalance
  · exact hne hzero

theorem Serving.step (h : Serving s) (hc : ServesIdle s c) : Serving (after s c) := by
  have hinv := h.kept.inv
  have hconf : (after s c).totalCapacity = s.totalCapacity :=
    congrArg (·.totalCapacity.toNat) (hinv.after_config c)
  constructor
  · exact h.kept.step hc.1
  · intro x hx
    rw [hconf]
    have hin : x ∈ s.queuedSessions + accepted s c := by
      rw [(hinv.balanced c).queued]
      exact Multiset.mem_add.mpr (.inl hx)
    rcases Multiset.mem_add.mp hin with hin | hin
    · exact h.fits x hin
    · cases c with
      | enqueue i f work now =>
        cases work with
        | none => exact absurd hin (Multiset.notMem_zero x)
        | some w =>
          rw [accepted] at hin
          split_ifs at hin
          · rw [Multiset.mem_singleton.mp hin]
            exact hc.2 w rfl
          · exact absurd hin (Multiset.notMem_zero x)
      | _ => exact absurd hin (Multiset.notMem_zero x)
  · cases hask : c.asksSession with
    | false => exact h.loaded_quiet hask
    | true =>
      cases c with
      | dequeue out now =>
        obtain rfl : out = true := hask
        exact h.loaded_asked hc.2.2
      | _ => cases hask

/-! ## The answer of an idle server -/

theorem idle_fits (h : SchedulerInv s) (hidle : s.inFlight = []) {x : FlowSessionContext}
    (hx : x.workSize ≤ s.totalCapacity) : overCapacity s x = false := by
  have hzero : s.inFlightWorkSize = 0 := by
    rw [h.totals.workSize, hidle]
    unfold u64
    rfl
  have hcapacity : s.totalCapacity ≤ uint64Max := by
    have hlt := s.config.totalCapacity.toNat_lt
    have hcap : s.totalCapacity = s.config.totalCapacity.toNat := rfl
    unfold uint64Max
    omega
  rw [overCapacity, hzero, zero_add, u64_of_le (hx.trans hcapacity),
    decide_eq_false (Nat.not_lt.mpr hx), Bool.and_false]

/-- With all memory granted an idle server puts no session back that fits into the capacity. -/
theorem SchedulerInv.idle_point (h : SchedulerInv s) (hmem : s.mem.AlwaysOk) (hidle : s.inFlight = [])
    (hfits : ∀ x ∈ chosen s, x.workSize ≤ s.totalCapacity) : putBackPoint s = none := by
  rcases h.select with ⟨system, -, heq, -⟩ | ⟨token, system, t, flows, -, ht, -, hafter, hcase⟩
  · exact putBackPoint_refused heq
  rcases hcase with ⟨-, heq⟩ | ⟨q, x, htake, hcar, heq⟩
  · exact putBackPoint_refused heq
  have hselected := Selected.of_select ht htake hcar heq hafter
  have hunder : overCapacity (afterSelect s system token.entryId t flows) x = false :=
    idle_fits hafter hidle (hfits x hselected.taken.chosen)
  obtain ⟨-, u, -, -, -, -, -, hcharged⟩ := hafter.charged hselected.tenant x.workSize
  have hgrant : (Hwfq.chargeFlow (afterSelect s system token.entryId t flows) token.entryId
      x.workSize).mem.AlwaysOk := hcharged ▸ hmem
  rw [putBackPoint, heq]
  dsimp only
  rw [if_neg (by simp [hunder]), hwfqAlloc_alwaysOk hgrant (by decide)]

theorem Serving.serves (h : Serving s) {now : UInt64} (hc : ServesIdle s (.dequeue true now))
    (hidle : s.inFlight = []) (hwork : s.queuedSessions ≠ 0) :
    (respond s (.dequeue true now)).status = .success := by
  have hinv := h.kept.inv
  have hstatus : (respond s (.dequeue true now)).status = (hwfqDequeue s true now.toNat).1 := rfl
  rw [hstatus]
  obtain ⟨hcall, hserve, -⟩ := hc
  have hsystem : s.systemScheduler.queued ≠ 0 := by
    obtain ⟨x, hx⟩ := Multiset.exists_mem_of_ne_zero hwork
    obtain ⟨i, -, hi⟩ := Scheduler.mem_queuedSessions.mp hx
    have hne : s.queue i ≠ 0 := fun hzero => Multiset.notMem_zero x (hzero ▸ hi)
    obtain ⟨t, ht, hflag⟩ := h.kept.flagged i hne
    have hface : s.faces i = some t.face := by rw [Scheduler.faces, ht, Option.map_some]
    obtain ⟨q, hq, -⟩ := hinv.system.registered i t.face hface hflag
    exact fun hzero => Multiset.notMem_zero q (hzero ▸ hq)
  have htoken := ((hinv.tokens_searchable h.kept.numBins).dequeue_isSome_iff_servable
    hinv.card_tokens).mpr (hserve hsystem)
  rcases hinv.select with ⟨system, hd, -⟩ | ⟨token, system, t, flows, hd, ht, hflag, hafter, hcase⟩
  · dsimp only at htoken
    rw [hd] at htoken
    cases htoken
  obtain ⟨hcard, hflows, -⟩ := hcall t (hinv.nextTenant_eq hd ht)
  have htenant := (hinv.tenants _ t ht).flows
  have hbusy : t.flowScheduler.queued ≠ 0 := by
    intro hzero
    have hcards := hinv.card_queue ht
    rw [hzero, Multiset.card_zero, Multiset.card_eq_zero] at hcards
    exact h.loaded _ ((flagged_some ht).mpr hflag) hcards
  have hsession := ((htenant.searchable (h.kept.flows_numBins ht)).dequeue_isSome_iff_servable
    hcard).mpr (hflows hbusy)
  rcases hcase with ⟨hmiss, -⟩ | ⟨q, x, htake, hcar, heq⟩
  · dsimp only at hsession
    rw [hmiss] at hsession
    cases hsession
  have hselected := Selected.of_select ht htake hcar heq hafter
  have hchosen := hselected.taken.chosen
  have hfits : ∀ y ∈ chosen s, y.workSize ≤ s.totalCapacity := by
    intro y hy
    rw [hchosen, Option.mem_some_iff] at hy
    subst hy
    apply h.fits
    apply Scheduler.mem_queuedSessions.mpr
    refine ⟨token.entryId, hinv.lt_maxTenants ht, ?_⟩
    rw [hselected.taken.queue hinv]
    exact Multiset.mem_cons_self x _
  have hpoint := hinv.idle_point h.kept.granted hidle hfits
  exact dequeue_delivers (Option.isSome_of_eq_some hchosen) hpoint now.toNat

/-- A dequeue on an idle server with queued sessions succeeds, in every run whose accepted
sessions fit into the capacity and whose dequeues find a token and a session to choose. -/
theorem idle_server_serves (h : Made s) (hmem : s.mem.AlwaysOk) (hreached : Reached s)
    {calls : List Call} {now : UInt64}
    (hcalls : Along after ServesIdle s (calls ++ [.dequeue true now]))
    (hidle : (afterRun s calls).inFlight = []) (hwork : (afterRun s calls).queuedSessions ≠ 0) :
    (respond (afterRun s calls) (.dequeue true now)).status = .success := by
  obtain ⟨mem, config, hinit⟩ := h
  have hnew := hwfqInit_success hinit
  obtain ⟨hbefore, hlast, -⟩ := (along_append s calls _).mp hcalls
  have hqueue : ∀ i, s.queue i = 0 := fun i => queue_none (congrFun hnew.tenants i)
  have hfirst : Serving s :=
    { kept := hnew.tokensKept hmem hreached
      fits := by
        intro x hx
        obtain ⟨i, -, hi⟩ := Scheduler.mem_queuedSessions.mp hx
        rw [hqueue i] at hi
        exact absurd hi (Multiset.notMem_zero x)
      loaded := by
        rintro i ⟨t, ht, -⟩
        rw [hnew.tenants] at ht
        cases ht }
  have hrun : Serving (afterRun s calls) :=
    run_invariant (fun _ _ hs hc => hs.step hc) hfirst hbefore
  exact hrun.serves hlast hidle hwork

/-- One session of the given size for the only flow of the only tenant. -/
def singleSession (workSize : UInt64) : List Call :=
  [.addTenant (some (.weight 1)) true, .addFlow 0 (some (.weight 1)) true,
    .enqueue 0 1 (some { userData := 7, workSize := workSize }) 0]

theorem singleSession_queued (w : UInt64)
    (hcard : (afterRun smallScheduler (singleSession w)).queuedSessions.card = 1) :
    (afterRun smallScheduler (singleSession w)).queuedSessions ≠ 0 := by
  intro hzero
  rw [hzero] at hcard
  cases hcard

theorem idle_server_serves_small :
    (respond (afterRun smallScheduler (singleSession 100)) (.dequeue true 0)).status =
      .success := by
  have hlast : let s := afterRun smallScheduler (singleSession 100)
      (∀ t ∈ nextTenant s, t.flowScheduler.queued.card ≤ uint32Max ∧ Servable t.flowScheduler ∧
        Registrable s t.tenantId) ∧
      Servable s.systemScheduler ∧ ∀ p ∈ putBackPoint s, takesBack p := by
    decide +kernel
  have hreg : Registrable (afterRun smallScheduler [.addTenant (some (.weight 1)) true,
      .addFlow 0 (some (.weight 1)) true]) 0 := by
    decide +kernel
  apply idle_server_serves smallScheduler_made smallScheduler_granted
  · show smallScheduler.numGroups * smallScheduler.binsPerGroup ≤ 32768
    decide +kernel
  · refine ⟨⟨trivial, trivial⟩, ⟨trivial, trivial⟩, ⟨fun t _ => .inr hreg, ?_⟩, ⟨?_, ?_⟩, trivial⟩
    · rintro w hw
      rw [← Option.some.inj hw]
      decide +kernel
    · intro t ht
      obtain ⟨hcard, hserve, hagain⟩ := hlast.1 t ht
      exact ⟨hcard, fun _ => hserve, fun _ => hagain⟩
    · exact ⟨fun _ => hlast.2.1, hlast.2.2⟩
  · decide +kernel
  · exact singleSession_queued 100 (by decide +kernel)

/-- A session of 101 is accepted and never handed out. -/
theorem idle_server_refuses :
    let s := afterRun smallScheduler (singleSession 101)
    Made smallScheduler ∧ smallScheduler.mem.AlwaysOk ∧ s.inFlight = [] ∧
      s.queuedSessions ≠ 0 ∧ (respond s (.dequeue true 0)).status = .noWork := by
  refine ⟨smallScheduler_made, smallScheduler_granted, ?_, ?_, ?_⟩
  · decide +kernel
  · exact singleSession_queued 101 (by decide +kernel)
  · decide +kernel

end Hwfq
