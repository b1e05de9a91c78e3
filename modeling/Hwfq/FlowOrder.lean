import Hwfq.EntryOrder
import Hwfq.FlowEffects

/-!
# The order of the sessions of a flow

Through both levels of the scheduler the sessions of a flow come out in the order in which they
went in. A session that a dequeue puts back has come out and goes in once more, behind those
that were queued after it.
-/
namespace Hwfq
open GuardedRuns

variable {mem : Allocator} {i f : ℕ} {gs gs' flows : GroupScheduler FlowSessionContext}
  {line : List (SessionState FlowSessionContext)}

/-! ## Lines of one flow scheduler -/

/-- The contexts of a line of sessions. -/
def carried (line : List (SessionState FlowSessionContext)) : List FlowSessionContext :=
  line.filterMap (·.userData)

theorem carried_append (line line' : List (SessionState FlowSessionContext)) :
    carried (line ++ line') = carried line ++ carried line' := List.filterMap_append

section Lines
variable (h : InLine f gs line)
include h

theorem InLine.retagged {set drop : Option ℕ} (hr : Retagged set drop gs gs')
    (hset : set = some f → ∀ q ∈ gs.ofEntry f, q.finishTime ≤ gs.virtualTime) :
    InLine f gs' line := by
  apply h.of_queueView hr.view
  intro e he q hq
  have htag := hr.tags f
  rw [finishTag, he, Option.map_some] at htag
  split_ifs at htag with hf
  · exact (hset hf q (h.sessions ▸ hq)).trans (le_max_left _ _)
  · obtain ⟨e₀, he₀, hsame⟩ := Option.map_eq_some_iff.mp htag.symm
    rw [← hsame]
    exact h.behind e₀ he₀ q hq

theorem InLine.undisturbed (hsame : Undisturbed gs gs') : InLine f gs' line := by
  apply h.retagged hsame
  intro heq
  cases heq

theorem InLine.missed (hinv : GroupInv mem gs) (hmiss : groupSchedulerDequeue gs = (none, gs')) :
    InLine f gs' line := by
  have hgs : gs' = ((⟨mem, gs⟩ : GroupState FlowSessionContext).step .dequeue).gs := by
    rw [GroupState.step, hmiss]
  have hret : (groupSchedulerDequeue gs).1 = none := congrArg Prod.fst hmiss
  rw [hgs]
  cases @GroupInv.stepEffect _ ⟨mem, gs⟩ hinv .dequeue with
  | @missed v _ later returned after =>
    rw [after]
    constructor
    · exact h.sessions
    · exact h.chained
    · intro e he q hq
      have hlast := h.behind e he q hq
      dsimp only at later ⊢
      omega
  | dequeued _ _ returned =>
    dsimp only at returned
    rw [hret] at returned
    cases returned

/-- A session of the flow that is dequeued stood at the head of the line. -/
theorem InLine.taken (hinv : GroupInv mem gs) (hbins : gs.numBins ≤ 32768)
    {q : SessionState FlowSessionContext} {x : FlowSessionContext} (hcar : Carries i q x)
    (htake : groupSchedulerDequeue gs = (some q, flows)) :
    ∃ line', InLine f flows line' ∧
      [x].filter (·.flowId = f) ++ carried line' = carried line := by
  have hgs : flows = ((⟨mem, gs⟩ : GroupState FlowSessionContext).step .dequeue).gs := by
    rw [GroupState.step, htake]
  have hret : (groupSchedulerDequeue gs).1 = some q := congrArg Prod.fst htake
  rw [hgs]
  cases @GroupInv.stepEffect _ ⟨mem, gs⟩ hinv .dequeue with
  | missed _ _ returned =>
    dsimp only at returned
    rw [hret] at returned
    cases returned
  | @dequeued q' _ found returned after =>
    dsimp only at returned
    rw [hret] at returned
    cases returned
    obtain ⟨line', hline', hsplit⟩ := h.dequeue hinv.calendar hbins found
    refine ⟨line', after ▸ hline', ?_⟩
    rw [hsplit, carried_append, carried, carried]
    have hflow := hcar.flow
    by_cases hq : q.entryId = f
    · rw [if_pos hq, List.filterMap_cons_some hcar.data]
      simp [hflow, hq]
    · rw [if_neg hq]
      simp [hflow, hq]

/-- A session that is offered goes to the end of the line of its flow if it is accepted. -/
theorem InLine.offered (hinv : GroupInv mem gs) {x : FlowSessionContext} (mem' : Allocator)
    (hroom : x.flowId = f → ∀ q ∈ gs.ofEntry f, q.finishTime < uint64Max) :
    let r := groupSchedulerEnqueue mem' gs x.flowId x.workSize (some x) true
    ∃ line', InLine f r.gs line' ∧
      carried line' =
        carried line ++ (if r.status = .success then [x] else []).filter (·.flowId = f) := by
  intro r
  rcases enqueue_cases mem' gs x.flowId x.workSize (some x) true with
    ⟨hbad, hsame, -⟩ | ⟨hok, -, -, -, entry, hadm, heq⟩
  · refine ⟨line, ?_, ?_⟩
    · exact hsame.symm ▸ h
    · rw [if_neg hbad]
      exact (List.append_nil _).symm
  · rw [if_pos hok]
    by_cases hf : x.flowId = f
    · subst hf
      refine ⟨_, heq.symm ▸ h.enqueue hinv hadm (hroom rfl), ?_⟩
      rw [carried_append]
      simp [carried, newSession]
    · refine ⟨line, heq.symm ▸ h.enqueue_other hf rfl (hadm.fits _ _ _), ?_⟩
      simp [hf]

theorem InLine.charged (hinv : GroupInv mem gs) (w : ℕ)
    (hkept : ∀ q ∈ gs.ofEntry f, ∀ r ∈ gs.ofEntry f, q.finishTime < r.finishTime →
      updateOffset gs w < r.finishTime) :
    ∃ line', InLine f (groupSchedulerUpdateVirtualTime gs w) line' ∧
      carried line' = carried line := by
  refine ⟨_, h.update hinv w hkept, ?_⟩
  rw [carried, List.filterMap_map]
  rfl

end Lines

/-! ## One public call -/

variable {s : Scheduler} {c : Call} {t : Tenant}

/-- What keeps the sessions of flow `f` of tenant `i` in order: a configuration of the flow leaves
none of them ahead of the clock, an enqueue or a put-back finds none of them saturated, a rebase
does not pass a finish time that another one precedes, and the tenant is not removed with
sessions of the flow queued. -/
def KeepsFlowOrder (i f : ℕ) (s : Scheduler) (c : Call) : Prop :=
  ∀ t ∈ s.tenants i,
    (configuredFlow s i c = some f →
      ∀ q ∈ t.flowScheduler.ofEntry f, q.finishTime ≤ t.flowScheduler.virtualTime) ∧
    match c with
    | .enqueue j g _ _ => j.toNat = i → g.toNat = f →
        ∀ q ∈ t.flowScheduler.ofEntry f, q.finishTime < uint64Max
    | .dequeue true _ => ∀ x ∈ chosen s, x.tenantId = i →
        let flows := (groupSchedulerDequeue t.flowScheduler).2
        (∀ q ∈ flows.ofEntry f, ∀ r ∈ flows.ofEntry f, q.finishTime < r.finishTime →
          updateOffset flows x.workSize < r.finishTime) ∧
        ((putBackPoint s).isSome = true → x.flowId = f →
          ∀ q ∈ flows.ofEntry f, q.finishTime < uint64Max)
    | .removeTenant j => j.toNat = i → (respond s (.removeTenant j)).status = .success →
        t.flowScheduler.ofEntry f = 0
    | _ => True

instance (i f : ℕ) (s : Scheduler) (c : Call) : Decidable (KeepsFlowOrder i f s c) := by
  unfold KeepsFlowOrder
  have hcall : ∀ t : Tenant, Decidable (match c with
      | .enqueue j g _ _ => j.toNat = i → g.toNat = f →
          ∀ q ∈ t.flowScheduler.ofEntry f, q.finishTime < uint64Max
      | .dequeue true _ => ∀ x ∈ chosen s, x.tenantId = i →
          let flows := (groupSchedulerDequeue t.flowScheduler).2
          (∀ q ∈ flows.ofEntry f, ∀ r ∈ flows.ofEntry f, q.finishTime < r.finishTime →
            updateOffset flows x.workSize < r.finishTime) ∧
          ((putBackPoint s).isSome = true → x.flowId = f →
            ∀ q ∈ flows.ofEntry f, q.finishTime < uint64Max)
      | .removeTenant j => j.toNat = i → (respond s (.removeTenant j)).status = .success →
          t.flowScheduler.ofEntry f = 0
      | _ => True) := by
    intro t
    split <;> infer_instance
  infer_instance

/-- Charging the clock saturates no session. -/
theorem room_after_update {w : ℕ} (h : ∀ q ∈ flows.ofEntry f, q.finishTime < uint64Max) :
    ∀ q ∈ (groupSchedulerUpdateVirtualTime flows w).ofEntry f, q.finishTime < uint64Max := by
  intro q hq
  obtain ⟨hin, hid⟩ := Multiset.mem_filter.mp hq
  rw [updateVirtualTime_queued] at hin
  obtain ⟨r, hr, rfl⟩ := Multiset.mem_map.mp hin
  have hlt := h r (Multiset.mem_filter.mpr ⟨hr, hid⟩)
  rw [rebase_finishTime]
  omega

/-- What the condition says of a dequeue that takes a session of the tenant. -/
theorem KeepsFlowOrder.asked (hkept : KeepsFlowOrder i f s c) (hask : c.asksSession = true)
    {q : SessionState FlowSessionContext} {x : FlowSessionContext}
    (htaken : Taken s i t q x flows) :
    (∀ q ∈ flows.ofEntry f, ∀ r ∈ flows.ofEntry f, q.finishTime < r.finishTime →
      updateOffset flows x.workSize < r.finishTime) ∧
    ((putBackPoint s).isSome = true → x.flowId = f →
      ∀ q ∈ flows.ofEntry f, q.finishTime < uint64Max) := by
  cases c with
  | dequeue out now =>
    cases out with
    | true =>
      have hcall := (hkept t htaken.tenant).2 x htaken.chosen htaken.carries.tenant
      rw [htaken.dequeued] at hcall
      exact hcall
    | false => cases hask
  | _ => cases hask

/-- The sessions of a flow that a call takes stood at the head of the line, and those that it
enters stand at the end. -/
theorem FlowEffect.inLine (heff : FlowEffect s c i t gs') (ht : s.tenants i = some t)
    (hinv : TenantInv mem i t) (hbins : t.flowScheduler.numBins ≤ 32768)
    (hkept : KeepsFlowOrder i f s c) (h : InLine f t.flowScheduler line) :
    ∃ line', InLine f gs' line' ∧
      (leaves i s c).filter (·.flowId = f) ++ carried line' =
        carried line ++ (enters i s c).filter (·.flowId = f) := by
  have hgroup := hinv.flows.group
  obtain ⟨hset, hcall⟩ := hkept t ht
  cases heff with
  | edited retagged left entered =>
    refine ⟨line, h.retagged retagged hset, ?_⟩
    rw [left, entered]
    exact (List.append_nil _).symm
  | @accepted j g w now mem' x call tenant context _ _ success result left entered =>
    subst call
    have hsame := t.mapStats_undisturbed x.flowId Stats.backlogUp
    have hstats := h.undisturbed hsame
    have hroom : x.flowId = f →
        ∀ q ∈ (t.mapStats x.flowId Stats.backlogUp).flowScheduler.ofEntry f,
          q.finishTime < uint64Max := by
      intro hf q hq
      rw [GroupScheduler.ofEntry, queued_of_queueView hsame.view] at hq
      rw [context] at hf
      exact hcall tenant hf q hq
    obtain ⟨line', hline', hcarried⟩ :=
      hstats.offered (hinv.mapStats x.flowId Stats.backlogUp).flows.group mem' hroom
    refine ⟨line', result ▸ hline', ?_⟩
    rw [offerResult] at success
    rw [left, entered, hcarried, if_pos success]
    rfl
  | missed _ dequeued left entered =>
    refine ⟨line, h.missed hgroup dequeued, ?_⟩
    rw [left, entered]
    exact (List.append_nil _).symm
  | @putBack q x flows s₁ t₁ asked taken before result left entered =>
    obtain ⟨hrebase, hroom⟩ := hkept.asked asked taken
    have hroom₁ := hroom (by rw [before.point]; rfl)
    have hflows := (hinv.flows.take taken.dequeued).1.group
    obtain ⟨line₁, hline₁, hhead⟩ := h.taken hgroup hbins taken.carries taken.dequeued
    -- The clock may have been charged before the session is put back.
    have hback : ∃ line₂, InLine f t₁.flowScheduler line₂ ∧ carried line₂ = carried line₁ ∧
        (x.flowId = f → ∀ q ∈ t₁.flowScheduler.ofEntry f, q.finishTime < uint64Max) := by
      rcases before.flows with heq | heq
      · rw [heq]
        exact ⟨line₁, hline₁, rfl, hroom₁⟩
      · rw [heq]
        obtain ⟨line₂, hline₂, hsame⟩ := hline₁.charged hflows x.workSize hrebase
        exact ⟨line₂, hline₂, hsame, fun hf => room_after_update (hroom₁ hf)⟩
    obtain ⟨line₂, hline₂, hsame, hroom₂⟩ := hback
    have hinv₁ := (before.inv.tenants i t₁ before.tenant).flows.group
    obtain ⟨line', hline', hcarried⟩ := hline₂.offered hinv₁ (registerTenantBacklog s₁ i).2.mem hroom₂
    refine ⟨line', result ▸ hline', ?_⟩
    rw [left, entered, hcarried, hsame, ← hhead, List.append_assoc]
    rfl
  | @delivered q x flows asked point taken same left entered =>
    obtain ⟨hrebase, -⟩ := hkept.asked asked taken
    have hflows := (hinv.flows.take taken.dequeued).1.group
    obtain ⟨line₁, hline₁, hhead⟩ := h.taken hgroup hbins taken.carries taken.dequeued
    obtain ⟨line₂, hline₂, hcarried⟩ := hline₁.charged hflows x.workSize hrebase
    refine ⟨line₂, hline₂.undisturbed same, ?_⟩
    rw [left, entered, hcarried, hhead]
    exact (List.append_nil _).symm

/-! ## Runs -/

/-- The sessions of flow `f` of tenant `i` that a call takes out of the flow scheduler. -/
def flowLeaves (i f : ℕ) (s : Scheduler) (c : Call) : List FlowSessionContext :=
  (leaves i s c).filter (·.flowId = f)

/-- The sessions of flow `f` of tenant `i` that a call enters into the flow scheduler. -/
def flowEnters (i f : ℕ) (s : Scheduler) (c : Call) : List FlowSessionContext :=
  (enters i s c).filter (·.flowId = f)

/-- A scheduler in which the queued sessions of flow `f` of tenant `i` stand in the order `l`. -/
structure FlowLined (i f : ℕ) (s : Scheduler) (l : List FlowSessionContext) : Prop where
  inv : SchedulerInv s
  grid : OnGrid s s.cores
  bins : s.grid.numBins ≤ 32768
  absent : s.tenants i = none → l = []
  lined : ∀ t, s.tenants i = some t → ∃ line, InLine f t.flowScheduler line ∧ carried line = l

theorem InLine.nil (hempty : gs.ofEntry f = 0) : InLine f gs [] := by
  constructor
  · exact hempty.symm
  · exact List.Pairwise.nil
  · intro e _ q hq
    cases hq

theorem FlowLined.step {l : List FlowSessionContext} (h : FlowLined i f s l)
    (hkept : KeepsFlowOrder i f s c) :
    ∃ l', FlowLined i f (after s c) l' ∧
      flowLeaves i f s c ++ l' = l ++ flowEnters i f s c := by
  unfold flowLeaves flowEnters
  have hnext := h.inv.after c
  have hgrid := h.inv.onGrid h.grid c
  have hbins : (after s c).grid.numBins ≤ 32768 :=
    (congrArg Geometry.numBins (grid_of_config (h.inv.after_config c))).trans_le h.bins
  cases ht : s.tenants i with
  | none =>
    obtain ⟨hleft, hentered⟩ := h.inv.quiet_slot ht c
    rw [hleft, hentered, h.absent ht]
    refine ⟨[], ⟨hnext, hgrid, hbins, fun _ => rfl, fun t' ht' => ⟨[], .nil ?_, rfl⟩⟩, rfl⟩
    obtain ⟨cap, maxEntries, mem, hfresh⟩ := h.inv.new_slot ht ht'
    rw [GroupScheduler.ofEntry, hfresh.queued]
    rfl
  | some t =>
    obtain ⟨line, hline, rfl⟩ := h.lined t ht
    cases ht' : (after s c).tenants i with
    | none =>
      obtain ⟨j, rfl, hj, hok⟩ := h.inv.freed_slot ht ht'
      have hempty : t.flowScheduler.ofEntry f = 0 := (hkept t ht).2 hj hok
      have hnil : line = [] := by
        rw [← hline.sessions, Multiset.coe_eq_zero] at hempty
        exact hempty
      subst hnil
      refine ⟨[], ⟨hnext, hgrid, hbins, fun _ => rfl, fun u hu => ?_⟩, rfl⟩
      rw [ht'] at hu
      cases hu
    | some t' =>
      have hsmall : t.flowScheduler.numBins ≤ 32768 :=
        (congrArg Geometry.numBins (h.grid i t.core (cores_some ht))).trans_le h.bins
      obtain ⟨line', hline', hsplit⟩ :=
        (h.inv.flowEffect ht ht').inLine ht (h.inv.tenants i t ht) hsmall hkept hline
      refine ⟨carried line', ⟨hnext, hgrid, hbins, fun hnone => ?_, fun u hu => ?_⟩, hsplit⟩
      · rw [ht'] at hnone
        cases hnone
      · rw [ht'] at hu
        cases hu
        exact ⟨line', hline', rfl⟩

/-- A line of sessions holds what is queued for its flow. -/
theorem carried_line {line : List (SessionState FlowSessionContext)} (hinv : FlowsInv mem i gs)
    (h : InLine f gs line) :
    (carried line : Multiset FlowSessionContext) = (contexts gs).filter (·.flowId = f) := by
  have hall : ∀ m : Multiset (SessionState FlowSessionContext), (∀ q ∈ m, q ∈ gs.queued) →
      (m.filter (·.entryId = f)).filterMap (·.userData) =
        (m.filterMap (·.userData)).filter (·.flowId = f) := by
    intro m hm
    induction m using Multiset.induction with
    | empty => rfl
    | cons q m ih =>
      obtain ⟨x, hcar⟩ := hinv.carried q (hm q (Multiset.mem_cons_self q m))
      have hrest := ih fun r hr => hm r (Multiset.mem_cons_of_mem hr)
      rw [Multiset.filterMap_cons_some _ _ _ hcar.data]
      by_cases hq : q.entryId = f
      · have hx : x.flowId = f := hcar.flow.trans hq
        rw [Multiset.filter_cons_of_pos (p := fun q : SessionState FlowSessionContext =>
          q.entryId = f) _ hq, Multiset.filter_cons_of_pos (p := fun x : FlowSessionContext =>
          x.flowId = f) _ hx, Multiset.filterMap_cons_some _ _ _ hcar.data, hrest]
      · have hx : ¬ x.flowId = f := hcar.flow ▸ hq
        rw [Multiset.filter_cons_of_neg (p := fun q : SessionState FlowSessionContext =>
          q.entryId = f) _ hq, Multiset.filter_cons_of_neg (p := fun x : FlowSessionContext =>
          x.flowId = f) _ hx, hrest]
  rw [contexts, ← hall gs.queued fun q hq => hq, carried, ← Multiset.filterMap_coe, h.sessions]
  rfl

/-- What a run takes out of a flow, in order. -/
def flowTaken (i f : ℕ) (s : Scheduler) (calls : List Call) : List FlowSessionContext :=
  (outputs after (flowLeaves i f) s calls).flatten

/-- What a run enters into a flow, in order. -/
def flowEntered (i f : ℕ) (s : Scheduler) (calls : List Call) : List FlowSessionContext :=
  (outputs after (flowEnters i f) s calls).flatten

theorem Made.flowLined (h : Made s) (hbins : s.grid.numBins ≤ 32768) (i f : ℕ) :
    FlowLined i f s [] := by
  obtain ⟨mem, config, hinit⟩ := h
  have hnew := hwfqInit_success hinit
  have hnone : ∀ j, s.tenants j = none := fun j => congrFun hnew.tenants j
  refine ⟨hnew.inv, hnew.placed.grid, hbins, fun _ => rfl, fun t ht => ?_⟩
  rw [hnone] at ht
  cases ht

/-- In every run that keeps the order of a flow its sessions come out in the order in which
they were entered, and those that are still queued are the rest. -/
theorem flow_fifo (h : Made s) (hbins : s.grid.numBins ≤ 32768) (i f : ℕ) {calls : List Call}
    (hkept : Along after (KeepsFlowOrder i f) s calls) :
    ∃ waiting, flowEntered i f s calls = flowTaken i f s calls ++ waiting ∧
      (waiting : Multiset FlowSessionContext) =
        ((afterRun s calls).queue i).filter (·.flowId = f) := by
  have hstep : ∀ s c l, FlowLined i f s l → KeepsFlowOrder i f s c →
      ∃ l', FlowLined i f (after s c) l' ∧ flowLeaves i f s c ++ l' = l ++ flowEnters i f s c :=
    fun _ _ _ hl hc => hl.step hc
  obtain ⟨l, hl, hhistory⟩ := line_history hstep (h.flowLined hbins i f) hkept
  refine ⟨l, hhistory.symm, ?_⟩
  cases ht : (afterRun s calls).tenants i with
  | none =>
    rw [queue_none ht, hl.absent ht]
    rfl
  | some t =>
    obtain ⟨line, hline, rfl⟩ := hl.lined t ht
    rw [queue_some ht]
    exact carried_line (hl.inv.tenants i t ht).flows hline

/-- Of three sessions of a flow the second does not fit beside the first and is put back behind
the third. -/
def overtakenSession : List Call :=
  [.addTenant (some (.weight 1)) true, .addFlow 0 (some (.weight 1)) true,
    .enqueue 0 1 (some { userData := 7, workSize := 60 }) 0,
    .enqueue 0 1 (some { userData := 8, workSize := 60 }) 0,
    .enqueue 0 1 (some { userData := 9, workSize := 30 }) 0,
    .dequeue true 0, .dequeue true 0, .dequeue true 0,
    .complete 0 1 (some { userData := 7, workSize := 60 }), .dequeue true 0]

example : (flowTaken 0 1 smallScheduler overtakenSession).map (·.userData) = [7, 8, 9, 8] := by
  decide +kernel

theorem flow_fifo_overtaken :
    ∃ waiting, flowEntered 0 1 smallScheduler overtakenSession =
        flowTaken 0 1 smallScheduler overtakenSession ++ waiting ∧
      (waiting : Multiset FlowSessionContext) =
        ((afterRun smallScheduler overtakenSession).queue 0).filter (·.flowId = 1) :=
  flow_fifo smallScheduler_made (by decide +kernel) 0 1 (by decide +kernel)

end Hwfq
