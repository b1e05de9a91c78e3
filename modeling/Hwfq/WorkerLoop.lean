import Hwfq.Workers

/-!
# The loop of a woken worker

The worker dequeues and completes what it is given until a dequeue is refused. On an idle
server that has stayed in service the loop hands out every queued session, each of them once,
and it leaves nothing queued and nothing in flight.
-/
namespace Hwfq
open GuardedRuns

variable {s : Scheduler} {c : Call} {x : FlowSessionContext}

/-! ## The loop -/

/-- `hwfq_complete` on what `hwfq_dequeue` has written through its output pointers. -/
def Delivery.completion (d : Delivery) : Call :=
  .complete (.ofNat d.tenantId) (.ofNat d.flowId)
    (some { userData := .ofNat d.userData, workSize := .ofNat d.workSize })

/-- `while (hwfq_dequeue(...) == HWFQ_SUCCESS) hwfq_complete(...)`, for as many rounds as
there are readings of the clock. -/
def workerLoop (s : Scheduler) : List UInt64 → List Delivery × Scheduler
  | [] => ([], s)
  | now :: times =>
      let s₁ := after s (.dequeue true now)
      match (respond s (.dequeue true now)).status, (respond s (.dequeue true now)).delivery with
      | .success, some d =>
          let (served, s₂) := workerLoop (after s₁ d.completion) times
          (d :: served, s₂)
      | _, _ => ([], s₁)

/-! ## Sessions that a call can name -/

/-- The ids and the user data fit the types of the interface. -/
structure Nameable (x : FlowSessionContext) : Prop where
  tenant : (UInt32.ofNat x.tenantId).toNat = x.tenantId
  flow : (UInt32.ofNat x.flowId).toNat = x.flowId
  userData : (UInt64.ofNat x.userData).toNat = x.userData

/-- A scheduler in service whose queued sessions can all be named. -/
structure Workable (s : Scheduler) : Prop where
  service : InService s
  nameable : ∀ x ∈ s.queuedSessions, Nameable x

theorem Workable.inv (h : Workable s) : SchedulerInv s := h.service.serving.kept.inv

theorem accepted_nameable (hx : x ∈ accepted s c) : Nameable x := by
  cases c with
  | enqueue i f work now =>
    cases work with
    | none => exact absurd hx (Multiset.notMem_zero x)
    | some w =>
      rw [accepted] at hx
      split_ifs at hx
      · rw [Multiset.mem_singleton.mp hx]
        constructor
        · exact congrArg UInt32.toNat (UInt32.ofNat_toNat (x := i))
        · exact congrArg UInt32.toNat (UInt32.ofNat_toNat (x := f))
        · exact congrArg UInt64.toNat (UInt64.ofNat_toNat (x := w.userData))
      · exact absurd hx (Multiset.notMem_zero x)
  | _ => exact absurd hx (Multiset.notMem_zero x)

theorem Workable.step (h : Workable s) (hc : KeepsService s c) : Workable (after s c) := by
  constructor
  · exact h.service.step hc
  · intro x hx
    have hin : x ∈ s.queuedSessions + accepted s c := by
      rw [(h.inv.balanced c).queued]
      exact Multiset.mem_add.mpr (.inl hx)
    rcases Multiset.mem_add.mp hin with hold | hnew
    · exact h.nameable x hold
    · exact accepted_nameable hnew

/-! ## One round -/

/-- Dequeues and completions leave the weights of the tenants alone. -/
theorem SchedulerInv.weights_kept (h : SchedulerInv s) (hc : c.configuresTenant = false) :
    weightTotal (Hwfq.after s c).systemScheduler = weightTotal s.systemScheduler := by
  have hkept := (h.systemTrace hc).ratesKept
  unfold weightTotal sumOver
  rw [hkept.configuredEntries]
  congr 1
  apply List.map_congr_left
  intro id _
  rw [entryAllocations_of_face, hkept.faces, entryAllocations_of_face]

/-- An idle server puts nothing back. -/
theorem Serving.idle_point (h : Serving s) (hidle : s.inFlight = []) : putBackPoint s = none := by
  have hinv := h.kept.inv
  rcases hinv.select with ⟨system, -, heq, -⟩ | ⟨token, system, t, flows, -, ht, -, hafter, hcase⟩
  · exact putBackPoint_refused heq
  rcases hcase with ⟨-, heq⟩ | ⟨q, x, htake, hcar, heq⟩
  · exact putBackPoint_refused heq
  have hselected := Selected.of_select ht htake hcar heq hafter
  have hfits : x.workSize ≤ s.totalCapacity := by
    apply h.fits
    apply Scheduler.mem_queuedSessions.mpr
    refine ⟨token.entryId, hinv.lt_maxTenants ht, ?_⟩
    rw [hselected.taken.queue hinv]
    exact Multiset.mem_cons_self x _
  have hunder : overCapacity (afterSelect s system token.entryId t flows) x = false :=
    idle_fits hafter hidle hfits
  obtain ⟨-, u, -, -, -, -, -, hmem⟩ := hafter.charged hselected.tenant x.workSize
  have hgrant : (Hwfq.chargeFlow (afterSelect s system token.entryId t flows) token.entryId
      x.workSize).mem.AlwaysOk := hmem ▸ h.kept.granted
  rw [hselected.putBackPoint_eq, if_neg (by simp [hunder]), hwfqAlloc_alwaysOk hgrant (by decide)]

section Round
variable (h : Workable s) (hfit : weightTotal s.systemScheduler ≤ uint32Max)
  (hidle : s.inFlight = []) (now : UInt64)
include h hfit hidle

theorem Workable.asks : KeepsService s (.dequeue true now) := by
  refine ⟨hfit, ?_⟩
  intro p hp
  rw [h.service.serving.idle_point hidle] at hp
  cases hp

/-- A worker is handed a session as long as one is queued. -/
theorem Workable.handed (hwork : s.queuedSessions ≠ 0) :
    ∃ x addr, (respond s (.dequeue true now)).status = .success ∧
      (respond s (.dequeue true now)).delivery = some x.delivery ∧
      (after s (.dequeue true now)).inFlight = [newInFlightEntry x addr now.toNat] ∧
      s.queuedSessions = x ::ₘ (after s (.dequeue true now)).queuedSessions := by
  have hkeeps := h.asks hfit hidle now
  have hok := h.service.serving.serves (h.service.servesIdle hkeeps) hidle hwork
  obtain ⟨x, addr, -, hmade, hreport⟩ := h.inv.delivery hok
  have hbalance := h.inv.balanced (.dequeue true now)
  have hflight := hbalance.flight
  have hqueued := hbalance.queued
  have hended : ended s (.dequeue true now) = 0 := rfl
  have haccepted : accepted s (.dequeue true now) = 0 := rfl
  have hdisposed : disposed s (.dequeue true now) = 0 := rfl
  rw [hmade, hidle, hended, Multiset.map_singleton, Multiset.coe_nil, zero_add, add_zero] at hflight
  rw [hmade, haccepted, hdisposed, hkeeps.lost_none, Multiset.map_singleton, add_zero, add_zero,
    add_zero, add_comm, Multiset.singleton_add] at hqueued
  refine ⟨x, addr, hok, hreport, ?_, hqueued⟩
  apply Multiset.coe_eq_singleton.mp
  exact hflight.symm

end Round

/-- The completion finds the session that was handed out. -/
theorem SchedulerInv.round_ends (h : SchedulerInv s) {addr : Addr} {now : ℕ} (hx : Nameable x)
    (hlist : s.inFlight = [newInFlightEntry x addr now]) :
    (Hwfq.after s x.delivery.completion).inFlight = [] ∧
      (Hwfq.after s x.delivery.completion).queuedSessions = s.queuedSessions := by
  have hmatch : Matches (some { userData := .ofNat x.userData, workSize := .ofNat x.workSize })
      (UInt32.ofNat x.tenantId).toNat (UInt32.ofNat x.flowId).toNat
      (newInFlightEntry x addr now) := by
    constructor
    · exact hx.tenant.symm
    · exact hx.flow.symm
    · intro _
      exact hx.userData.symm
  have hended : ended s x.delivery.completion = {newInFlightEntry x addr now} := by
    have hlookup : inFlightLookup s
        (some { userData := .ofNat x.userData, workSize := .ofNat x.workSize })
        (UInt32.ofNat x.tenantId).toNat (UInt32.ofNat x.flowId).toNat =
          some (newInFlightEntry x addr now) := by
      cases hfind : inFlightLookup s
          (some { userData := .ofNat x.userData, workSize := .ofNat x.workSize })
          (UInt32.ofNat x.tenantId).toNat (UInt32.ofNat x.flowId).toNat with
      | none =>
        have hin : newInFlightEntry x addr now ∈ s.inFlight := by
          rw [hlist]
          exact List.mem_singleton_self _
        exact absurd hmatch (inFlightLookup_none h.flight hfind _ hin)
      | some found =>
        have hin := (inFlightLookup_some h.flight hfind).1
        rw [hlist, List.mem_singleton] at hin
        rw [hin]
    have hcall : ended s x.delivery.completion = (inFlightLookup s
        (some { userData := .ofNat x.userData, workSize := .ofNat x.workSize })
        (UInt32.ofNat x.tenantId).toNat (UInt32.ofNat x.flowId).toNat).toList := rfl
    rw [hcall, hlookup]
    rfl
  have hbalance := h.balanced x.delivery.completion
  have hflight := hbalance.flight
  have hqueued := hbalance.queued
  have hnone : delivered s x.delivery.completion = 0 := delivered_none rfl
  have hlost : lost s x.delivery.completion = 0 := lost_quiet rfl
  have haccepted : accepted s x.delivery.completion = 0 := rfl
  have hdisposed : disposed s x.delivery.completion = 0 := rfl
  rw [hnone, hended, hlist, Multiset.map_zero, add_zero, Multiset.coe_singleton,
    right_eq_add] at hflight
  rw [hnone, hlost, haccepted, hdisposed, Multiset.map_zero, add_zero, add_zero, add_zero,
    add_zero] at hqueued
  exact ⟨(Multiset.coe_eq_zero _).mp hflight, hqueued.symm⟩

/-! ## The whole loop -/

theorem Workable.rests (h : Workable s) (hfit : weightTotal s.systemScheduler ≤ uint32Max)
    (hidle : s.inFlight = []) (hwork : s.queuedSessions = 0) (now : UInt64) :
    (respond s (.dequeue true now)).status ≠ .success ∧
      (after s (.dequeue true now)).inFlight = [] ∧
      (after s (.dequeue true now)).queuedSessions = 0 := by
  have hbad : (respond s (.dequeue true now)).status ≠ .success := by
    intro hok
    obtain ⟨x, addr, -, hmade, -⟩ := h.inv.delivery hok
    have hqueued := (h.inv.balanced (.dequeue true now)).queued
    have haccepted : accepted s (.dequeue true now) = 0 := rfl
    rw [hmade, hwork, haccepted, add_zero, eq_comm, add_eq_zero, add_eq_zero, add_eq_zero,
      Multiset.map_singleton] at hqueued
    exact Multiset.singleton_ne_zero _ hqueued.2.1.1
  have hflight := (h.inv.balanced (.dequeue true now)).flight
  obtain ⟨-, hdelivered, hended, -⟩ := nothing_moved h.inv hbad
  rw [hdelivered, hended, hidle, Multiset.map_zero, add_zero, add_zero, eq_comm] at hflight
  have hrest := (Multiset.coe_eq_zero _).mp hflight
  exact ⟨hbad, hrest, h.service.refused_idle (h.asks hfit hidle now) hbad hrest⟩

theorem loop_stops {now : UInt64} {times : List UInt64}
    (hbad : (respond s (.dequeue true now)).status ≠ .success) :
    workerLoop s (now :: times) = ([], after s (.dequeue true now)) := by
  rw [workerLoop]
  split
  · rename_i hok _
    exact absurd hok hbad
  · rfl

theorem loop_serves {now : UInt64} {times : List UInt64} {d : Delivery}
    (hok : (respond s (.dequeue true now)).status = .success)
    (hreport : (respond s (.dequeue true now)).delivery = some d) :
    workerLoop s (now :: times) =
      let rest := workerLoop (after (after s (.dequeue true now)) d.completion) times
      (d :: rest.1, rest.2) := by
  rw [workerLoop, hok, hreport]

theorem Workable.loop (h : Workable s) (hfit : weightTotal s.systemScheduler ≤ uint32Max)
    (hidle : s.inFlight = []) {times : List UInt64}
    (hrounds : s.queuedSessions.card ≤ times.length) :
    ((workerLoop s times).1 : Multiset Delivery) =
        s.queuedSessions.map FlowSessionContext.delivery ∧
      (workerLoop s times).2.queuedSessions = 0 ∧ (workerLoop s times).2.inFlight = [] := by
  induction times generalizing s with
  | nil =>
    have hnone : s.queuedSessions = 0 := Multiset.card_eq_zero.mp (Nat.le_zero.mp hrounds)
    refine ⟨?_, hnone, hidle⟩
    rw [hnone]
    rfl
  | cons now times ih =>
    by_cases hwork : s.queuedSessions = 0
    · obtain ⟨hbad, hrest, hempty⟩ := h.rests hfit hidle hwork now
      rw [loop_stops hbad, hwork]
      exact ⟨rfl, hempty, hrest⟩
    · obtain ⟨x, addr, hok, hreport, hlist, hqueued⟩ := h.handed hfit hidle now hwork
      have hasked := h.step (h.asks hfit hidle now)
      have hweights := h.inv.weights_kept (c := .dequeue true now) rfl
      have hx : Nameable x := by
        apply h.nameable
        rw [hqueued]
        exact Multiset.mem_cons_self x _
      obtain ⟨hrest, hleft⟩ := hasked.inv.round_ends hx hlist
      have hfit₁ : weightTotal (after s (.dequeue true now)).systemScheduler ≤ uint32Max :=
        hweights ▸ hfit
      have hdone := hasked.step (c := x.delivery.completion) ⟨hfit₁, trivial⟩
      have hfit₂ := hasked.inv.weights_kept (c := x.delivery.completion) rfl ▸ hfit₁
      have hrounds₂ : (after (after s (.dequeue true now))
          x.delivery.completion).queuedSessions.card ≤ times.length := by
        rw [hqueued, Multiset.card_cons, List.length_cons] at hrounds
        rw [hleft]
        exact Nat.le_of_succ_le_succ hrounds
      obtain ⟨hserved, hempty, hover⟩ := ih hdone hfit₂ hrest hrounds₂
      rw [loop_serves hok hreport]
      refine ⟨?_, hempty, hover⟩
      rw [hqueued, Multiset.map_cons, ← hleft, ← hserved]
      rfl

theorem Made.workable (h : Made s) (hservice : InService s) : Workable s := by
  obtain ⟨mem, config, hinit⟩ := h
  have hnew := hwfqInit_success hinit
  constructor
  · exact hservice
  · intro x hx
    rw [hnew.queuedSessions] at hx
    exact absurd hx (Multiset.notMem_zero x)

/-- In every idle state of every run in service: the loop of a worker is handed the queued
sessions, every one of them and each once, and leaves nothing behind. -/
theorem worker_empties_queues (h : Made s) (hmem : s.mem.AlwaysOk) (hgroups : 15 < s.numGroups)
    (hreached : Reached s) {calls : List Call} (hcalls : Along after KeepsService s calls)
    (hfit : weightTotal (afterRun s calls).systemScheduler ≤ uint32Max)
    (hidle : (afterRun s calls).inFlight = []) {times : List UInt64}
    (hrounds : (afterRun s calls).queuedSessions.card ≤ times.length) :
    let s' := afterRun s calls
    ((workerLoop s' times).1 : Multiset Delivery) =
        s'.queuedSessions.map FlowSessionContext.delivery ∧
      (workerLoop s' times).2.queuedSessions = 0 ∧ (workerLoop s' times).2.inFlight = [] := by
  have hstart := h.workable (h.inService hmem hgroups hreached)
  have hlast : Workable (afterRun s calls) :=
    run_invariant (fun _ _ hs hc => hs.step hc) hstart hcalls
  exact hlast.loop hfit hidle hrounds

theorem worker_empties_queues_uneven :
    let s := afterRun smallScheduler (twoTenants ++ unevenSessions)
    let times : List UInt64 := List.replicate 7 0
    ((workerLoop s times).1 : Multiset Delivery) =
        s.queuedSessions.map FlowSessionContext.delivery ∧
      (workerLoop s times).2.queuedSessions = 0 ∧ (workerLoop s times).2.inFlight = [] := by
  apply worker_empties_queues smallScheduler_made smallScheduler_granted
  · decide +kernel
  · show smallScheduler.numGroups * smallScheduler.binsPerGroup ≤ 32768
    decide +kernel
  · decide +kernel
  · decide +kernel
  · decide +kernel
  · decide +kernel

end Hwfq
