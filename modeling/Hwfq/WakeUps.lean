import Hwfq.TenantTables
import Hwfq.TokenRegistration

/-!
# Waking a worker when capacity is freed

A completion, a cancellation and a timeout free capacity. They call
`session_available_fn` on what they find in the system scheduler, so a tenant whose
registration failed is seen by none of them but its own completion.
-/
namespace Hwfq
open GuardedRuns

variable {s s' : Scheduler} {i j : ℕ} {t : Tenant}

/-- The call takes a session out of the in-flight table. -/
def FreesCapacity (s : Scheduler) : Call → Prop
  | .complete i f work => (respond s (.complete i f work)).status = .success
  | .cancel i f work => (respond s (.cancel i f work)).status = .success
  | .checkTimeouts now => (after s (.checkTimeouts now)).inFlight.length < s.inFlight.length
  | _ => False

/-- The tenant in slot `i` has its flag and a token in the system scheduler. -/
def HasToken (s : Scheduler) (i : ℕ) : Prop :=
  Flagged s i ∧ ∃ q ∈ s.systemScheduler.queued, q.entryId = i

/-- The call invokes `session_available_fn` if a tenant has queued sessions, and every
such tenant can be reached by the next dequeue. -/
def WakesUp (s : Scheduler) (c : Call) : Prop :=
  ∀ i, (after s c).queue i ≠ 0 →
    .sessionAvailable ∈ (respond s c).callbacks ∧ HasToken (after s c) i

/-- A completion of tenant `i` can make up for a registration that failed: the counter
of the tenant is not zero, memory is granted and the system scheduler takes the token. -/
def Repairable (s : Scheduler) (i : ℕ) : Prop :=
  (∃ t ∈ s.tenants i, ¬ groupSchedulerIsEmpty t.flowScheduler = true) ∧ s.mem.ok 0 = true ∧
    ∃ e, Admissible s.systemScheduler i tenantQuantumSize e

/-- The tenant in slot `i` has its flag before the call, or the call can give it one.
The number of timed out sessions is 32 bits wide. -/
def WokenBy (s : Scheduler) (i : ℕ) : Call → Prop
  | .complete tenantId _ _ => Flagged s i ∨ i = tenantId.toNat ∧ Repairable s tenantId.toNat
  | .checkTimeouts now =>
      Flagged s i ∧ u32 (s.inFlight.filter (isTimedOut now.toNat)).length ≠ 0
  | _ => Flagged s i

/-! ## Tokens -/

theorem SchedulerInv.hasToken_iff (h : SchedulerInv s) : HasToken s i ↔ Flagged s i := by
  constructor
  · exact And.left
  · intro hflag
    have hcopy := hflag
    obtain ⟨t, ht, hbacklog⟩ := hcopy
    have hface : s.faces i = some t.face := by rw [Scheduler.faces, ht, Option.map_some]
    obtain ⟨q, hq, hid⟩ := h.system.registered i t.face hface hbacklog
    exact ⟨hflag, q, hq, hid⟩

/-- A token keeps the system scheduler from looking empty. -/
theorem SchedulerInv.system_busy (h : SchedulerInv s) (hflag : Flagged s i) :
    groupSchedulerIsEmpty s.systemScheduler = false := by
  obtain ⟨q, hq, -⟩ := (h.hasToken_iff.mpr hflag).2
  have hcount := h.system.group.count
  rw [u32_of_le h.card_tokens] at hcount
  have hpos : 0 < s.systemScheduler.queued.card := Multiset.card_pos_iff_exists_mem.mpr ⟨q, hq⟩
  rw [groupSchedulerIsEmpty, decide_eq_false_iff_not, hcount]
  exact hpos.ne'

theorem SchedulerInv.register_flagged_iff (h : SchedulerInv s) (ht : s.tenants i = some t) :
    Flagged (registerTenantBacklog s i).2 j ↔
      Flagged s j ∨ j = i ∧ s.mem.ok 0 = true ∧
        ∃ e, Admissible s.systemScheduler i tenantQuantumSize e := by
  have hslot := (h.tenants i t ht).slot
  unfold registerTenantBacklog
  rw [ht]
  dsimp only
  rw [hslot]
  split_ifs with hflag hok
  · constructor
    · exact Or.inl
    · intro hj
      rcases hj with hj | ⟨rfl, -⟩
      · exact hj
      · exact (flagged_some ht).mpr hflag
  · have haccepts := enqueue_success_iff.mp hok
    by_cases hji : j = i
    · subst hji
      exact iff_of_true ⟨_, Function.update_self .., rfl⟩ (.inr ⟨rfl, haccepts⟩)
    · unfold Flagged Scheduler.setTenant
      dsimp only
      rw [Function.update_of_ne hji]
      simp [hji]
  · constructor
    · exact Or.inl
    · intro hj
      rcases hj with hj | ⟨-, haccepts⟩
      · exact hj
      · exact absurd (enqueue_success_iff.mpr haccepts) hok

theorem SchedulerInv.serve_flagged_iff (h : SchedulerInv s) :
    Flagged (Hwfq.serveCompleted s i).2 j ↔ Flagged s j ∨ j = i ∧ Repairable s i := by
  unfold Hwfq.serveCompleted Repairable
  cases ht : s.tenants i with
  | none => split_ifs <;> simp
  | some t =>
    rw [if_pos (h.lt_maxTenants ht)]
    dsimp only
    split_ifs with hempty
    · simp [hempty]
    · rw [h.register_flagged_iff ht]
      simp [hempty]

theorem SchedulerInv.serve_finds (h : SchedulerInv s) :
    (Hwfq.serveCompleted s i).1 = true ↔
      ∃ t ∈ s.tenants i, ¬ groupSchedulerIsEmpty t.flowScheduler = true := by
  unfold Hwfq.serveCompleted
  cases ht : s.tenants i with
  | none => split_ifs <;> simp
  | some t =>
    rw [if_pos (h.lt_maxTenants ht)]
    dsimp only
    split_ifs with hempty
    · simp [hempty]
    · simp [hempty]

/-! ## Bookkeeping leaves the work as it is -/

/-- Memory, tokens and the queues of all tenants are the same. -/
structure SameWork (s s' : Scheduler) : Prop where
  mem : s'.mem = s.mem
  config : s'.config = s.config
  system : s'.systemScheduler = s.systemScheduler
  flagged : ∀ i, Flagged s' i ↔ Flagged s i
  queue : s'.queue = s.queue
  busy : ∀ i, (∃ t ∈ s'.tenants i, ¬ groupSchedulerIsEmpty t.flowScheduler = true) ↔
    ∃ t ∈ s.tenants i, ¬ groupSchedulerIsEmpty t.flowScheduler = true

theorem SameWork.trans {s₁ : Scheduler} (h : SameWork s s₁) (h' : SameWork s₁ s') :
    SameWork s s' where
  mem := h'.mem.trans h.mem
  config := h'.config.trans h.config
  system := h'.system.trans h.system
  flagged i := (h'.flagged i).trans (h.flagged i)
  queue := h'.queue.trans h.queue
  busy i := (h'.busy i).trans (h.busy i)

theorem SameWork.repairable (h : SameWork s s') : Repairable s' i ↔ Repairable s i := by
  unfold Repairable
  rw [h.busy, h.mem, h.system]

theorem SameWork.takeInFlight (s : Scheduler) (entry : InFlightEntry) :
    SameWork s (Hwfq.takeInFlight s entry) :=
  ⟨rfl, rfl, rfl, fun _ => Iff.rfl, rfl, fun _ => Iff.rfl⟩

theorem FlightOnly.sameWork (h : FlightOnly s s') : SameWork s s' where
  mem := h.mem
  config := h.config
  system := h.systemScheduler
  flagged i := by rw [Flagged, h.tenants, Flagged]
  queue := by rw [Scheduler.queue, h.tenants, Scheduler.queue]
  busy i := by rw [h.tenants]

theorem SchedulerInv.updateStats_sameWork (h : SchedulerInv s) (tenantId flowId : ℕ)
    (f : Stats → Stats) : SameWork s (Hwfq.updateStats s tenantId flowId f) := by
  have hqueue := h.queue_updateStats tenantId flowId f
  obtain ⟨-, ⟨-, heq⟩ | ⟨t, ht, heq⟩⟩ := h.updateStats tenantId flowId f
  · rw [heq]
    exact ⟨rfl, rfl, rfl, fun _ => Iff.rfl, rfl, fun _ => Iff.rfl⟩
  have hcount : groupSchedulerIsEmpty (t.mapStats flowId f).flowScheduler =
      groupSchedulerIsEmpty t.flowScheduler := by
    have hview := congrArg QueueView.activeSessionCount (t.mapStats_queueView flowId f)
    unfold groupSchedulerIsEmpty
    exact congrArg (fun n => decide (n = 0)) hview
  have hother : ∀ {j}, j ≠ tenantId →
      (s.setTenant tenantId (t.mapStats flowId f)).tenants j = s.tenants j := fun hj =>
    Function.update_of_ne hj ..
  have hself : (s.setTenant tenantId (t.mapStats flowId f)).tenants tenantId =
      some (t.mapStats flowId f) := Function.update_self ..
  rw [heq] at hqueue ⊢
  refine ⟨rfl, rfl, rfl, ?_, hqueue, ?_⟩
  · intro j
    by_cases hj : j = tenantId
    · subst hj
      rw [flagged_some hself, flagged_some ht]
      exact Iff.rfl
    · rw [Flagged, hother hj, Flagged]
  · intro j
    by_cases hj : j = tenantId
    · subst hj
      rw [hself, ht]
      simp [hcount]
    · rw [hother hj]

/-! ## The three calls -/

theorem mem_notifyIf {cond : Bool} :
    .sessionAvailable ∈ notifyIf s cond ↔ cond = true ∧ s.config.sessionAvailableFn = true := by
  unfold notifyIf
  split_ifs with h
  · rw [Bool.and_eq_true] at h
    simp [h]
  · rw [Bool.and_eq_true] at h
    simp [h]

theorem register_capacity (s : Scheduler) (i : ℕ) :
    (registerTenantBacklog s i).2.hasCapacity = s.hasCapacity ∧
      (registerTenantBacklog s i).2.config = s.config := by
  unfold registerTenantBacklog
  cases s.tenants i with
  | none => exact ⟨rfl, rfl⟩
  | some t =>
    dsimp only
    split_ifs <;> exact ⟨rfl, rfl⟩

theorem serve_capacity (s : Scheduler) (i : ℕ) :
    (serveCompleted s i).2.hasCapacity = s.hasCapacity ∧
      (serveCompleted s i).2.config = s.config := by
  unfold serveCompleted
  split_ifs
  · cases s.tenants i with
    | none => exact ⟨rfl, rfl⟩
    | some t =>
      dsimp only
      split_ifs
      · exact ⟨rfl, rfl⟩
      · exact register_capacity s i
  · exact ⟨rfl, rfl⟩

/-- A completion does its bookkeeping and then serves the tenant it was called for. -/
theorem SchedulerInv.complete_serves (h : SchedulerInv s) {work : Option Session}
    {tenantId flowId : ℕ} (hok : (hwfqComplete s work tenantId flowId).1 = .success) :
    ∃ s₁, SchedulerInv s₁ ∧ SameWork s s₁ ∧ hwfqComplete s work tenantId flowId =
      (.success, notifyIf (Hwfq.serveCompleted s₁ tenantId).2 (s₁.hasCapacity &&
        (!groupSchedulerIsEmpty s₁.systemScheduler || (Hwfq.serveCompleted s₁ tenantId).1)),
        (Hwfq.serveCompleted s₁ tenantId).2) := by
  unfold hwfqComplete at hok ⊢
  cases hfind : inFlightLookup s work tenantId flowId with
  | none =>
    rw [hfind] at hok
    cases hok
  | some found =>
    have htake := h.takeInFlight (inFlightLookup_some h.flight hfind).1
    have hsame := SameWork.takeInFlight s found
    dsimp only
    generalize Hwfq.takeInFlight s found = s₁ at htake hsame ⊢
    have hdown := (htake.updateStats tenantId flowId Stats.backlogDownIfPositive).1
    have hsame' := hsame.trans (htake.updateStats_sameWork tenantId flowId
      Stats.backlogDownIfPositive)
    generalize Hwfq.updateStats s₁ tenantId flowId Stats.backlogDownIfPositive = s₂
      at hdown hsame' ⊢
    split_ifs
    · exact ⟨_, (hdown.updateStats tenantId flowId (Stats.addCompletion found.workSize)).1,
        hsame'.trans (hdown.updateStats_sameWork tenantId flowId _), rfl⟩
    · exact ⟨s₂, hdown, hsame', rfl⟩

theorem SchedulerInv.cancel_leaves (h : SchedulerInv s) {work : Option Session}
    {tenantId flowId : ℕ} (hok : (hwfqCancel s work tenantId flowId).1 = .success) :
    ∃ s₁, SchedulerInv s₁ ∧ SameWork s s₁ ∧ hwfqCancel s work tenantId flowId =
      (.success, notifyIf s₁ (s₁.hasCapacity && !groupSchedulerIsEmpty s₁.systemScheduler),
        s₁) := by
  unfold hwfqCancel at hok ⊢
  cases hfind : inFlightLookup s work tenantId flowId with
  | none =>
    rw [hfind] at hok
    cases hok
  | some found =>
    have htake := h.takeInFlight (inFlightLookup_some h.flight hfind).1
    have hsame := SameWork.takeInFlight s found
    exact ⟨_, (htake.updateStats found.tenantId found.flowId Stats.backlogDownIfPositive).1,
      hsame.trans (htake.updateStats_sameWork found.tenantId found.flowId _), rfl⟩

theorem SchedulerInv.timeouts_notify (h : SchedulerInv s) (now : ℕ) :
    .sessionAvailable ∈ (hwfqCheckTimeouts s now).2.1 ↔
      u32 (s.inFlight.filter (isTimedOut now)).length ≠ 0 ∧
        (hwfqCheckTimeouts s now).2.2.hasCapacity = true ∧
        groupSchedulerIsEmpty s.systemScheduler = false ∧ s.config.sessionAvailableFn = true := by
  obtain ⟨-, honly, hlist, -⟩ := h.scanTimeouts now
  unfold hwfqCheckTimeouts
  generalize Hwfq.scanTimeouts s now = scan at honly hlist ⊢
  obtain ⟨timedOutList, s₁⟩ := scan
  dsimp only at honly hlist ⊢
  have hlength : timedOutList.length = (s.inFlight.filter (isTimedOut now)).length := by
    rw [hlist, List.length_reverse]
  rw [List.mem_append, mem_notifyIf, honly.config, honly.systemScheduler, hlength]
  constructor
  · intro hmem
    rcases hmem with hmem | hmem
    · split_ifs at hmem <;> simp at hmem
    · simp only [Bool.and_eq_true, decide_eq_true_eq, Bool.not_eq_true'] at hmem
      obtain ⟨⟨⟨hcount, hcap⟩, hbusy⟩, hfn⟩ := hmem
      exact ⟨Nat.pos_iff_ne_zero.mp hcount, hcap, hbusy, hfn⟩
  · intro hall
    obtain ⟨hcount, hcap, hbusy, hfn⟩ := hall
    right
    simp [Nat.pos_iff_ne_zero.mpr hcount, hcap, hbusy, hfn]

/-- A completion also looks at the queue of the tenant it was called for. -/
theorem SchedulerInv.complete_wakes (h : SchedulerInv s) (hfn : s.config.sessionAvailableFn = true)
    {tenantId flowId : UInt32} {work : Option Session}
    (hfrees : FreesCapacity s (.complete tenantId flowId work))
    (hcap : (Hwfq.after s (.complete tenantId flowId work)).hasCapacity = true) :
    WakesUp s (.complete tenantId flowId work) ↔
      ∀ i, s.queue i ≠ 0 → WokenBy s i (.complete tenantId flowId work) := by
  obtain ⟨s₁, hinv₁, hsame, heq⟩ := h.complete_serves hfrees
  obtain ⟨hinv₂, htokens⟩ := hinv₁.serveCompleted tenantId.toNat
  obtain ⟨hcapacity, hconfig⟩ := serve_capacity s₁ tenantId.toNat
  have hafter : Hwfq.after s (.complete tenantId flowId work) =
      (Hwfq.serveCompleted s₁ tenantId.toNat).2 := congrArg (fun r => r.2.2) heq
  have hcalls : (respond s (.complete tenantId flowId work)).callbacks = _ :=
    congrArg (fun r => r.2.1) heq
  have hqueue : (Hwfq.serveCompleted s₁ tenantId.toNat).2.queue = s.queue := by
    rw [queue_of_cores htokens.cores, queueOf_cores, hsame.queue]
  rw [hafter, hcapacity] at hcap
  have hnotify : .sessionAvailable ∈ (respond s (.complete tenantId flowId work)).callbacks ↔
      groupSchedulerIsEmpty s.systemScheduler = false ∨
        ∃ t ∈ s.tenants tenantId.toNat, ¬ groupSchedulerIsEmpty t.flowScheduler = true := by
    rw [hcalls, mem_notifyIf, hconfig, hsame.config, hsame.system, Bool.and_eq_true,
      Bool.or_eq_true, hinv₁.serve_finds, hsame.busy, Bool.not_eq_true']
    simp [hcap, hfn]
  have hflags : ∀ i, HasToken (Hwfq.serveCompleted s₁ tenantId.toNat).2 i ↔
      WokenBy s i (.complete tenantId flowId work) := by
    intro i
    rw [hinv₂.hasToken_iff, hinv₁.serve_flagged_iff, hsame.flagged, hsame.repairable, WokenBy]
  constructor
  · intro hwakes i hi
    rw [← hqueue, ← hafter] at hi
    exact (hflags i).mp (hafter ▸ (hwakes i hi).2)
  · intro hwoken i hi
    rw [hafter, hqueue] at hi
    have hwoke := hwoken i hi
    rw [hnotify, hafter]
    constructor
    · rcases hwoke with hflag | ⟨rfl, hrepair⟩
      · exact .inl (h.system_busy hflag)
      · exact .inr hrepair.1
    · exact (hflags i).mpr hwoke

theorem SchedulerInv.cancel_wakes (h : SchedulerInv s) (hfn : s.config.sessionAvailableFn = true)
    {tenantId flowId : UInt32} {work : Option Session}
    (hfrees : FreesCapacity s (.cancel tenantId flowId work))
    (hcap : (Hwfq.after s (.cancel tenantId flowId work)).hasCapacity = true) :
    WakesUp s (.cancel tenantId flowId work) ↔
      ∀ i, s.queue i ≠ 0 → WokenBy s i (.cancel tenantId flowId work) := by
  obtain ⟨s₁, hinv₁, hsame, heq⟩ := h.cancel_leaves hfrees
  have hafter : Hwfq.after s (.cancel tenantId flowId work) = s₁ := congrArg (fun r => r.2.2) heq
  have hcalls : (respond s (.cancel tenantId flowId work)).callbacks = _ :=
    congrArg (fun r => r.2.1) heq
  rw [hafter] at hcap
  have hnotify : .sessionAvailable ∈ (respond s (.cancel tenantId flowId work)).callbacks ↔
      groupSchedulerIsEmpty s.systemScheduler = false := by
    rw [hcalls, mem_notifyIf, hsame.config, hsame.system]
    simp [hcap, hfn]
  have hflags : ∀ i, HasToken s₁ i ↔ Flagged s i := by
    intro i
    rw [hinv₁.hasToken_iff, hsame.flagged]
  unfold WakesUp WokenBy
  rw [hafter, hsame.queue]
  constructor
  · intro hwakes i hi
    exact (hflags i).mp (hwakes i hi).2
  · intro hwoken i hi
    have hflag := hwoken i hi
    exact ⟨hnotify.mpr (h.system_busy hflag), (hflags i).mpr hflag⟩

theorem SchedulerInv.timeouts_wake (h : SchedulerInv s) (hfn : s.config.sessionAvailableFn = true)
    {now : UInt64} (hcap : (Hwfq.after s (.checkTimeouts now)).hasCapacity = true) :
    WakesUp s (.checkTimeouts now) ↔ ∀ i, s.queue i ≠ 0 → WokenBy s i (.checkTimeouts now) := by
  obtain ⟨hinv₁, honly, -⟩ := h.checkTimeouts now.toNat
  have hafter : Hwfq.after s (.checkTimeouts now) = (hwfqCheckTimeouts s now.toNat).2.2 := rfl
  have hnotify : .sessionAvailable ∈ (respond s (.checkTimeouts now)).callbacks ↔ _ :=
    h.timeouts_notify now.toNat
  have hflags : ∀ i, HasToken (hwfqCheckTimeouts s now.toNat).2.2 i ↔ Flagged s i := by
    intro i
    rw [hinv₁.hasToken_iff, honly.sameWork.flagged]
  rw [hafter] at hcap
  unfold WakesUp WokenBy
  rw [hafter, honly.sameWork.queue]
  constructor
  · intro hwakes i hi
    obtain ⟨hcall, htoken⟩ := hwakes i hi
    exact ⟨(hflags i).mp htoken, (hnotify.mp hcall).1⟩
  · intro hwoken i hi
    obtain ⟨hflag, hcount⟩ := hwoken i hi
    exact ⟨hnotify.mpr ⟨hcount, hcap, h.system_busy hflag, hfn⟩, (hflags i).mpr hflag⟩

/-- In every reachable state a call that frees capacity wakes a worker for all queued
sessions exactly when every tenant with queued sessions has its flag already, or is the
one whose completion registers it. -/
theorem wakes_up_iff {s : Scheduler} (h : Made s) (hfn : s.config.sessionAvailableFn = true)
    (calls : List Call) {c : Call} (hfrees : FreesCapacity (afterRun s calls) c)
    (hcap : (after (afterRun s calls) c).hasCapacity = true) :
    let s' := afterRun s calls
    WakesUp s' c ↔ ∀ i, s'.queue i ≠ 0 → WokenBy s' i c := by
  have hinv := h.afterRun calls
  rw [← h.inv.afterRun_config calls] at hfn
  cases c with
  | complete tenantId flowId work => exact hinv.complete_wakes hfn hfrees hcap
  | cancel tenantId flowId work => exact hinv.cancel_wakes hfn hfrees hcap
  | checkTimeouts now => exact hinv.timeouts_wake hfn hcap
  | _ => cases hfrees

/-! ## Two runs -/

def notifyingConfig : Config := { smallConfig with sessionAvailableFn := true }

theorem notifyingConfig_accepted :
    (hwfqInit generousAllocator notifyingConfig).2.isSome = true := by
  decide +kernel

/-- A session of tenant 0 is in flight when one of tenant 1 is queued. -/
def freedCalls : List Call :=
  [.addTenant (some (.weight 1)) true, .addTenant (some (.weight 1)) true,
    .addFlow 0 (some (.weight 1)) true, .addFlow 1 (some (.weight 1)) true,
    .enqueue 0 1 (some { userData := 7, workSize := 60, timeoutNs := 10 }) 0, .dequeue true 0,
    .enqueue 1 1 (some { userData := 8, workSize := 60 }) 0]

theorem wakes_up_iff_granted :
    let s := afterRun (madeWith generousAllocator notifyingConfig notifyingConfig_accepted)
      freedCalls
    WakesUp s (.cancel 0 1 none) ↔ ∀ i, s.queue i ≠ 0 → WokenBy s i (.cancel 0 1 none) := by
  apply wakes_up_iff (madeWith_made notifyingConfig_accepted)
  · decide +kernel
  · show Response.status _ = _
    decide +kernel
  · decide +kernel

/-- The request for the token of tenant 1 is refused. -/
def refusingToken : Allocator := ⟨fun k => decide (k ≠ 26), 1⟩

theorem refusingToken_accepted : (hwfqInit refusingToken notifyingConfig).2.isSome = true := by
  decide +kernel

def refusedScheduler : Scheduler :=
  afterRun (madeWith refusingToken notifyingConfig refusingToken_accepted) freedCalls

theorem not_wakesUp {c : Call} (hquiet : (respond refusedScheduler c).callbacks = [])
    (hqueued : ((after refusedScheduler c).queue 1).card = 1) : ¬ WakesUp refusedScheduler c := by
  intro hwakes
  have hcall := (hwakes 1 (Multiset.card_pos.mp (by rw [hqueued]; decide))).1
  rw [hquiet] at hcall
  cases hcall

/-- A cancellation and a timeout leave the session of tenant 1 queued and call nobody. -/
theorem wake_up_lost :
    let s := madeWith refusingToken notifyingConfig refusingToken_accepted
    let s' := afterRun s freedCalls
    Made s ∧ s.config.sessionAvailableFn = true ∧
      (FreesCapacity s' (.cancel 0 1 none) ∧
        (after s' (.cancel 0 1 none)).hasCapacity = true ∧ ¬ WakesUp s' (.cancel 0 1 none)) ∧
      FreesCapacity s' (.checkTimeouts 10) ∧
        (after s' (.checkTimeouts 10)).hasCapacity = true ∧ ¬ WakesUp s' (.checkTimeouts 10) := by
  refine ⟨madeWith_made refusingToken_accepted, ?_, ⟨?_, ?_, ?_⟩, ?_, ?_, ?_⟩
  · decide +kernel
  · show Response.status _ = _
    decide +kernel
  · decide +kernel
  · apply not_wakesUp
    · decide +kernel
    · decide +kernel
  · show List.length _ < List.length _
    decide +kernel
  · decide +kernel
  · apply not_wakesUp
    · decide +kernel
    · decide +kernel

end Hwfq
