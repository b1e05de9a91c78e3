import Hwfq.SessionRemoval
import Hwfq.TokenRegistration

/-!
# The history of the sessions

Every session that was accepted is queued, in flight, completed, aborted or disposed of
with its tenant. The one way out of these places is a dequeue that fails after its choice
and puts the session back in vain.
-/
namespace Hwfq
open GuardedRuns

variable {s s' : Scheduler} {c : Call} {i : ℕ}

/-! ## The places of the sessions -/

/-- A session and its entry in the in-flight table. -/
abbrev Flight := FlowSessionContext × InFlightEntry

/-- A scheduler and the sessions that its calls have moved. -/
structure History where
  scheduler : Scheduler
  accepted : Multiset FlowSessionContext
  flying : Multiset Flight
  completed : Multiset Flight
  aborted : Multiset Flight
  disposed : Multiset FlowSessionContext
  lost : Multiset FlowSessionContext

/-- The sessions in flight that the call ends. -/
def History.landed (h : History) (c : Call) : Multiset Flight :=
  h.flying.filter fun p => p.2 ∈ ended h.scheduler c

def History.completedBy (h : History) (c : Call) : Multiset Flight :=
  match c with
  | .complete _ _ _ => h.landed c
  | _ => 0

/-- The sessions that the call cancels or finds timed out. -/
def History.abortedBy (h : History) (c : Call) : Multiset Flight :=
  match c with
  | .cancel _ _ _ | .checkTimeouts _ => h.landed c
  | _ => 0

def History.step (h : History) (c : Call) : History where
  scheduler := after h.scheduler c
  accepted := h.accepted + Hwfq.accepted h.scheduler c
  flying := h.flying.filter (fun p => p.2 ∉ ended h.scheduler c) + delivered h.scheduler c
  completed := h.completed + h.completedBy c
  aborted := h.aborted + h.abortedBy c
  disposed := h.disposed + Hwfq.disposed h.scheduler c
  lost := h.lost + Hwfq.lost h.scheduler c

def History.start (s : Scheduler) : History := ⟨s, 0, 0, 0, 0, 0, 0⟩

/-- The sessions that a successful dequeue has returned. -/
def History.returned (h : History) : Multiset Flight := h.flying + h.completed + h.aborted

/-- The places of a run, with the sessions put back in vain as one of them. -/
structure History.Placed (h : History) : Prop where
  inv : SchedulerInv h.scheduler
  grid : OnGrid h.scheduler h.scheduler.cores
  queued : h.accepted = h.scheduler.queuedSessions + h.returned.map Prod.fst + h.disposed + h.lost
  flight : h.flying.map Prod.snd = h.scheduler.inFlight
  sessions : (h.accepted.map (·.addr)).Nodup
  old : ∀ x ∈ h.accepted, x.addr < h.scheduler.mem.next
  records : ∀ p ∈ h.returned, p.2 = newInFlightEntry p.1 p.2.addr p.2.dequeueTimeNs

/-! ## One call -/

theorem ended_delivered (s : Scheduler) (c : Call) : ended s c = 0 ∨ delivered s c = 0 := by
  cases c with
  | dequeue out now => exact .inl rfl
  | _ => exact .inr (delivered_none rfl)

/-- The entries in flight that the call leaves, and those it ends. -/
theorem History.Placed.entries {h : History} (hp : h.Placed) (c : Call) :
    (h.flying.filter fun p => p.2 ∉ ended h.scheduler c).map Prod.snd +
        (delivered h.scheduler c).map Prod.snd = (after h.scheduler c).inFlight ∧
      (h.landed c).map Prod.snd = ended h.scheduler c := by
  have hbalance := (hp.inv.balanced c).flight
  rcases ended_delivered h.scheduler c with hend | hdel
  · rw [hend, add_zero] at hbalance
    simp only [hend, History.landed, Multiset.notMem_zero, not_false_eq_true, Multiset.filter_true,
      Multiset.filter_false, Multiset.map_zero, hp.flight]
    exact ⟨hbalance, trivial⟩
  · rw [hdel, Multiset.map_zero, add_zero] at hbalance
    have hnodup : (((after h.scheduler c).inFlight : Multiset InFlightEntry) +
        ended h.scheduler c).Nodup := by
      rw [← hbalance]
      exact Multiset.coe_nodup.mpr (List.Nodup.of_map _ hp.inv.flight.addrs)
    have hleft : ∀ e ∈ ((after h.scheduler c).inFlight : Multiset InFlightEntry),
        e ∉ ended h.scheduler c := fun e he => Multiset.disjoint_left.mp
      (Multiset.nodup_add.mp hnodup).2.2 he
    have hstay := Multiset.filter_map (fun e => e ∉ ended h.scheduler c) Prod.snd h.flying
    have hgo := Multiset.filter_map (fun e => e ∈ ended h.scheduler c) Prod.snd h.flying
    rw [hp.flight, hbalance, Multiset.filter_add] at hstay hgo
    rw [Multiset.filter_eq_self.mpr hleft,
      Multiset.filter_eq_nil.mpr fun e he hnot => hnot he, add_zero] at hstay
    rw [Multiset.filter_eq_nil.mpr hleft, Multiset.filter_eq_self.mpr fun e he => he,
      zero_add] at hgo
    rw [hdel, Multiset.map_zero, add_zero]
    exact ⟨hstay.symm, hgo.symm⟩

theorem History.landed_split (h : History) (c : Call) :
    h.landed c = h.completedBy c + h.abortedBy c := by
  cases c with
  | complete i f work => exact (add_zero _).symm
  | cancel i f work => exact (zero_add _).symm
  | checkTimeouts now => exact (zero_add _).symm
  | _ => exact Multiset.filter_eq_nil.mpr fun p _ hin => Multiset.notMem_zero p.2 hin

/-- A call moves sessions in flight among the places of returned sessions, and adds those
it delivers. -/
theorem History.returned_step (h : History) (c : Call) :
    (h.step c).returned = h.returned + delivered h.scheduler c := by
  have hsplit := Multiset.filter_add_not (fun p : Flight => p.2 ∈ ended h.scheduler c) h.flying
  have hlanded : h.flying.filter (fun p => p.2 ∈ ended h.scheduler c) =
      h.completedBy c + h.abortedBy c := h.landed_split c
  rw [hlanded] at hsplit
  rw [History.returned, History.returned, History.step]
  dsimp only
  calc _ = (h.completedBy c + h.abortedBy c +
        h.flying.filter fun p => p.2 ∉ ended h.scheduler c) + h.completed + h.aborted +
          delivered h.scheduler c := by abel
    _ = _ := by rw [hsplit]

theorem SchedulerInv.accepted_created (h : SchedulerInv s) {x : FlowSessionContext}
    (hx : x ∈ accepted s c) : x.addr = s.mem.next ∧ s.mem.next < (Hwfq.after s c).mem.next := by
  cases c with
  | enqueue i f work now =>
    have heffect := h.effect (.enqueue i f work now)
    generalize hr : respond s (.enqueue i f work now) = r at heffect
    cases heffect with
    | idle failed _ _ =>
      rw [(nothing_moved h (hr ▸ failed)).1] at hx
      exact absurd hx (Multiset.notMem_zero x)
    | flows update => cases update
    | rejected _ _ failed _ _ =>
      rw [(nothing_moved h (hr ▸ failed)).1] at hx
      exact absurd hx (Multiset.notMem_zero x)
    | accepted _ _ _ _ _ created _ =>
      rw [accepted, if_pos (by rw [hr]), Multiset.mem_singleton] at hx
      rw [hx]
      exact ⟨rfl, created⟩
  | _ => exact absurd hx (Multiset.notMem_zero x)

theorem accepted_nodup (s : Scheduler) (c : Call) : ((accepted s c).map (·.addr)).Nodup := by
  cases c with
  | enqueue i f work now =>
    cases work with
    | none => exact Multiset.nodup_zero
    | some w =>
      rw [accepted]
      split_ifs
      · exact Multiset.nodup_singleton _
      · exact Multiset.nodup_zero
  | _ => exact Multiset.nodup_zero

theorem History.Placed.step {h : History} (hp : h.Placed) (c : Call) : (h.step c).Placed := by
  have hbalance := (hp.inv.balanced c).queued
  have hreturned := h.returned_step c
  have hmem := ((hp.inv.effect c).memory).1
  constructor
  · exact hp.inv.after c
  · exact hp.inv.onGrid hp.grid c
  · rw [hreturned]
    dsimp only [History.step]
    rw [hp.queued, Multiset.map_add]
    calc _ = h.scheduler.queuedSessions + Hwfq.accepted h.scheduler c + h.returned.map Prod.fst +
          h.disposed + h.lost := by abel
      _ = _ := by
        rw [hbalance]
        abel
  · dsimp only [History.step]
    rw [Multiset.map_add, (hp.entries c).1]
  · dsimp only [History.step]
    rw [Multiset.map_add, Multiset.nodup_add]
    refine ⟨hp.sessions, accepted_nodup _ c, Multiset.disjoint_left.mpr ?_⟩
    intro addr hold hnew
    obtain ⟨x, hx, rfl⟩ := Multiset.mem_map.mp hold
    obtain ⟨y, hy, haddr⟩ := Multiset.mem_map.mp hnew
    have hlt : x.addr < h.scheduler.mem.next := hp.old x hx
    have hfresh : y.addr = h.scheduler.mem.next := (hp.inv.accepted_created hy).1
    exact absurd (haddr.symm.trans hfresh) (Nat.ne_of_lt hlt)
  · intro x hx
    dsimp only [History.step] at hx ⊢
    rcases Multiset.mem_add.mp hx with hold | hnew
    · exact (hp.old x hold).trans_le hmem
    · obtain ⟨haddr, hcreated⟩ := hp.inv.accepted_created hnew
      rw [haddr]
      exact hcreated
  · intro p hin
    rw [hreturned] at hin
    rcases Multiset.mem_add.mp hin with hold | hnew
    · exact hp.records p hold
    · exact hp.inv.delivered_records hnew

/-! ## Cleanup functions -/

/-- The user data that the cleanup functions are called on. -/
def cleanups (calls : List Callback) : Multiset UserData :=
  (calls.filterMap fun call =>
    match call with
    | .cleanup userData => some userData
    | _ => none : List UserData)

/-- The cleanup call that a session asks for. -/
def FlowSessionContext.cleanup (x : FlowSessionContext) : Option UserData :=
  if x.cleanupFn then some x.userData else none

/-- The queued sessions in the order of the bins. -/
def binOrder (flows : GroupScheduler FlowSessionContext) : List (SessionState FlowSessionContext) :=
  (List.range flows.numBins).flatMap flows.binHeads

/-- A flow scheduler that is destroyed calls back every session queued in it. -/
theorem destroy_queued {flows : GroupScheduler FlowSessionContext}
    (hgrid : flows.numBins = u32 (flows.numGroups * flows.binsPerGroup))
    (hcarried : ∀ q ∈ binOrder flows, ∃ x, Carries i q x) :
    groupSchedulerDestroy flows = (binOrder flows).map (·.userData) := by
  have hall : ∀ q ∈ binOrder flows, q.cleanupFn = true := by
    intro q hq
    obtain ⟨x, hcar⟩ := hcarried q hq
    exact hcar.cleanup
  rw [groupSchedulerDestroy, ← hgrid, ← List.filter_eq_self.mpr hall, binOrder, List.filter_flatMap,
    List.map_flatMap]

theorem cleanups_queued {t : Tenant}
    (hgrid : t.flowScheduler.numBins = u32 (t.flowScheduler.numGroups * t.flowScheduler.binsPerGroup))
    (hcarried : ∀ q ∈ t.flowScheduler.queued, ∃ x, Carries i q x) :
    cleanups (cleanupCalls t) = (contexts t.flowScheduler).filterMap FlowSessionContext.cleanup := by
  have hqueued : t.flowScheduler.queued = binOrder t.flowScheduler := queued_eq_flatMap t.flowScheduler
  rw [hqueued] at hcarried
  rw [cleanups, cleanupCalls, destroy_queued hgrid hcarried, contexts, hqueued, Multiset.filterMap_coe,
    Multiset.filterMap_coe, List.filterMap_filterMap, List.filterMap_map, List.filterMap_filterMap]
  congr 1
  apply List.filterMap_congr
  intro q hq
  obtain ⟨x, hcar⟩ := hcarried q hq
  simp only [Function.comp_apply, hcar.data, Option.bind_some, FlowSessionContext.cleanup]
  split_ifs <;> rfl

theorem OnGrid.numBins {t : Tenant} (h : OnGrid s s.cores) (ht : s.tenants i = some t) :
    t.flowScheduler.numBins =
      u32 (t.flowScheduler.numGroups * t.flowScheduler.binsPerGroup) := by
  have hgrid : t.flowScheduler.geometry = s.grid := h i t.core (cores_some ht)
  have hbins : t.flowScheduler.numBins = s.grid.numBins := congrArg Geometry.numBins hgrid
  have hgroups : t.flowScheduler.numGroups = s.grid.numGroups := congrArg Geometry.numGroups hgrid
  have hper : t.flowScheduler.binsPerGroup = s.grid.binsPerGroup :=
    congrArg Geometry.binsPerGroup hgrid
  rw [hbins, hgroups, hper]
  rfl

theorem cleanups_append (l l' : List Callback) : cleanups (l ++ l') = cleanups l + cleanups l' := by
  rw [cleanups, List.filterMap_append]
  rfl

theorem cleanups_notifyIf (s : Scheduler) (cond : Bool) : cleanups (notifyIf s cond) = 0 := by
  unfold notifyIf
  split_ifs <;> rfl

theorem enqueue_callbacks (s : Scheduler) (i f : ℕ) (work : Option Session) (now : ℕ) :
    cleanups (hwfqEnqueue s i f work now).2.1 = 0 := by
  have hnone : cleanups [] = 0 := rfl
  unfold hwfqEnqueue
  cases work with
  | none => rfl
  | some w =>
    dsimp only
    split_ifs
    · rfl
    · rfl
    · rfl
    cases s.configuredTenant i with
    | none => rfl
    | some t =>
      dsimp only
      split_ifs
      · rfl
      cases hwfqAlloc s.mem 1 with
      | mk addr mem =>
        cases addr with
        | none => rfl
        | some addr =>
          unfold offerSession
          dsimp only
          split_ifs
          · exact cleanups_notifyIf _ _
          · exact hnone

theorem checkTimeouts_callbacks (s : Scheduler) (now : ℕ) :
    cleanups (hwfqCheckTimeouts s now).2.1 = 0 := by
  unfold hwfqCheckTimeouts
  dsimp only
  rw [cleanups_append, cleanups_notifyIf, add_zero]
  split_ifs
  · rw [cleanups, List.filterMap_map]
    exact congrArg _ (List.filterMap_eq_nil_iff.mpr fun _ _ => rfl)
  · rfl

/-- A call invokes the cleanup functions of the sessions that it disposes of, and no
others. -/
theorem SchedulerInv.cleanups (h : SchedulerInv s) (hgrid : OnGrid s s.cores) (c : Call) :
    Hwfq.cleanups (respond s c).callbacks = (disposed s c).filterMap FlowSessionContext.cleanup := by
  cases c with
  | removeTenant i =>
    have hstatus : (respond s (.removeTenant i)).status = (hwfqRemoveTenant s i.toNat).1 := rfl
    have hcalls : (respond s (.removeTenant i)).callbacks = (hwfqRemoveTenant s i.toNat).2.1 := rfl
    rw [disposed, hstatus, hcalls]
    obtain ⟨-, ⟨hbad, heq⟩ | ⟨t, ht, -, heq⟩⟩ := h.removeTenant i.toNat
    · rw [if_neg hbad, heq]
      rfl
    · rw [heq, if_pos rfl, queue_some ht]
      exact cleanups_queued (hgrid.numBins ht) (h.tenants _ t ht).flows.carried
  | enqueue i f work now => exact enqueue_callbacks s i.toNat f.toNat work now.toNat
  | complete i f work =>
    have hcalls : (respond s (.complete i f work)).callbacks =
      (hwfqComplete s work i.toNat f.toNat).2.1 := rfl
    rw [hcalls, hwfqComplete]
    cases inFlightLookup s work i.toNat f.toNat with
    | none => rfl
    | some found => exact cleanups_notifyIf _ _
  | cancel i f work =>
    have hcalls : (respond s (.cancel i f work)).callbacks =
      (hwfqCancel s work i.toNat f.toNat).2.1 := rfl
    rw [hcalls, hwfqCancel]
    cases inFlightLookup s work i.toNat f.toNat with
    | none => rfl
    | some found => exact cleanups_notifyIf _ _
  | checkTimeouts now => exact checkTimeouts_callbacks s now.toNat
  | _ => rfl

/-! ## Every run -/

/-- A session that a dequeue puts back is taken back. -/
def KeepsSessions (s : Scheduler) (c : Call) : Prop :=
  c.asksSession = true → ∀ p ∈ putBackPoint s, takesBack p

instance (s : Scheduler) (c : Call) : Decidable (KeepsSessions s c) :=
  inferInstanceAs (Decidable (_ → _))

theorem lost_eq_zero : lost s c = 0 ↔ KeepsSessions s c := by
  rw [KeepsSessions]
  cases hask : c.asksSession with
  | false => simp [lost_quiet hask]
  | true =>
    cases hpoint : putBackPoint s with
    | none => simp [lost_none hpoint]
    | some p =>
      rw [lost_some hask hpoint]
      by_cases hback : takesBack p
      · simp [hback]
      · simp [hback]

/-- Every accepted session is at exactly one of its places, exactly once. -/
structure OnePlace (h : History) : Prop where
  queued : h.accepted = h.scheduler.queuedSessions + h.returned.map Prod.fst + h.disposed
  flight : h.flying.map Prod.snd = h.scheduler.inFlight
  sessions : (h.accepted.map (·.addr)).Nodup
  entries : (h.scheduler.inFlight.map (·.addr)).Nodup
  tenants : ∀ i, ∀ x ∈ h.scheduler.queue i, x.tenantId = i
  records : ∀ p ∈ h.returned, p.2 = newInFlightEntry p.1 p.2.addr p.2.dequeueTimeNs

theorem History.Placed.onePlace_iff {h : History} (hp : h.Placed) : OnePlace h ↔ h.lost = 0 := by
  constructor
  · intro hone
    have hboth := hp.queued.symm.trans hone.queued
    exact left_eq_add.mp hboth.symm
  · intro hlost
    have hqueued := hp.queued
    rw [hlost, add_zero] at hqueued
    exact ⟨hqueued, hp.flight, hp.sessions, hp.inv.flight.addrs,
      fun i x hx => hp.inv.queued_tenant hx, hp.records⟩

theorem History.run_lost (h : History) (calls : List Call) :
    (run History.step h calls).lost = 0 ↔
      h.lost = 0 ∧ Along after KeepsSessions h.scheduler calls := by
  induction calls generalizing h with
  | nil => simp
  | cons c calls ih =>
    rw [run_cons, ih, along_cons, ← lost_eq_zero]
    have hstep : (h.step c).lost = 0 ↔ h.lost = 0 ∧ Hwfq.lost h.scheduler c = 0 :=
      add_eq_zero
    rw [hstep, and_assoc]
    rfl

theorem NewScheduler.placed (h : NewScheduler s) : (History.start s).Placed where
  inv := h.inv
  grid i t ht := by simp [History.start, Scheduler.cores, h.tenants] at ht
  queued := by
    have hnone : s.queuedSessions = 0 := by
      rw [Scheduler.queuedSessions]
      exact Finset.sum_eq_zero fun i _ => queue_none (congrFun h.tenants i)
    simp [History.start, History.returned, hnone]
  flight := by simp [History.start, h.inFlight]
  sessions := Multiset.nodup_zero
  old x hx := absurd hx (Multiset.notMem_zero x)
  records p hp := absurd hp (Multiset.notMem_zero p)

theorem Made.placed (h : Made s) (calls : List Call) :
    (run History.step (.start s) calls).Placed := by
  obtain ⟨mem, config, hinit⟩ := h
  have hnew := hwfqInit_success hinit
  exact run_invariant_all (I := History.Placed) (fun _ c hp => hp.step c) hnew.placed calls

/-- What the answer to a call says about the sessions it has moved. -/
structure Answers (s : Scheduler) (c : Call) : Prop where
  enqueued : ∀ i f work now, c = .enqueue i f work now → (respond s c).status = .success →
    ∃ w x, work = some w ∧ accepted s c = {x} ∧ x.tenantId = i.toNat ∧ x.flowId = f.toNat ∧
      x.userData = w.userData.toNat ∧ x.workSize = w.workSize.toNat ∧ x.cleanupFn = w.cleanupFn
  dequeued : ∀ out now, c = .dequeue out now → (respond s c).status = .success →
    ∃ x e, delivered s c = {(x, e)} ∧ (respond s c).delivery =
      some ⟨x.tenantId, x.flowId, x.userData, x.workSize, x.enqueueTimeNs⟩
  refused : ∀ out now, c = .dequeue out now → (respond s c).status ≠ .success →
    ((after s c).queuedSessions = s.queuedSessions ↔ KeepsSessions s c)
  nothing : (respond s c).status ≠ .success →
    accepted s c = 0 ∧ delivered s c = 0 ∧ ended s c = 0 ∧ disposed s c = 0
  ends : ∀ i f work, EndsOne c i f work → (respond s c).status = .success → (ended s c).card = 1
  callbacks : cleanups (respond s c).callbacks = (disposed s c).filterMap FlowSessionContext.cleanup

theorem SchedulerInv.refused (h : SchedulerInv s) {out : Bool} {now : UInt64}
    (hbad : (respond s (.dequeue out now)).status ≠ .success) :
    (Hwfq.after s (.dequeue out now)).queuedSessions = s.queuedSessions ↔
      KeepsSessions s (.dequeue out now) := by
  have hbalance := (h.balanced (.dequeue out now)).queued
  obtain ⟨hacc, hdel, -, hdis⟩ := nothing_moved h hbad
  rw [hacc, hdel, hdis, Multiset.map_zero, add_zero, zero_add, zero_add] at hbalance
  rw [← lost_eq_zero, hbalance]
  exact left_eq_add

theorem SchedulerInv.endsOne_card (h : SchedulerInv s) {i f : UInt32} {work : Option Session}
    (hc : EndsOne c i f work) (hok : (respond s c).status = .success) : (ended s c).card = 1 := by
  rcases endsOne_cases h hc with ⟨-, hbad, -⟩ | ⟨found, hlookup, -⟩
  · cases hok.symm.trans hbad
  · cases hc with
    | complete => rw [ended, hlookup]; rfl
    | cancel => rw [ended, hlookup]; rfl

theorem SchedulerInv.answers (h : SchedulerInv s) (hgrid : OnGrid s s.cores) (c : Call) :
    Answers s c := by
  constructor
  · intro i f work now hc hok
    subst hc
    cases work with
    | none => cases hok
    | some w => exact ⟨w, _, rfl, if_pos hok, rfl, rfl, rfl, rfl, rfl⟩
  · intro out now hc hok
    subst hc
    obtain ⟨x, addr, -, hmade, hreport⟩ := h.delivery hok
    exact ⟨x, _, hmade, hreport⟩
  · intro out now hc hbad
    subst hc
    exact h.refused hbad
  · exact nothing_moved h
  · intro i f work hc hok
    exact h.endsOne_card hc hok
  · exact h.cleanups hgrid c

theorem History.run_scheduler (h : History) (calls : List Call) :
    (run History.step h calls).scheduler = afterRun h.scheduler calls :=
  @run_project _ _ after _ History.step History.scheduler (fun _ _ => rfl) h calls

/-- With any allocation pattern, every accepted session is at exactly one of its places
if and only if every session that a dequeue of the run put back was taken back. -/
theorem sessions_in_one_place (s : Scheduler) (h : Made s) (calls : List Call) :
    (OnePlace (run History.step (.start s) calls) ↔ Along after KeepsSessions s calls) ∧
      ∀ c, Answers (afterRun s calls) c := by
  have hplaced := h.placed calls
  have hstate : (run History.step (.start s) calls).scheduler = afterRun s calls :=
    History.run_scheduler (.start s) calls
  constructor
  · rw [hplaced.onePlace_iff, History.run_lost]
    exact and_iff_right rfl
  · intro c
    rw [← hstate]
    exact hplaced.inv.answers hplaced.grid c

/-- Two sessions of size 60, of which one fits at a time. -/
def refusedAtCapacity : List Call :=
  [.addTenant (some (.weight 1)) true, .addFlow 0 (some (.weight 1)) true,
    .enqueue 0 1 (some { userData := 7, workSize := 60 }) 0, .dequeue true 0,
    .enqueue 0 1 (some { userData := 8, workSize := 60 }) 0, .dequeue true 0]

theorem sessions_in_one_place_small :
    OnePlace (run History.step (.start smallScheduler) refusedAtCapacity) :=
  (sessions_in_one_place smallScheduler smallScheduler_made refusedAtCapacity).1.mpr
    (by decide +kernel)

/-- The request for the object of the session that is put back is refused. -/
def refusingPutBack : Allocator := ⟨fun k => decide (k ≠ 22), 1⟩

theorem refusingPutBack_accepted : (hwfqInit refusingPutBack smallConfig).2.isSome = true := by
  decide +kernel

/-- The dequeue answers that there is no work, and the session it put back is gone. -/
theorem session_lost :
    let s := madeWith refusingPutBack smallConfig refusingPutBack_accepted
    (respond (afterRun s (refusedAtCapacity.take 5)) (.dequeue true 0)).status = .noWork ∧
      ((afterRun s (refusedAtCapacity.take 5)).queue 0).card = 1 ∧
      ((afterRun s refusedAtCapacity).queue 0).card = 0 ∧
      ¬ OnePlace (run History.step (.start s) refusedAtCapacity) := by
  refine ⟨by decide +kernel, by decide +kernel, by decide +kernel, fun hone => ?_⟩
  have hlost := (Made.placed (madeWith_made refusingPutBack_accepted)
    refusedAtCapacity).onePlace_iff.mp hone
  revert hlost
  rw [History.run_lost]
  decide +kernel

end Hwfq
