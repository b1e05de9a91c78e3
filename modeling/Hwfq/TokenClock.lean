import Hwfq.TokenTags

/-!
# The clock of the tokens

The clock of the system scheduler has reached the start of some token whenever a token is
queued: it catches up each time a token is taken, and a new token starts where the clock stands
unless others are queued. So the search never has to move it, and a dequeue that finds no token
leaves the scheduler as it is.
-/
namespace Hwfq
open GuardedRuns

section Group
variable {α : Type*} {gs gs' : GroupScheduler α} {mem : Allocator}

/-- The clock has reached the cached start time, and where none is cached every finish tag. -/
structure ClockMet (gs : GroupScheduler α) : Prop where
  clock : gs.virtualTime < uint64Max
  reached : gs.minStartTime = uint64Max ∨ gs.minStartTime ≤ gs.virtualTime
  settled : gs.minStartTime = uint64Max →
    ∀ id e, activeEntry gs id = some e → e.lastFinishTime ≤ gs.virtualTime

theorem ClockMet.of_active (h : ClockMet gs) (hq : gs'.queueView = gs.queueView)
    (hact : ∀ id e, activeEntry gs' id = some e →
      e.lastFinishTime = 0 ∨ activeEntry gs id = some e) : ClockMet gs' := by
  have hclock : gs'.virtualTime = gs.virtualTime := congrArg QueueView.virtualTime hq
  have hcache : gs'.minStartTime = gs.minStartTime := congrArg QueueView.minStartTime hq
  constructor
  · rw [hclock]
    exact h.clock
  · rw [hclock, hcache]
    exact h.reached
  · rw [hclock, hcache]
    intro hmax id e he
    rcases hact id e he with hzero | hold
    · rw [hzero]
      exact Nat.zero_le _
    · exact h.settled hmax id e hold

theorem clockMet_edits : EditsKeep (ClockMet (α := α)) :=
  .of_active fun h hview hact => h.of_active hview hact

/-- A session that is put into an empty queue starts at the clock. -/
theorem ClockMet.enqueue (h : ClockMet gs) (mem : Allocator) (id w : ℕ) (ud : Option α) (cf : Bool) :
    ClockMet (groupSchedulerEnqueue mem gs id w ud cf).gs := by
  rcases enqueue_cases mem gs id w ud cf with ⟨-, heq, -⟩ | ⟨-, -, -, -, entry, hadm, heq⟩
  · rwa [heq]
  rw [heq]
  have hclock : (enqueued gs id (newSession gs entry mem.next id w ud cf)).virtualTime =
    gs.virtualTime := enqueued_virtualTime id
  have hcache := enqueued_minStartTime id (hadm.fits mem.next ud cf)
  have hstart := newSession_startTime gs entry mem.next id w ud cf
  have hlow := h.clock
  have hmet : (enqueued gs id (newSession gs entry mem.next id w ud cf)).minStartTime ≤
      gs.virtualTime := by
    rw [hcache, hstart]
    rcases h.reached with hmax | hle
    · have hlast : entry.lastFinishTime ≤ gs.virtualTime :=
        h.settled hmax id entry.core (activeEntry_of_find hadm.found)
      omega
    · omega
  constructor
  · rw [hclock]
    exact hlow
  · rw [hclock]
    exact .inr hmet
  · intro hmax
    omega

theorem ClockMet.trace (h : ClockMet gs) (htrace : TokenTrace gs gs') : ClockMet gs' := by
  induction htrace with
  | refl => exact h
  | enqueue mem id ud cf _ ih => exact ih.enqueue mem id tenantQuantumSize ud cf

/-- The clock catches up with the queue whenever it is charged. -/
theorem GroupInv.clockMet (h : GroupInv mem gs) (w : ℕ) :
    ClockMet (groupSchedulerUpdateVirtualTime gs w) := by
  have hcaught : gs.minStartTime ≤ advancedVirtualTime gs w := by
    rw [advancedVirtualTime_eq]
    exact le_max_right _ _
  have hcache := h.cache
  constructor
  · exact (h.update w).clock
  · rw [updateVirtualTime_virtualTime, updateVirtualTime_minStartTime, rebaseCached,
      rebaseTime_eq_sub]
    split_ifs <;> omega
  · rw [updateVirtualTime_virtualTime, updateVirtualTime_minStartTime, rebaseCached,
      rebaseTime_eq_sub]
    intro hmax id e he
    rw [updateVirtualTime_activeEntry h.nodup h.listed] at he
    obtain ⟨e₀, he₀, rfl⟩ := Option.map_eq_some_iff.mp he
    have htag := h.tags id e₀ he₀
    dsimp only
    rw [rebaseTime_eq_sub]
    split_ifs at hmax <;> omega

/-- A search that finds nothing has not moved the clock. -/
theorem ClockMet.missed (h : ClockMet gs) (hcal : CalendarInv gs)
    (hdeq : groupSchedulerDequeue gs = (none, gs')) : gs' = gs := by
  have hstays : dequeueTime gs = gs.virtualTime := by
    rcases dequeueTime_cases gs with hstays | ⟨-, hne, hlt, -⟩
    · exact hstays
    · have hle := h.reached.resolve_left hne
      omega
  rcases dequeue_cases hcal with ⟨-, heq⟩ | ⟨-, -, heq⟩ | ⟨-, q, -, heq⟩
  · rw [hdeq] at heq
    exact congrArg Prod.snd heq
  · rw [hdeq, hstays] at heq
    exact congrArg Prod.snd heq
  · rw [hdeq] at heq
    cases heq

theorem Unloaded.clockMet (h : Unloaded gs) (hcache : gs.minStartTime = uint64Max) : ClockMet gs := by
  constructor
  · rw [h.clock]
    exact zero_lt_one.trans one_lt_uint64Max
  · exact .inl hcache
  · intro _ id e he
    rw [h.tags id e he]
    exact Nat.zero_le _

end Group

variable {s : Scheduler}

theorem SchedulerInv.clockMet (h : SchedulerInv s) (hmet : ClockMet s.systemScheduler) (c : Call) :
    ClockMet (Hwfq.after s c).systemScheduler := by
  cases htenant : c.configuresTenant with
  | true => exact h.tenantCall_keeps clockMet_edits hmet htenant
  | false =>
    by_cases hquiet : c.asksSession = false
    · exact hmet.trace (h.registers htenant hquiet)
    cases c with
    | dequeue out now =>
      obtain rfl : out = true := by simpa [Call.asksSession] using hquiet
      obtain ⟨live, hpool, -⟩ := h.system.pooled
      have hgroup := hpool.group
      rcases h.token_cases now.toNat with ⟨system, hd, heq⟩ | ⟨token, system, hd, htrace⟩
      · have hstate : (Hwfq.after s (.dequeue true now)).systemScheduler = system := heq
        rw [hstate, hmet.missed hgroup.calendar hd]
        exact hmet
      · have hnext := hgroup.dequeue
        rw [hd] at hnext
        exact (hnext.clockMet tenantQuantumSize).trace htrace
    | _ => exact absurd rfl hquiet

/-- What every run keeps true of the clock of the tokens. -/
structure TokenClock (s : Scheduler) : Prop where
  inv : SchedulerInv s
  met : ClockMet s.systemScheduler

theorem TokenClock.step (h : TokenClock s) (c : Call) : TokenClock (after s c) :=
  ⟨h.inv.after c, h.inv.clockMet h.met c⟩

theorem Made.tokenClock (h : Made s) (calls : List Call) : TokenClock (Hwfq.afterRun s calls) := by
  have hfirst : TokenClock s := by
    obtain ⟨mem, config, hinit⟩ := h
    have hnew := hwfqInit_success hinit
    obtain ⟨mem₀, -, hfresh⟩ := hnew.system
    exact ⟨hnew.inv, hfresh.unloaded.clockMet hfresh.minStartTime⟩
  exact run_invariant_all (fun _ c hs => hs.step c) hfirst calls

/-- A dequeue that finds no token to choose changes nothing. -/
theorem TokenClock.missed (h : TokenClock s) {system : GroupScheduler TenantPtr}
    (hdeq : groupSchedulerDequeue s.systemScheduler = (none, system)) : system = s.systemScheduler := by
  obtain ⟨live, hpool, -⟩ := h.inv.system.pooled
  exact h.met.missed hpool.group.calendar hdeq

end Hwfq
