import Hwfq.PooledGroup

/-!
# What the queue leaves alone in the entry store

Enqueue, dequeue and the clock write time stamps into the slots of the store and
nothing else. Allocations, flags and statistics of every slot stay, and so do the
sums and bounds of the scheduler.
-/
namespace Hwfq

variable {α : Type*} {gs gs' : GroupScheduler α}

/-- An entry without what the queue writes into it. -/
def EntryConfig.untimed (e : EntryConfig) : EntryConfig :=
  { e with calculatedRate := 0, lastFinishTime := 0 }

def slotFace (gs : GroupScheduler α) (j : ℕ) : Option EntryConfig :=
  (hwfqChunkedGet gs.entries j).map EntryConfig.untimed

/-- The allocations of the configured entries. -/
def entryAllocations (gs : GroupScheduler α) (j : ℕ) : Option Allocation :=
  (activeEntry gs j).map (·.allocation)

theorem entryAllocations_eq (gs : GroupScheduler α) (j : ℕ) :
    entryAllocations gs j = ((slotFace gs j).filter (·.configured)).map (·.allocation) := by
  unfold entryAllocations activeEntry slotFace
  cases hwfqChunkedGet gs.entries j with
  | none => rfl
  | some e => cases h : e.configured <;> simp [Option.filter_some, EntryConfig.core, EntryConfig.untimed, h]

/-- A step of the queue. -/
structure QueueStep (gs gs' : GroupScheduler α) : Prop where
  bounds : gs'.bounds = gs.bounds
  rates : gs'.allocatedRateCapacity = gs.allocatedRateCapacity
  limit : gs'.entries.limit = gs.entries.limit
  slots : ∀ j, slotFace gs' j = slotFace gs j

theorem QueueStep.refl (gs : GroupScheduler α) : QueueStep gs gs := ⟨rfl, rfl, rfl, fun _ => rfl⟩

theorem QueueStep.trans {gs₁ gs₂ gs₃ : GroupScheduler α} (h : QueueStep gs₁ gs₂)
    (h' : QueueStep gs₂ gs₃) : QueueStep gs₁ gs₃ :=
  ⟨h'.bounds.trans h.bounds, h'.rates.trans h.rates, h'.limit.trans h.limit, fun j => (h'.slots j).trans (h.slots j)⟩

theorem QueueStep.of_ledger (h : gs'.ledger = gs.ledger) (hgeo : gs'.geometry = gs.geometry) :
    QueueStep gs gs' where
  bounds := GroupScheduler.bounds_of_ledger h hgeo
  rates := congrArg Ledger.allocatedRateCapacity h
  limit := congrArg (·.entries.limit) h
  slots j := by
    have hent : gs'.entries = gs.entries := congrArg Ledger.entries h
    rw [slotFace, hent, slotFace]

theorem QueueStep.dequeue (h : CalendarInv gs) : QueueStep gs (groupSchedulerDequeue gs).2 :=
  .of_ledger (dequeue_ledger gs) (dequeue_geometry h)

theorem limit_writeAll {f : EntryConfig → EntryConfig} (ids : List ℕ) (ce : ChunkedEntries) :
    (writeAll ce ids f).limit = ce.limit := by
  unfold ChunkedEntries.limit
  rw [(writeAll_counters ce ids f).2.2.2]

/-- Writes that a reading of the entries does not see. -/
theorem slots_writeAll {f : EntryConfig → EntryConfig} (hf : ∀ e, (f e).untimed = e.untimed)
    (ids : List ℕ) (ce : ChunkedEntries) (j : ℕ) :
    (hwfqChunkedGet (writeAll ce ids f) j).map EntryConfig.untimed =
      (hwfqChunkedGet ce j).map EntryConfig.untimed :=
  get_writeAll_map hf ids ce j

theorem QueueStep.update (gs : GroupScheduler α) (w : ℕ) :
    QueueStep gs (groupSchedulerUpdateVirtualTime gs w) where
  bounds := updateVirtualTime_bounds gs w
  rates := (updateVirtualTime_totals gs w).2.2.1
  limit := by
    rcases updateVirtualTime_cases gs w with ⟨-, heq⟩ | ⟨-, heq⟩
    · rw [heq]
    · rw [heq]
      exact limit_writeAll gs.configuredEntries gs.entries
  slots j := by
    rcases updateVirtualTime_cases gs w with ⟨-, heq⟩ | ⟨-, heq⟩
    · rw [heq]
      rfl
    · rw [heq]
      exact slots_writeAll (f := fun e =>
        { e with lastFinishTime := rebaseTime (advancedVirtualTime gs w / 2) e.lastFinishTime })
        (fun _ => rfl) gs.configuredEntries gs.entries j

theorem enqueue_entries (mem : Allocator) (gs : GroupScheduler α) (id w : ℕ) (ud : Option α)
    (cf : Bool) :
    (groupSchedulerEnqueue mem gs id w ud cf).gs.entries = gs.entries ∨
      ∃ n, (groupSchedulerEnqueue mem gs id w ud cf).gs.entries =
        gs.entries.write id fun e => { e with lastFinishTime := n } := by
  rcases enqueue_cases mem gs id w ud cf with ⟨-, heq, -⟩ | ⟨-, -, -, -, entry, -, heq⟩
  · exact .inl (by rw [heq])
  · refine .inr ⟨(newSession gs entry mem.next id w ud cf).finishTime, ?_⟩
    rw [heq]
    exact congrArg Ledger.entries (enqueued_ledger id gs _)

theorem QueueStep.enqueue (mem : Allocator) (gs : GroupScheduler α) (id w : ℕ) (ud : Option α)
    (cf : Bool) : QueueStep gs (groupSchedulerEnqueue mem gs id w ud cf).gs where
  bounds := (enqueue_ledger mem gs id w ud cf).1
  rates := (enqueue_ledger mem gs id w ud cf).2
  limit := by
    rcases enqueue_entries mem gs id w ud cf with heq | ⟨n, heq⟩
    · rw [heq]
    · rw [heq]
      exact limit_writeAll (f := fun e => { e with lastFinishTime := n }) [id] gs.entries
  slots j := by
    rcases enqueue_entries mem gs id w ud cf with heq | ⟨n, heq⟩
    · rw [slotFace, heq, slotFace]
    · rw [slotFace, heq, slotFace]
      exact slots_writeAll (f := fun e => { e with lastFinishTime := n }) (fun _ => rfl) [id]
        gs.entries j

theorem QueueStep.entryAllocations (h : QueueStep gs gs') :
    entryAllocations gs' = entryAllocations gs := by
  funext j
  rw [entryAllocations_eq, h.slots, entryAllocations_eq]

end Hwfq
