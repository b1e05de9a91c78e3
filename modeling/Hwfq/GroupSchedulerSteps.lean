import Hwfq.CalendarSearch
import Hwfq.EntryStore
import Hwfq.GroupScheduler

/-!
# What each group scheduler operation can do

One lemma for each operation says all of its outcomes. A scheduler is split into
the part the queue operations write and the ledger of its entries; configuration
leaves the first alone, the calendar leaves the second alone.
-/
namespace Hwfq
open SetBits MinSearch Bins

variable {α : Type*} {gs : GroupScheduler α}

/-- Everything that configuration of entries does not touch. -/
structure QueueView (α : Type*) where
  binBitfield : ℕ → BitVec 32
  binHeads : ℕ → List (SessionState α)
  groupBitfield : ℕ → BitVec 32
  geometry : Geometry
  virtualTime : ℕ
  activeSessionCount : ℕ
  minFinishTime : ℕ
  minStartTime : ℕ
  minSession : Option Addr

def GroupScheduler.queueView (gs : GroupScheduler α) : QueueView α :=
  ⟨gs.binBitfield, gs.binHeads, gs.groupBitfield, gs.geometry, gs.virtualTime,
    gs.activeSessionCount, gs.minFinishTime, gs.minStartTime, gs.minSession⟩

theorem CalendarInv.of_queueView {gs' : GroupScheduler α} (h : CalendarInv gs)
    (hq : gs'.queueView = gs.queueView) : CalendarInv gs' :=
  h.congr (congrArg QueueView.binHeads hq) (congrArg QueueView.binBitfield hq)
    (congrArg QueueView.groupBitfield hq) (congrArg QueueView.geometry hq)

theorem queued_of_queueView {gs' : GroupScheduler α} (hq : gs'.queueView = gs.queueView) :
    gs'.queued = gs.queued :=
  queued_congr (congrArg QueueView.binHeads hq) (congrArg QueueView.geometry hq)

/-! ## Entries -/

theorem groupSchedulerFindEntry_some {id : ℕ} {e : EntryConfig} :
    groupSchedulerFindEntry gs id = some e ↔
      hwfqChunkedGet gs.entries id = some e ∧ e.configured = true := by
  simp [groupSchedulerFindEntry, Option.filter_eq_some_iff]

/-- An entry without its cached rate. -/
def EntryConfig.core (e : EntryConfig) : EntryConfig := { e with calculatedRate := 0 }

theorem recalculate_core (gs : GroupScheduler α) (j : ℕ) :
    (hwfqChunkedGet (recalculateWeightBasedRates gs).entries j).map EntryConfig.core =
      (hwfqChunkedGet gs.entries j).map EntryConfig.core :=
  get_writeAll_map (fun e => by cases h : e.allocation <;> simp [h, EntryConfig.core]) _ _ _

@[simp] theorem recalculate_queueView :
    (recalculateWeightBasedRates gs).queueView = gs.queueView := rfl

@[simp] theorem writeEntry_queueView (id : ℕ) (f : EntryConfig → EntryConfig) :
    (gs.writeEntry id f).queueView = gs.queueView := rfl

@[simp] theorem release_queueView (a : Allocation) : (gs.release a).queueView = gs.queueView := by
  cases a <;> rfl

@[simp] theorem release_entries (a : Allocation) : (gs.release a).entries = gs.entries := by
  cases a <;> rfl

@[simp] theorem release_configuredEntries (a : Allocation) :
    (gs.release a).configuredEntries = gs.configuredEntries := by
  cases a <;> rfl

@[simp] theorem release_totalCapacity (a : Allocation) :
    (gs.release a).totalCapacity = gs.totalCapacity := by
  cases a <;> rfl

@[simp] theorem release_maxEntries (a : Allocation) :
    (gs.release a).maxEntries = gs.maxEntries := by
  cases a <;> rfl

@[simp] theorem reserve_entries (a : Allocation) : (gs.reserve a).entries = gs.entries := by
  cases a <;> rfl

@[simp] theorem reserve_configuredEntries (a : Allocation) :
    (gs.reserve a).configuredEntries = gs.configuredEntries := by
  cases a <;> rfl

/-- The sums of an entry ledger fit their C types. -/
structure SumsFit (gs : GroupScheduler α) : Prop where
  rates : gs.allocatedRateCapacity ≤ uint64Max
  weights : gs.totalWeight ≤ uint32Max

theorem u64_le (n : ℕ) : u64 n ≤ uint64Max := by
  have := Nat.mod_lt n (by decide : 18446744073709551616 > 0)
  unfold u64 uint64Max
  omega

theorem u32_le (n : ℕ) : u32 n ≤ uint32Max := by
  have := Nat.mod_lt n (by decide : 4294967296 > 0)
  unfold u32 uint32Max
  omega

theorem subU64_le {a : ℕ} (ha : a ≤ uint64Max) (b : ℕ) : subU64 a b ≤ uint64Max := by
  unfold subU64
  split_ifs
  · omega
  · exact u64_le _

theorem subU32_le {a : ℕ} (ha : a ≤ uint32Max) (b : ℕ) : subU32 a b ≤ uint32Max := by
  unfold subU32
  split_ifs
  · omega
  · exact u32_le _

theorem u64_subU64_add {a r : ℕ} (ha : a ≤ uint64Max) (hr : r ≤ uint64Max) :
    u64 (subU64 a r + r) = a := by
  unfold uint64Max at ha hr
  unfold u64 subU64 u64
  split_ifs <;> omega

theorem u32_subU32_add {a r : ℕ} (ha : a ≤ uint32Max) (hr : r ≤ uint32Max) :
    u32 (subU32 a r + r) = a := by
  unfold uint32Max at ha hr
  unfold u32 subU32 u32
  split_ifs <;> omega

theorem Allocation.reserved_le (a : Allocation) : a.reserved ≤ uint64Max := by
  cases a with
  | rate r =>
    have := r.toNat_lt
    simp only [Allocation.reserved]
    unfold uint64Max
    omega
  | weight _ => exact Nat.zero_le _
  | other => exact Nat.zero_le _

theorem Allocation.weightValue_le (a : Allocation) : a.weightValue ≤ uint32Max := by
  cases a with
  | weight w =>
    have := w.toNat_lt
    simp only [Allocation.weightValue]
    unfold uint32Max
    omega
  | rate _ => exact Nat.zero_le _
  | other => exact Nat.zero_le _

/-- Giving an allocation back after taking it away restores the sums. -/
theorem reserve_release (h : SumsFit gs) (a : Allocation) : (gs.release a).reserve a = gs := by
  have hweight := u32_subU32_add h.weights a.weightValue_le
  cases a with
  | rate r =>
    have hrate : u64 (subU64 gs.allocatedRateCapacity r.toNat + r.toNat) = _ :=
      u64_subU64_add h.rates (Allocation.reserved_le (.rate r))
    simp only [GroupScheduler.release, GroupScheduler.reserve, hrate]
  | weight w => simp only [GroupScheduler.release, GroupScheduler.reserve, hweight]
  | other => simp only [GroupScheduler.release, GroupScheduler.reserve, hweight]

theorem u64_of_le {n : ℕ} (h : n ≤ uint64Max) : u64 n = n := by
  unfold uint64Max at h
  unfold u64
  omega

theorem u32_of_le {n : ℕ} (h : n ≤ uint32Max) : u32 n = n := by
  unfold uint32Max at h
  unfold u32
  omega

theorem subU64_zero (n : ℕ) : subU64 n 0 = n := by
  unfold subU64
  rw [if_pos (Nat.zero_le n), Nat.sub_zero]

theorem reserve_rates (h : SumsFit gs) (a : Allocation) :
    (gs.reserve a).allocatedRateCapacity = u64 (gs.allocatedRateCapacity + a.reserved) := by
  cases a with
  | rate r => rfl
  | weight w => exact (u64_of_le h.rates).symm
  | other => exact (u64_of_le h.rates).symm

theorem release_rates (gs : GroupScheduler α) (a : Allocation) :
    (gs.release a).allocatedRateCapacity = subU64 gs.allocatedRateCapacity a.reserved := by
  cases a with
  | rate r => rfl
  | weight w => exact (subU64_zero _).symm
  | other => exact (subU64_zero _).symm

theorem SumsFit.release (h : SumsFit gs) (a : Allocation) : SumsFit (gs.release a) := by
  cases a with
  | rate r => exact ⟨subU64_le h.rates _, h.weights⟩
  | weight w => exact ⟨h.rates, subU32_le h.weights _⟩
  | other => exact ⟨h.rates, subU32_le h.weights _⟩

theorem SumsFit.reserve (h : SumsFit gs) (a : Allocation) : SumsFit (gs.reserve a) := by
  cases a with
  | rate r => exact ⟨u64_le _, h.weights⟩
  | weight w => exact ⟨h.rates, u32_le _⟩
  | other => exact ⟨h.rates, u32_le _⟩

/-- The scheduler that the capacity check of configure sees: the old allocation
of a configured entry is already given back. -/
def releasedFor (gs : GroupScheduler α) (entry : EntryConfig) : GroupScheduler α :=
  if entry.configured then gs.release entry.allocation else gs

@[simp] theorem releasedFor_queueView (entry : EntryConfig) :
    (releasedFor gs entry).queueView = gs.queueView := by
  unfold releasedFor
  split_ifs <;> simp

@[simp] theorem releasedFor_entries (entry : EntryConfig) :
    (releasedFor gs entry).entries = gs.entries := by
  unfold releasedFor
  split_ifs <;> simp

@[simp] theorem releasedFor_configuredEntries (entry : EntryConfig) :
    (releasedFor gs entry).configuredEntries = gs.configuredEntries := by
  unfold releasedFor
  split_ifs <;> simp

@[simp] theorem releasedFor_totalCapacity (entry : EntryConfig) :
    (releasedFor gs entry).totalCapacity = gs.totalCapacity := by
  unfold releasedFor
  split_ifs <;> simp

@[simp] theorem releasedFor_maxEntries (entry : EntryConfig) :
    (releasedFor gs entry).maxEntries = gs.maxEntries := by
  unfold releasedFor
  split_ifs <;> simp

theorem SumsFit.releasedFor (h : SumsFit gs) (entry : EntryConfig) :
    SumsFit (releasedFor gs entry) := by
  unfold Hwfq.releasedFor
  split_ifs
  · exact h.release _
  · exact h

/-- Whether the check of configure turns a rate down. -/
def Overbooks (gs : GroupScheduler α) (entry : EntryConfig) (a : Allocation) : Prop :=
  (∃ r, a = .rate r) ∧
    u64 ((releasedFor gs entry).allocatedRateCapacity + a.reserved) > gs.totalCapacity

/-- All outcomes of `group_scheduler_configure_entry`. -/
theorem configureEntry_cases (h : SumsFit gs) (id : ℕ) (a : Allocation) :
    (groupSchedulerConfigureEntry gs id a = (.invalidArg, gs) ∧
      (gs.maxEntries ≤ id ∨ validateAllocation a = false)) ∨
    (groupSchedulerConfigureEntry gs id a = (.notFound, gs) ∧
      hwfqChunkedGet gs.entries id = none) ∨
    (id < gs.maxEntries ∧ validateAllocation a = true ∧
      ∃ entry, hwfqChunkedGet gs.entries id = some entry ∧
        ((groupSchedulerConfigureEntry gs id a = (.overbooked, gs) ∧ Overbooks gs entry a) ∨
          (groupSchedulerConfigureEntry gs id a =
              (.success, commitEntry (releasedFor gs entry) entry id a) ∧
            ¬ Overbooks gs entry a))) := by
  unfold groupSchedulerConfigureEntry
  by_cases hid : id ≥ gs.maxEntries
  · exact .inl ⟨by rw [if_pos hid], .inl hid⟩
  by_cases hvalid : validateAllocation a = true
  swap
  · exact .inl ⟨by rw [if_neg hid, if_pos (by simp [hvalid])], .inr (by simpa using hvalid)⟩
  rw [if_neg hid, if_neg (by simp [hvalid]), groupSchedulerGetEntry]
  cases hget : hwfqChunkedGet gs.entries id with
  | none => exact .inr (.inl ⟨rfl, rfl⟩)
  | some entry =>
    refine .inr (.inr ⟨Nat.lt_of_not_le hid, hvalid, entry, rfl, ?_⟩)
    have hrestore : (if entry.configured then (releasedFor gs entry).reserve entry.allocation
        else releasedFor gs entry) = gs := by
      unfold releasedFor
      split_ifs
      · exact reserve_release h _
      · rfl
    cases a with
    | rate r =>
      dsimp only
      rw [← releasedFor, hrestore, releasedFor_totalCapacity]
      split_ifs with hover
      · exact .inl ⟨rfl, ⟨r, rfl⟩, hover⟩
      · exact .inr ⟨rfl, fun ho => hover ho.2⟩
    | weight w => exact .inr ⟨rfl, fun ho => by obtain ⟨⟨r, hr⟩, -⟩ := ho; cases hr⟩
    | other => simp [validateAllocation] at hvalid

theorem commitEntry_queueView (entry : EntryConfig) (id : ℕ) (a : Allocation) :
    (commitEntry gs entry id a).queueView = gs.queueView := by
  cases a <;> rfl

theorem commitEntry_configuredEntries (entry : EntryConfig) (id : ℕ) (a : Allocation) :
    (commitEntry gs entry id a).configuredEntries =
      if entry.configured then gs.configuredEntries else id :: gs.configuredEntries := by
  cases a <;> rfl

theorem commitEntry_totals (entry : EntryConfig) (id : ℕ) (a : Allocation) :
    (commitEntry gs entry id a).allocatedRateCapacity = (gs.reserve a).allocatedRateCapacity ∧
      (commitEntry gs entry id a).totalWeight = (gs.reserve a).totalWeight ∧
      (commitEntry gs entry id a).totalCapacity = gs.totalCapacity ∧
      (commitEntry gs entry id a).maxEntries = gs.maxEntries := by
  cases a <;> exact ⟨rfl, rfl, rfl, rfl⟩

/-- The entry that configure leaves behind, without its cached rate. -/
def configuredAs (id : ℕ) (a : Allocation) (e : EntryConfig) : EntryConfig :=
  { e with
    entryId := id
    allocation := a
    calculatedRate := 0
    lastFinishTime := 0
    configured := true }

theorem commitEntry_core (entry : EntryConfig) (id : ℕ) (a : Allocation) (j : ℕ) :
    (hwfqChunkedGet (commitEntry gs entry id a).entries j).map EntryConfig.core =
      if j = id then (hwfqChunkedGet gs.entries j).map (configuredAs id a)
      else (hwfqChunkedGet gs.entries j).map EntryConfig.core := by
  rw [commitEntry, recalculate_core]
  simp only [GroupScheduler.writeEntry, reserve_entries, get_write]
  split_ifs
  · rw [Option.map_map]
    rfl
  · rfl

/-- All outcomes of `group_scheduler_remove_entry`. -/
theorem removeEntry_cases (gs : GroupScheduler α) (id : ℕ) :
    (groupSchedulerRemoveEntry gs id = (.invalidArg, gs) ∧ gs.maxEntries ≤ id) ∨
    (groupSchedulerRemoveEntry gs id = (.notFound, gs) ∧
      groupSchedulerFindEntry gs id = none) ∨
    (id < gs.maxEntries ∧ (groupSchedulerRemoveEntry gs id).1 = .success ∧
      ∃ entry, groupSchedulerFindEntry gs id = some entry ∧
        (groupSchedulerRemoveEntry gs id).2 =
          recalculateWeightBasedRates
            (GroupScheduler.writeEntry
              { gs.release entry.allocation with
                configuredEntries := gs.configuredEntries.erase id }
              id fun e => { e with configured := false })) := by
  unfold groupSchedulerRemoveEntry
  by_cases hid : id ≥ gs.maxEntries
  · exact .inl ⟨by rw [if_pos hid], hid⟩
  rw [if_neg hid]
  cases hfind : groupSchedulerFindEntry gs id with
  | none => exact .inr (.inl ⟨rfl, rfl⟩)
  | some entry =>
    refine .inr (.inr ⟨Nat.lt_of_not_le hid, rfl, entry, rfl, ?_⟩)
    simp only [release_configuredEntries]

theorem configureEntry_queueView (h : SumsFit gs) (id : ℕ) (a : Allocation) :
    (groupSchedulerConfigureEntry gs id a).2.queueView = gs.queueView := by
  rcases configureEntry_cases h id a with ⟨heq, -⟩ | ⟨heq, -⟩ | ⟨-, -, entry, -, hcase⟩
  · rw [heq]
  · rw [heq]
  · rcases hcase with ⟨heq, -⟩ | ⟨heq, -⟩
    · rw [heq]
    · rw [heq]
      exact (commitEntry_queueView _ _ _).trans (releasedFor_queueView entry)

theorem removeEntry_queueView (gs : GroupScheduler α) (id : ℕ) :
    (groupSchedulerRemoveEntry gs id).2.queueView = gs.queueView := by
  rcases removeEntry_cases gs id with ⟨heq, -⟩ | ⟨heq, -⟩ | ⟨-, -, entry, -, heq⟩
  · rw [heq]
  · rw [heq]
  · rw [heq, recalculate_queueView, writeEntry_queueView]
    exact @release_queueView _ gs entry.allocation

/-! ## Enqueue -/

theorem newSession_startTime (gs : GroupScheduler α) (entry : EntryConfig) (addr id w : ℕ)
    (ud : Option α) (cf : Bool) :
    (newSession gs entry addr id w ud cf).startTime = max gs.virtualTime entry.lastFinishTime := by
  dsimp only [newSession]
  split_ifs <;> omega

theorem newSession_finishTime (gs : GroupScheduler α) (entry : EntryConfig) (addr id w : ℕ)
    (ud : Option α) (cf : Bool) :
    (newSession gs entry addr id w ud cf).finishTime =
      if (newSession gs entry addr id w ud cf).startTime >
          uint64Max - (newSession gs entry addr id w ud cf).serviceInterval then uint64Max
      else (newSession gs entry addr id w ud cf).startTime +
        (newSession gs entry addr id w ud cf).serviceInterval := rfl

theorem serviceIntervalOf_pos (w rate : ℕ) : 0 < serviceIntervalOf w rate := by
  unfold serviceIntervalOf
  dsimp only
  generalize (if w > uint64Max >>> timePrecisionShift then uint64Max
    else w <<< timePrecisionShift) / rate = q
  split_ifs with hq <;> omega

/-- `work_size` in fixed point, capped. -/
theorem scaledWork_le (w : ℕ) :
    (if w > uint64Max >>> timePrecisionShift then uint64Max else w <<< timePrecisionShift) ≤
      uint64Max := by
  rw [Nat.shiftRight_eq_div_pow, Nat.shiftLeft_eq]
  unfold timePrecisionShift uint64Max
  split_ifs <;> omega

theorem one_lt_uint64Max : 1 < uint64Max := by
  unfold uint64Max
  omega

theorem one_le_uint64Max : 1 ≤ uint64Max := one_lt_uint64Max.le

theorem serviceIntervalOf_le (w rate : ℕ) : serviceIntervalOf w rate ≤ uint64Max := by
  have hdiv := (Nat.div_le_self _ rate).trans (scaledWork_le w)
  have hone := one_le_uint64Max
  unfold serviceIntervalOf
  dsimp only
  generalize (if w > uint64Max >>> timePrecisionShift then uint64Max
    else w <<< timePrecisionShift) / rate = q at hdiv ⊢
  split_ifs
  · exact hone
  · exact hdiv

/-- The bin of a new session, which its address and user data have no part in. -/
def newSessionBin (gs : GroupScheduler α) (entry : EntryConfig) (w : ℕ) : ℕ :=
  sessionBin gs (newSession gs entry 0 0 w none false)

theorem sessionBin_newSession (gs : GroupScheduler α) (entry : EntryConfig) (addr id w : ℕ)
    (ud : Option α) (cf : Bool) :
    sessionBin gs (newSession gs entry addr id w ud cf) = newSessionBin gs entry w := rfl

/-- The scheduler after `session` was accepted. -/
def enqueued (gs : GroupScheduler α) (id : ℕ) (session : SessionState α) : GroupScheduler α :=
  { (inserted gs session).writeEntry id fun e => { e with lastFinishTime := session.finishTime } with
    activeSessionCount := u32 (gs.activeSessionCount + 1) }

/-- The tests of enqueue on the entry and the bin, before memory. -/
structure Admissible (gs : GroupScheduler α) (id w : ℕ) (entry : EntryConfig) : Prop where
  size : w ≠ 0
  id_lt : id < gs.maxEntries
  found : groupSchedulerFindEntry gs id = some entry
  rate : entryRate gs entry ≠ 0
  bin : newSessionBin gs entry w < gs.numBins

instance (gs : GroupScheduler α) (id w : ℕ) : Decidable (∃ entry, Admissible gs id w entry) :=
  decidable_of_iff (∃ entry ∈ groupSchedulerFindEntry gs id, w ≠ 0 ∧ id < gs.maxEntries ∧
      entryRate gs entry ≠ 0 ∧ newSessionBin gs entry w < gs.numBins)
    ⟨fun ⟨entry, hfound, hsize, hid, hrate, hbin⟩ => ⟨entry, hsize, hid, hfound, hrate, hbin⟩,
      fun ⟨entry, h⟩ => ⟨entry, h.found, h.size, h.id_lt, h.rate, h.bin⟩⟩

/-- All outcomes of `group_scheduler_enqueue`. -/
theorem enqueue_cases (mem : Allocator) (gs : GroupScheduler α) (id w : ℕ) (ud : Option α)
    (cf : Bool) :
    ((groupSchedulerEnqueue mem gs id w ud cf).status ≠ .success ∧
      (groupSchedulerEnqueue mem gs id w ud cf).gs = gs ∧
      (groupSchedulerEnqueue mem gs id w ud cf).session = none ∧
      mem.next ≤ (groupSchedulerEnqueue mem gs id w ud cf).mem.next ∧
      (mem.ok 0 = false ∨ ¬ ∃ entry, Admissible gs id w entry)) ∨
    ((groupSchedulerEnqueue mem gs id w ud cf).status = .success ∧
      (groupSchedulerEnqueue mem gs id w ud cf).session = some mem.next ∧
      (groupSchedulerEnqueue mem gs id w ud cf).mem.next = mem.next + 1 ∧
      mem.ok 0 = true ∧
      ∃ entry, Admissible gs id w entry ∧
        (groupSchedulerEnqueue mem gs id w ud cf).gs =
          enqueued gs id (newSession gs entry mem.next id w ud cf)) := by
  unfold groupSchedulerEnqueue
  by_cases hw : w = 0
  · rw [if_pos hw]
    exact .inl ⟨by simp, rfl, rfl, le_rfl, .inr fun ⟨_, ha⟩ => ha.size hw⟩
  by_cases hid : id ≥ gs.maxEntries
  · rw [if_neg hw, if_pos hid]
    exact .inl ⟨by simp, rfl, rfl, le_rfl, .inr fun ⟨_, ha⟩ => Nat.not_le.mpr ha.id_lt hid⟩
  rw [if_neg hw, if_neg hid]
  cases hfind : groupSchedulerFindEntry gs id with
  | none =>
    exact .inl ⟨by simp, rfl, rfl, le_rfl, .inr fun ⟨_, ha⟩ => by simpa [hfind] using ha.found⟩
  | some entry =>
    have hsame : ∀ e, Admissible gs id w e → e = entry := fun e ha =>
      Option.some.inj (ha.found.symm.trans hfind)
    by_cases hrate : entryRate gs entry = 0
    · simp only [hrate, if_true]
      refine .inl ⟨by simp, trivial, trivial, le_rfl, .inr fun ⟨e, ha⟩ => ha.rate ?_⟩
      rw [hsame e ha, hrate]
    simp only [hrate, if_false]
    by_cases hok : mem.ok 0 = true
    swap
    · have halloc : hwfqAlloc mem 1 = (none, ⟨fun k => mem.ok (k + 1), mem.next⟩) := by
        simp [hwfqAlloc, hok]
      rw [halloc]
      exact .inl ⟨by simp, rfl, rfl, le_rfl, .inl (by simpa using hok)⟩
    · have halloc : hwfqAlloc mem 1 =
          (some mem.next, ⟨fun k => mem.ok (k + 1), mem.next + 1⟩) := by
        simp [hwfqAlloc, hok]
      rw [halloc]
      dsimp only
      rcases calendarInsertSession_cases gs (newSession gs entry mem.next id w ud cf) with
        ⟨hbin, hstatus⟩ | ⟨hbin, hfail⟩
      · refine .inr ?_
        have hins : calendarInsertSession gs (newSession gs entry mem.next id w ud cf) =
            (.success, inserted gs (newSession gs entry mem.next id w ud cf)) :=
          Prod.ext hstatus rfl
        have hadm : Admissible gs id w entry := ⟨hw, Nat.lt_of_not_le hid, hfind, hrate, hbin⟩
        rw [hins]
        refine ⟨rfl, rfl, rfl, hok, entry, hadm, ?_⟩
        rw [enqueued, ← inserted_activeSessionCount (s := newSession gs entry mem.next id w ud cf)]
        rfl
      · rw [hfail]
        refine .inl ⟨by simp, rfl, rfl, Nat.le_succ _, .inr fun ⟨e, ha⟩ => ?_⟩
        have hlt := ha.bin
        rw [hsame e ha, ← sessionBin_newSession gs entry mem.next id w ud cf] at hlt
        omega

/-- Enqueue succeeds when memory is granted and its tests pass. -/
theorem enqueue_success_iff {mem : Allocator} {gs : GroupScheduler α} {id w : ℕ} {ud : Option α}
    {cf : Bool} : (groupSchedulerEnqueue mem gs id w ud cf).status = .success ↔
      mem.ok 0 = true ∧ ∃ entry, Admissible gs id w entry := by
  rcases enqueue_cases mem gs id w ud cf with
    ⟨hbad, -, -, -, hwhy⟩ | ⟨hok, -, -, hmem, entry, hadm, -⟩
  · refine iff_of_false hbad ?_
    rintro ⟨hmem, hadm⟩
    rcases hwhy with hno | hno
    · rw [hmem] at hno
      cases hno
    · exact hno hadm
  · exact iff_of_true hok ⟨hmem, entry, hadm⟩

/-! ## What an accepted session changes -/

section Enqueued
variable {s : SessionState α} (id : ℕ) (hbin : sessionBin gs s < gs.numBins)

@[simp] theorem enqueued_geometry : (enqueued gs id s).geometry = gs.geometry :=
  inserted_geometry (s := s)

@[simp] theorem enqueued_virtualTime : (enqueued gs id s).virtualTime = gs.virtualTime :=
  inserted_virtualTime (s := s)

@[simp] theorem enqueued_activeSessionCount :
    (enqueued gs id s).activeSessionCount = u32 (gs.activeSessionCount + 1) := rfl

theorem enqueued_ledger (gs : GroupScheduler α) (s : SessionState α) : (enqueued gs id s).ledger =
    (gs.writeEntry id fun e => { e with lastFinishTime := s.finishTime }).ledger := by
  have h := @inserted_ledger _ gs s
  simp only [GroupScheduler.ledger, Ledger.mk.injEq] at h
  obtain ⟨h1, h2, h3, h4, h5, h6⟩ := h
  simp only [enqueued, GroupScheduler.ledger, GroupScheduler.writeEntry, h1, h2, h3, h4, h5, h6]

include hbin

theorem enqueued_minStartTime :
    (enqueued gs id s).minStartTime = min s.startTime gs.minStartTime :=
  inserted_minStartTime hbin

theorem enqueued_queued :
    (enqueued gs id s).queued = { s with binIndex := sessionBin gs s } ::ₘ gs.queued :=
  inserted_queued hbin

theorem CalendarInv.enqueue (h : CalendarInv gs) (hfresh : s.addr ∉ gs.queued.map (·.addr)) :
    CalendarInv (enqueued gs id s) :=
  (CalendarInv.insert hbin h hfresh).of_queueView rfl |>.congr rfl rfl rfl rfl

/-- The session that is put in starts when the cache says, or the cache keeps its session. -/
theorem CacheAttained.enqueued (hatt : CacheAttained gs) : CacheAttained (enqueued gs id s) := by
  unfold CacheAttained
  rw [enqueued_minStartTime id hbin, enqueued_queued id hbin]
  rcases min_choice s.startTime gs.minStartTime with hmin | hmin
  · exact .inr ⟨_, Multiset.mem_cons_self _ _, hmin.symm⟩
  · rw [hmin]
    apply hatt.imp_right
    rintro ⟨t, ht, heq⟩
    exact ⟨t, Multiset.mem_cons_of_mem ht, heq⟩

end Enqueued

section Admissible
variable {id w : ℕ} {entry : EntryConfig} (h : Admissible gs id w entry) (addr : Addr)
  (ud : Option α) (cf : Bool)
include h

/-- The session built for an admissible call falls into a bin of the calendar. -/
theorem Admissible.fits : sessionBin gs (newSession gs entry addr id w ud cf) < gs.numBins := h.bin

theorem Admissible.queued : (enqueued gs id (newSession gs entry addr id w ud cf)).queued =
    { newSession gs entry addr id w ud cf with
      binIndex := sessionBin gs (newSession gs entry addr id w ud cf) } ::ₘ gs.queued :=
  enqueued_queued id (h.fits addr ud cf)

end Admissible

/-! ## Dequeue -/

/-- The virtual time at which dequeue makes its choice. -/
def dequeueTime (gs : GroupScheduler α) : ℕ :=
  match findEligibleMinBitfield gs gs.virtualTime with
  | some _ => gs.virtualTime
  | none =>
      if gs.minStartTime ≠ uint64Max ∧ gs.minStartTime > gs.virtualTime then gs.minStartTime
      else gs.virtualTime

/-- The scheduler after a look at virtual time `t` that found nothing. -/
abbrev GroupScheduler.at (gs : GroupScheduler α) (t : ℕ) : GroupScheduler α :=
  { gs with virtualTime := t }

theorem virtualTime_le_dequeueTime (gs : GroupScheduler α) : gs.virtualTime ≤ dequeueTime gs := by
  unfold dequeueTime
  split
  · exact le_rfl
  · split_ifs <;> omega

/-- A choice after the jump is made at the least start time, which no session reaches before. -/
theorem dequeueTime_cases (gs : GroupScheduler α) : dequeueTime gs = gs.virtualTime ∨
    dequeueTime gs = gs.minStartTime ∧ gs.minStartTime ≠ uint64Max ∧
      gs.virtualTime < gs.minStartTime ∧ findEligibleMinBitfield gs gs.virtualTime = none := by
  unfold dequeueTime
  split
  · exact .inl rfl
  · rename_i hnone
    split_ifs with hjump
    · exact .inr ⟨rfl, hjump.1, hjump.2, hnone⟩
    · exact .inl rfl

/-- The two fields that `calendar_find_min_session` writes. -/
def GroupScheduler.retimed (gs : GroupScheduler α) (t f : ℕ) : GroupScheduler α :=
  { gs with virtualTime := t, minFinishTime := f }

/-- The outcome of `calendar_find_min_session` on a queue that is not empty. -/
theorem calendarFindMinSession_eq (hcount : gs.activeSessionCount ≠ 0) :
    calendarFindMinSession gs =
      match findEligibleMinBitfield gs (dequeueTime gs) with
      | some s => (some s, gs.retimed (dequeueTime gs) s.finishTime)
      | none => (none, gs.at (dequeueTime gs)) := by
  unfold calendarFindMinSession
  rw [if_neg hcount]
  cases hfind : findEligibleMinBitfield gs gs.virtualTime with
  | some s =>
    have ht : dequeueTime gs = gs.virtualTime := by simp [dequeueTime, hfind]
    rw [ht, hfind]
    rfl
  | none =>
    by_cases hmin : gs.minStartTime = uint64Max
    · have ht : dequeueTime gs = gs.virtualTime := by simp [dequeueTime, hfind, hmin]
      rw [ht, hfind]
      simp [hmin]
    · by_cases hjump : gs.minStartTime > gs.virtualTime
      · have ht : dequeueTime gs = gs.minStartTime := by simp [dequeueTime, hfind, hmin, hjump]
        have hsame : findEligibleMinBitfield (gs.at gs.minStartTime) gs.minStartTime =
            findEligibleMinBitfield gs gs.minStartTime := rfl
        rw [ht]
        simp only [hmin, hjump, ne_eq, not_false_eq_true, if_true, hsame]
        cases findEligibleMinBitfield gs gs.minStartTime <;> rfl
      · have ht : dequeueTime gs = gs.virtualTime := by simp [dequeueTime, hfind, hjump]
        rw [ht, hfind]
        simp [hmin, hjump, hfind]

/-- The scheduler after `s` was taken out. -/
def dequeued (gs : GroupScheduler α) (s : SessionState α) : GroupScheduler α :=
  { removed (gs.retimed (dequeueTime gs) s.finishTime) s with
    activeSessionCount := subU32 gs.activeSessionCount 1 }

/-- All outcomes of `group_scheduler_dequeue`. -/
theorem dequeue_cases (h : CalendarInv gs) :
    (gs.activeSessionCount = 0 ∧ groupSchedulerDequeue gs = (none, gs)) ∨
    (gs.activeSessionCount ≠ 0 ∧ findEligibleMinBitfield gs (dequeueTime gs) = none ∧
      groupSchedulerDequeue gs = (none, gs.at (dequeueTime gs))) ∨
    (gs.activeSessionCount ≠ 0 ∧ ∃ s, findEligibleMinBitfield gs (dequeueTime gs) = some s ∧
      groupSchedulerDequeue gs = (some s, dequeued gs s)) := by
  unfold groupSchedulerDequeue
  by_cases hcount : gs.activeSessionCount = 0
  · exact .inl ⟨hcount, by rw [if_pos hcount]⟩
  rw [if_neg hcount, calendarFindMinSession_eq hcount]
  cases hfind : findEligibleMinBitfield gs (dequeueTime gs) with
  | none => exact .inr (.inl ⟨hcount, rfl, rfl⟩)
  | some s =>
    refine .inr (.inr ⟨hcount, s, rfl, ?_⟩)
    have hb := h.lt_numBins (h.mem_queued.mp (findEligible_some h hfind).1)
    have hrem : calendarRemoveSession
        (gs.retimed (dequeueTime gs) s.finishTime) s =
        (.success, removed (gs.retimed (dequeueTime gs) s.finishTime) s) :=
      Prod.ext (calendarRemoveSession_status hb) rfl
    simp only [hrem, removed_activeSessionCount]
    rfl

/-- What dequeue returns is what the search finds. -/
theorem dequeue_choice (h : CalendarInv gs) : (groupSchedulerDequeue gs).1 =
    if gs.activeSessionCount = 0 then none else findEligibleMinBitfield gs (dequeueTime gs) := by
  rcases dequeue_cases h with ⟨hzero, heq⟩ | ⟨hne, hnone, heq⟩ | ⟨hne, q, hsome, heq⟩
  · rw [heq, if_pos hzero]
  · rw [heq, if_neg hne, hnone]
  · rw [heq, if_neg hne, hsome]

/-- The choice depends on nothing but the queue and the clock. -/
theorem dequeue_of_queueView {gs' : GroupScheduler α} (h : CalendarInv gs)
    (hq : gs'.queueView = gs.queueView) :
    (groupSchedulerDequeue gs').1 = (groupSchedulerDequeue gs).1 := by
  rw [dequeue_choice h, dequeue_choice (h.of_queueView hq)]
  simp only [GroupScheduler.queueView, GroupScheduler.geometry, QueueView.mk.injEq,
    Geometry.mk.injEq] at hq
  obtain ⟨hbits, hheads, hgroups, ⟨-, -, hbins, -, -⟩, hclock, hcount, -, hcache, -⟩ := hq
  have hfind : ∀ t, findEligibleMinBitfield gs' t = findEligibleMinBitfield gs t := by
    intro t
    unfold findEligibleMinBitfield searchedBins eligibleInBin
    rw [hbits, hheads, hgroups, hbins]
  unfold dequeueTime
  rw [hcount, hclock, hcache, hfind, hfind]

@[simp] theorem dequeued_ledger (s : SessionState α) : (dequeued gs s).ledger = gs.ledger :=
  @removed_ledger _ (gs.retimed (dequeueTime gs) s.finishTime) s

@[simp] theorem dequeued_geometry (s : SessionState α) : (dequeued gs s).geometry = gs.geometry :=
  @removed_geometry _ (gs.retimed (dequeueTime gs) s.finishTime) s

@[simp] theorem dequeued_virtualTime (s : SessionState α) :
    (dequeued gs s).virtualTime = dequeueTime gs :=
  @removed_virtualTime _ (gs.retimed (dequeueTime gs) s.finishTime) s

@[simp] theorem dequeued_activeSessionCount (s : SessionState α) :
    (dequeued gs s).activeSessionCount = subU32 gs.activeSessionCount 1 := rfl

/-- The invariant says nothing about the clocks. -/
theorem CalendarInv.retimed (h : CalendarInv gs) (t f : ℕ) :
    CalendarInv (gs.retimed t f) := h.congr rfl rfl rfl rfl

section Dequeued
variable {s : SessionState α} (h : CalendarInv gs) (hs : s ∈ gs.queued)
include h hs

theorem dequeued_queued : gs.queued = s ::ₘ (dequeued gs s).queued :=
  removed_queued (h.retimed (dequeueTime gs) s.finishTime) hs

theorem CalendarInv.dequeue : CalendarInv (dequeued gs s) :=
  ((h.retimed (dequeueTime gs) s.finishTime).remove hs).congr rfl rfl rfl rfl

theorem dequeued_cache (hcache : gs.minStartTime ≤ uint64Max) :
    (dequeued gs s).minStartTime ≤ uint64Max := by
  have hms : (dequeued gs s).minStartTime = _ :=
    @removed_minStartTime _ (gs.retimed (dequeueTime gs) s.finishTime) s
      (h.lt_numBins (h.mem_queued.mp hs))
  rw [hms]
  split_ifs
  · exact rescan_le _
  · exact hcache

/-- The departure of a session with the cached start time brings a rescan; any other
leaves the cache as it is. -/
theorem dequeued_minStartTime_cases (hn : gs.numBins ≤ 32768) :
    (s.startTime = gs.minStartTime ∧
      IsMinStart (dequeued gs s).queued (dequeued gs s).minStartTime ∧
      (dequeued gs s).minStartTime ≤ uint64Max) ∨
    (s.startTime ≠ gs.minStartTime ∧ (dequeued gs s).minStartTime = gs.minStartTime) :=
  removed_minStartTime_cases (h.retimed (dequeueTime gs) s.finishTime) hn hs

theorem CacheAttained.dequeued (hn : gs.numBins ≤ 32768) (hatt : CacheAttained gs) :
    CacheAttained (dequeued gs s) :=
  CacheAttained.removed (h.retimed (dequeueTime gs) s.finishTime) hn hs hatt

theorem dequeued_isMinStart (hn : gs.numBins ≤ 32768) (hmin : IsMinStart gs.queued gs.minStartTime) :
    IsMinStart (dequeued gs s).queued (dequeued gs s).minStartTime :=
  removed_isMinStart (h.retimed (dequeueTime gs) s.finishTime) hn hs hmin

end Dequeued

end Hwfq
