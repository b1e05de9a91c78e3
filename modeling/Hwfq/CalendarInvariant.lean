import Mathlib.Algebra.Order.BigOperators.Group.Finset
import Mathlib.Data.List.TakeWhile
import Hwfq.Bins
import Hwfq.GroupCalendar

/-!
# What the calendar queue keeps true

The bins hold every queued session exactly once, each in its own bin and each bin
in order of finish time; a bit of either bitfield is set exactly where there is
something below it. Insertion adds one session and removal takes one away. The
search through the bitfields agrees with a search of the whole queue as soon as
the bins fit under the 32 group words.
-/
namespace Hwfq
open SetBits MinSearch Bins

variable {α : Type*} {gs : GroupScheduler α} {s : SessionState α}

/-- Everything queued, with multiplicity. -/
def GroupScheduler.queued (gs : GroupScheduler α) : Multiset (SessionState α) :=
  contents gs.numBins gs.binHeads

/-- The fields that no calendar operation writes. -/
structure Ledger where
  entries : ChunkedEntries
  maxEntries : ℕ
  configuredEntries : List ℕ
  allocatedRateCapacity : ℕ
  totalWeight : ℕ
  totalCapacity : ℕ

structure Geometry where
  numGroups : ℕ
  binsPerGroup : ℕ
  numBins : ℕ
  binBitfieldSize : ℕ
  baseInterval : ℕ

def GroupScheduler.ledger (gs : GroupScheduler α) : Ledger :=
  ⟨gs.entries, gs.maxEntries, gs.configuredEntries, gs.allocatedRateCapacity, gs.totalWeight,
    gs.totalCapacity⟩

def GroupScheduler.geometry (gs : GroupScheduler α) : Geometry :=
  ⟨gs.numGroups, gs.binsPerGroup, gs.numBins, gs.binBitfieldSize, gs.baseInterval⟩

/-- The representation invariant of the bins and the bitfields. -/
structure CalendarInv (gs : GroupScheduler α) : Prop where
  outside : ∀ b, gs.numBins ≤ b → gs.binHeads b = []
  ownBin : ∀ b, ∀ s ∈ gs.binHeads b, s.binIndex = b
  ordered : ∀ b, Ordered sessionLess (gs.binHeads b)
  addrs : (gs.queued.map (·.addr)).Nodup
  binBits : ∀ b, (gs.binBitfield (b / 32)).getLsbD (b % 32) = true ↔ gs.binHeads b ≠ []
  groupBits : ∀ w < 1024,
    (gs.groupBitfield (w / 32)).getLsbD (w % 32) = true ↔ gs.binBitfield w ≠ 0#32
  words : gs.numBins ≤ gs.binBitfieldSize * 32

theorem CalendarInv.lt_numBins (h : CalendarInv gs) {b : ℕ} (hs : s ∈ gs.binHeads b) :
    b < gs.numBins := by
  by_contra hb
  rw [h.outside b (Nat.le_of_not_lt hb)] at hs
  cases hs

theorem CalendarInv.mem_queued (h : CalendarInv gs) :
    s ∈ gs.queued ↔ s ∈ gs.binHeads s.binIndex := by
  rw [GroupScheduler.queued, mem_contents]
  constructor
  · rintro ⟨b, _, hs⟩
    rwa [h.ownBin b s hs]
  · exact fun hs => ⟨_, h.lt_numBins hs, hs⟩

theorem CalendarInv.bin_mem (h : CalendarInv gs) {b : ℕ} (hs : s ∈ gs.binHeads b) :
    s ∈ gs.queued := by
  rw [h.mem_queued, h.ownBin b s hs]
  exact hs

theorem CalendarInv.bin_le_queued (h : CalendarInv gs) (b : ℕ) :
    (gs.binHeads b : Multiset (SessionState α)) ≤ gs.queued := by
  by_cases hb : b < gs.numBins
  · exact Finset.single_le_sum (f := fun c => (gs.binHeads c : Multiset (SessionState α)))
      (fun _ _ => Multiset.zero_le _) (Finset.mem_range.mpr hb)
  · rw [h.outside b (Nat.le_of_not_lt hb)]
    exact Multiset.zero_le _

theorem CalendarInv.bin_addrs (h : CalendarInv gs) (b : ℕ) :
    ((gs.binHeads b).map (·.addr)).Nodup := by
  have hle := Multiset.map_le_map (f := (·.addr)) (h.bin_le_queued b)
  simpa using Multiset.nodup_of_le hle h.addrs

/-! ## The order of a bin -/

theorem sessionLess_iff {a b : SessionState α} : sessionLess a b = true ↔
    a.finishTime < b.finishTime ∨ a.finishTime = b.finishTime ∧ a.startTime < b.startTime := by
  unfold sessionLess
  split_ifs with h
  · simp [h]
  · simp only [ne_eq, not_not] at h
    simp [h]

theorem sessionLess_false {a b : SessionState α} : sessionLess a b = false ↔
    b.finishTime < a.finishTime ∨ a.finishTime = b.finishTime ∧ b.startTime ≤ a.startTime := by
  rw [← Bool.not_eq_true, sessionLess_iff]
  omega

theorem sessionLess_asymm (a b : SessionState α) (h : sessionLess a b = true) :
    sessionLess b a = false := by
  rw [sessionLess_iff] at h
  rw [sessionLess_false]
  omega

theorem sessionLess_trans (a b c : SessionState α) (hab : sessionLess b a = false)
    (hbc : sessionLess c b = false) : sessionLess c a = false := by
  rw [sessionLess_false] at *
  omega

/-! ## The empty calendar -/

theorem CalendarInv.of_empty (hbins : ∀ b, gs.binHeads b = []) (hwords : ∀ w, gs.binBitfield w = 0#32)
    (hgroups : ∀ w, gs.groupBitfield w = 0#32) (hsize : gs.numBins ≤ gs.binBitfieldSize * 32) :
    CalendarInv gs where
  outside b _ := hbins b
  ownBin b s hs := by simp [hbins] at hs
  ordered b := by
    rw [hbins b]
    exact List.Pairwise.nil
  addrs := by
    rw [GroupScheduler.queued, contents_eq_zero fun b _ => hbins b]
    exact Multiset.nodup_zero
  binBits b := by simp [hbins, hwords]
  groupBits w _ := by simp [hgroups, hwords]
  words := hsize

/-! ## Insertion -/

theorem calendarInsertSession_fail (h : gs.numBins ≤ sessionBin gs s) :
    calendarInsertSession gs s = (.internal, gs) := by
  rw [calendarInsertSession, if_pos h]

/-- The scheduler after an accepted insertion. -/
abbrev inserted (gs : GroupScheduler α) (s : SessionState α) : GroupScheduler α :=
  (calendarInsertSession gs s).2

theorem calendarInsertSession_status (h : sessionBin gs s < gs.numBins) :
    (calendarInsertSession gs s).1 = .success := by
  rw [calendarInsertSession, if_neg (Nat.not_le.mpr h)]

theorem calendarInsertSession_cases (gs : GroupScheduler α) (s : SessionState α) :
    (sessionBin gs s < gs.numBins ∧ (calendarInsertSession gs s).1 = .success) ∨
    (gs.numBins ≤ sessionBin gs s ∧ calendarInsertSession gs s = (.internal, gs)) := by
  rcases Nat.lt_or_ge (sessionBin gs s) gs.numBins with h | h
  · exact .inl ⟨h, calendarInsertSession_status h⟩
  · exact .inr ⟨h, calendarInsertSession_fail h⟩

@[simp] theorem inserted_ledger : (inserted gs s).ledger = gs.ledger := by
  dsimp only [inserted, calendarInsertSession]
  split_ifs <;> rfl

@[simp] theorem inserted_geometry : (inserted gs s).geometry = gs.geometry := by
  dsimp only [inserted, calendarInsertSession]
  split_ifs <;> rfl

@[simp] theorem inserted_virtualTime : (inserted gs s).virtualTime = gs.virtualTime := by
  dsimp only [inserted, calendarInsertSession]
  split_ifs <;> rfl

@[simp] theorem inserted_activeSessionCount :
    (inserted gs s).activeSessionCount = gs.activeSessionCount := by
  dsimp only [inserted, calendarInsertSession]
  split_ifs <;> rfl

section Inserted
variable (hbin : sessionBin gs s < gs.numBins)
include hbin

theorem inserted_binHeads : (inserted gs s).binHeads =
    binListInsert gs (sessionBin gs s) { s with binIndex := sessionBin gs s } := by
  rw [inserted, calendarInsertSession, if_neg (Nat.not_le.mpr hbin)]

theorem inserted_binBitfield :
    (inserted gs s).binBitfield = setBinBit gs.binBitfield (sessionBin gs s) := by
  rw [inserted, calendarInsertSession, if_neg (Nat.not_le.mpr hbin)]

theorem inserted_groupBitfield : (inserted gs s).groupBitfield =
    if sessionBin gs s / 32 / 32 < 32 then
      Function.update gs.groupBitfield (sessionBin gs s / 32 / 32)
        (set (gs.groupBitfield (sessionBin gs s / 32 / 32)) (sessionBin gs s / 32 % 32))
    else gs.groupBitfield := by
  rw [inserted, calendarInsertSession, if_neg (Nat.not_le.mpr hbin)]

theorem inserted_minStartTime : (inserted gs s).minStartTime = min s.startTime gs.minStartTime := by
  rw [inserted, calendarInsertSession, if_neg (Nat.not_le.mpr hbin)]
  exact keepMin_eq_min id _ _

theorem inserted_queued :
    (inserted gs s).queued = { s with binIndex := sessionBin gs s } ::ₘ gs.queued := by
  have hn : (inserted gs s).numBins = gs.numBins := congrArg Geometry.numBins inserted_geometry
  rw [GroupScheduler.queued, hn, inserted_binHeads hbin]
  exact contents_insert hbin (insertSorted_perm _ _ _)

theorem inserted_binHeads_ne_nil (b : ℕ) : (inserted gs s).binHeads b ≠ [] ↔
    b = sessionBin gs s ∨ gs.binHeads b ≠ [] := by
  rw [inserted_binHeads hbin, binListInsert]
  by_cases hb : b = sessionBin gs s
  · subst hb
    simp [insertSorted_ne_nil]
  · simp [hb]

theorem inserted_binBit (b : ℕ) :
    ((inserted gs s).binBitfield (b / 32)).getLsbD (b % 32) = true ↔
      b = sessionBin gs s ∨ (gs.binBitfield (b / 32)).getLsbD (b % 32) = true := by
  have hbit : b % 32 < 32 := Nat.mod_lt _ (by decide)
  rw [inserted_binBitfield hbin, setBinBit]
  by_cases hw : b / 32 = sessionBin gs s / 32
  · rw [hw, Function.update_self, getLsbD_set _ hbit]
    simp only [Bool.or_eq_true, decide_eq_true_eq]
    have heq : b % 32 = sessionBin gs s % 32 ↔ b = sessionBin gs s := by omega
    rw [heq, or_comm]
  · have hne : b ≠ sessionBin gs s := fun h => hw (by rw [h])
    simp [Function.update_of_ne hw, hne]

theorem inserted_word_ne_zero (w : ℕ) : (inserted gs s).binBitfield w ≠ 0#32 ↔
    w = sessionBin gs s / 32 ∨ gs.binBitfield w ≠ 0#32 := by
  rw [inserted_binBitfield hbin, setBinBit]
  by_cases hw : w = sessionBin gs s / 32
  · subst hw
    rw [Function.update_self, ne_zero_iff]
    refine iff_of_true ⟨sessionBin gs s % 32, Nat.mod_lt _ (by decide), ?_⟩ (.inl rfl)
    simp [getLsbD_set _ (Nat.mod_lt (sessionBin gs s) (by decide : 32 > 0))]
  · simp [hw]

theorem inserted_groupBit {w : ℕ} (hw : w < 1024) :
    ((inserted gs s).groupBitfield (w / 32)).getLsbD (w % 32) = true ↔
      w = sessionBin gs s / 32 ∨ (gs.groupBitfield (w / 32)).getLsbD (w % 32) = true := by
  have hbit : w % 32 < 32 := Nat.mod_lt _ (by decide)
  rw [inserted_groupBitfield hbin]
  split_ifs with hg
  · by_cases hgw : w / 32 = sessionBin gs s / 32 / 32
    · rw [hgw, Function.update_self, getLsbD_set _ hbit]
      simp only [Bool.or_eq_true, decide_eq_true_eq]
      have heq : w % 32 = sessionBin gs s / 32 % 32 ↔ w = sessionBin gs s / 32 := by omega
      rw [heq, or_comm]
    · have hne : w ≠ sessionBin gs s / 32 := fun h => hgw (by rw [h])
      simp [Function.update_of_ne hgw, hne]
  · have hne : w ≠ sessionBin gs s / 32 := by omega
    simp [hne]

theorem CalendarInv.insert (h : CalendarInv gs) (hfresh : s.addr ∉ gs.queued.map (·.addr)) :
    CalendarInv (inserted gs s) := by
  have hgeo : (inserted gs s).geometry = gs.geometry := inserted_geometry
  have hn : (inserted gs s).numBins = gs.numBins := congrArg Geometry.numBins hgeo
  have hsize : (inserted gs s).binBitfieldSize = gs.binBitfieldSize :=
    congrArg Geometry.binBitfieldSize hgeo
  refine ⟨fun b hb => ?_, fun b t ht => ?_, fun b => ?_, ?_, fun b => ?_, fun w hw => ?_, ?_⟩
  · rw [hn] at hb
    rw [inserted_binHeads hbin, binListInsert, Function.update_of_ne (by omega)]
    exact h.outside b hb
  · rw [inserted_binHeads hbin, binListInsert] at ht
    by_cases hb : b = sessionBin gs s
    · subst hb
      rw [Function.update_self] at ht
      rcases mem_insertSorted.mp ht with rfl | ht
      · rfl
      · exact h.ownBin _ t ht
    · rw [Function.update_of_ne hb] at ht
      exact h.ownBin b t ht
  · rw [inserted_binHeads hbin, binListInsert]
    by_cases hb : b = sessionBin gs s
    · subst hb
      rw [Function.update_self]
      exact insertSorted_ordered sessionLess_asymm sessionLess_trans (h.ordered _)
    · rw [Function.update_of_ne hb]
      exact h.ordered b
  · rw [inserted_queued hbin, Multiset.map_cons, Multiset.nodup_cons]
    exact ⟨hfresh, h.addrs⟩
  · rw [inserted_binBit hbin, inserted_binHeads_ne_nil hbin, h.binBits]
  · rw [inserted_groupBit hbin hw, inserted_word_ne_zero hbin, h.groupBits w hw]
  · rw [hn, hsize]
    exact h.words

end Inserted

/-! ## Removal -/

@[simp] theorem unlinkSession_ledger : (unlinkSession gs s).ledger = gs.ledger := by
  dsimp only [unlinkSession]
  split_ifs <;> rfl

@[simp] theorem unlinkSession_geometry : (unlinkSession gs s).geometry = gs.geometry := by
  dsimp only [unlinkSession]
  split_ifs <;> rfl

@[simp] theorem unlinkSession_virtualTime : (unlinkSession gs s).virtualTime = gs.virtualTime := by
  dsimp only [unlinkSession]
  split_ifs <;> rfl

@[simp] theorem unlinkSession_activeSessionCount :
    (unlinkSession gs s).activeSessionCount = gs.activeSessionCount := by
  dsimp only [unlinkSession]
  split_ifs <;> rfl

@[simp] theorem unlinkSession_minStartTime :
    (unlinkSession gs s).minStartTime = gs.minStartTime := by
  dsimp only [unlinkSession]
  split_ifs <;> rfl

theorem unlinkSession_binHeads :
    (unlinkSession gs s).binHeads = binListRemove gs s.binIndex s := by
  dsimp only [unlinkSession]
  split_ifs <;> rfl

theorem unlinkSession_binBitfield : (unlinkSession gs s).binBitfield =
    if binListRemove gs s.binIndex s s.binIndex = [] then clearBinBit gs.binBitfield s.binIndex
    else gs.binBitfield := by
  dsimp only [unlinkSession]
  split_ifs <;> rfl

theorem unlinkSession_groupBitfield : (unlinkSession gs s).groupBitfield =
    if binListRemove gs s.binIndex s s.binIndex = [] ∧ s.binIndex / 32 < gs.binBitfieldSize ∧
        clearBinBit gs.binBitfield s.binIndex (s.binIndex / 32) = 0#32 ∧
        s.binIndex / 32 / 32 < 32 then
      Function.update gs.groupBitfield (s.binIndex / 32 / 32)
        (clear (gs.groupBitfield (s.binIndex / 32 / 32)) (s.binIndex / 32 % 32))
    else gs.groupBitfield := by
  dsimp only [unlinkSession]
  split_ifs <;> first | rfl | tauto

theorem unlinkSession_binBit (b : ℕ) :
    ((unlinkSession gs s).binBitfield (b / 32)).getLsbD (b % 32) = true ↔
      (gs.binBitfield (b / 32)).getLsbD (b % 32) = true ∧
        (b = s.binIndex → binListRemove gs s.binIndex s s.binIndex ≠ []) := by
  have hbit : b % 32 < 32 := Nat.mod_lt _ (by decide)
  rw [unlinkSession_binBitfield]
  split_ifs with hnil
  · rw [clearBinBit]
    by_cases hw : b / 32 = s.binIndex / 32
    · rw [hw, Function.update_self, getLsbD_clear _ hbit]
      have heq : b % 32 = s.binIndex % 32 ↔ b = s.binIndex := by omega
      simp [heq, hnil]
    · have hne : b ≠ s.binIndex := fun hb => hw (by rw [hb])
      simp [Function.update_of_ne hw, hne]
  · simp [hnil]

section Removed
variable (h : CalendarInv gs) (hs : s ∈ gs.queued)
include h hs

theorem binListRemove_perm :
    (gs.binHeads s.binIndex).Perm (s :: binListRemove gs s.binIndex s s.binIndex) := by
  rw [binListRemove, Function.update_self]
  exact eraseP_key_perm (f := SessionState.addr) (h.bin_addrs _) (h.mem_queued.mp hs)

theorem unlinkSession_queued : gs.queued = s ::ₘ (unlinkSession gs s).queued := by
  have hn : (unlinkSession gs s).numBins = gs.numBins :=
    congrArg Geometry.numBins unlinkSession_geometry
  have hperm := binListRemove_perm h hs
  rw [binListRemove, Function.update_self] at hperm
  rw [GroupScheduler.queued, GroupScheduler.queued, hn, unlinkSession_binHeads]
  exact contents_remove (h.lt_numBins (h.mem_queued.mp hs)) hperm

theorem unlinkSession_binHeads_ne_nil (b : ℕ) : (unlinkSession gs s).binHeads b ≠ [] ↔
    gs.binHeads b ≠ [] ∧
      (b = s.binIndex → binListRemove gs s.binIndex s s.binIndex ≠ []) := by
  rw [unlinkSession_binHeads]
  by_cases hb : b = s.binIndex
  · subst hb
    have hne : gs.binHeads s.binIndex ≠ [] := List.ne_nil_of_mem (h.mem_queued.mp hs)
    simp [hne]
  · simp [binListRemove, hb]

/-- A word of the bin bitfield becomes zero only where the cleared bit was its last. -/
theorem unlinkSession_word (w : ℕ) : (unlinkSession gs s).binBitfield w ≠ 0#32 ↔
    gs.binBitfield w ≠ 0#32 ∧
      (w = s.binIndex / 32 → binListRemove gs s.binIndex s s.binIndex = [] →
        clearBinBit gs.binBitfield s.binIndex (s.binIndex / 32) ≠ 0#32) := by
  have hset : gs.binBitfield (s.binIndex / 32) ≠ 0#32 := by
    refine (ne_zero_iff _).mpr ⟨s.binIndex % 32, Nat.mod_lt _ (by decide), ?_⟩
    exact (h.binBits _).mpr (List.ne_nil_of_mem (h.mem_queued.mp hs))
  rw [unlinkSession_binBitfield]
  split_ifs with hnil
  · by_cases hw : w = s.binIndex / 32
    · subst hw
      simp [hset, hnil]
    · simp [clearBinBit, hw]
  · by_cases hw : w = s.binIndex / 32
    · subst hw
      simp [hnil]
    · simp [hw]

theorem unlinkSession_groupBit {w : ℕ} (hw : w < 1024) :
    ((unlinkSession gs s).groupBitfield (w / 32)).getLsbD (w % 32) = true ↔
      (unlinkSession gs s).binBitfield w ≠ 0#32 := by
  have hbit : w % 32 < 32 := Nat.mod_lt _ (by decide)
  have hsize : s.binIndex / 32 < gs.binBitfieldSize := by
    have := h.lt_numBins (h.mem_queued.mp hs)
    have := h.words
    omega
  rw [unlinkSession_word h hs, unlinkSession_groupBitfield, ← h.groupBits w hw]
  by_cases hws : w = s.binIndex / 32
  · have hg : s.binIndex / 32 / 32 < 32 := by omega
    subst hws
    by_cases hclear : binListRemove gs s.binIndex s s.binIndex = [] ∧
        clearBinBit gs.binBitfield s.binIndex (s.binIndex / 32) = 0#32
    · rw [if_pos ⟨hclear.1, hsize, hclear.2, hg⟩, Function.update_self, getLsbD_clear _ hbit]
      simp [hclear]
    · rw [if_neg fun hc => hclear ⟨hc.1, hc.2.2.1⟩]
      tauto
  · split_ifs with hc
    · by_cases hgw : w / 32 = s.binIndex / 32 / 32
      · rw [hgw, Function.update_self, getLsbD_clear _ hbit]
        have hne : w % 32 ≠ s.binIndex / 32 % 32 := by omega
        simp [hne, hws]
      · simp [Function.update_of_ne hgw, hws]
    · simp [hws]

theorem CalendarInv.unlink : CalendarInv (unlinkSession gs s) := by
  have hn : (unlinkSession gs s).numBins = gs.numBins :=
    congrArg Geometry.numBins unlinkSession_geometry
  have hsize : (unlinkSession gs s).binBitfieldSize = gs.binBitfieldSize :=
    congrArg Geometry.binBitfieldSize unlinkSession_geometry
  have hsub : ∀ b, ((unlinkSession gs s).binHeads b).Sublist (gs.binHeads b) := by
    intro b
    rw [unlinkSession_binHeads, binListRemove]
    by_cases hb : b = s.binIndex
    · subst hb
      rw [Function.update_self]
      exact List.eraseP_sublist
    · rw [Function.update_of_ne hb]
  refine ⟨fun b hb => ?_, fun b t ht => h.ownBin b t ((hsub b).subset ht),
    fun b => (h.ordered b).sublist (hsub b), ?_, fun b => ?_,
    fun w hw => unlinkSession_groupBit h hs hw, ?_⟩
  · rw [hn] at hb
    exact List.sublist_nil.mp (h.outside b hb ▸ hsub b)
  · have haddrs := h.addrs
    rw [unlinkSession_queued h hs, Multiset.map_cons, Multiset.nodup_cons] at haddrs
    exact haddrs.2
  · rw [unlinkSession_binBit, unlinkSession_binHeads_ne_nil h hs, h.binBits]
  · rw [hn, hsize]
    exact h.words

end Removed

/-- The scheduler after a removal. -/
abbrev removed (gs : GroupScheduler α) (s : SessionState α) : GroupScheduler α :=
  (calendarRemoveSession gs s).2

theorem calendarRemoveSession_status (h : s.binIndex < gs.numBins) :
    (calendarRemoveSession gs s).1 = .success := by
  rw [calendarRemoveSession, if_neg (Nat.not_le.mpr h)]

@[simp] theorem removed_ledger : (removed gs s).ledger = gs.ledger := by
  dsimp only [removed, calendarRemoveSession]
  split_ifs <;> first | rfl | exact unlinkSession_ledger

@[simp] theorem removed_geometry : (removed gs s).geometry = gs.geometry := by
  dsimp only [removed, calendarRemoveSession]
  split_ifs <;> first | rfl | exact unlinkSession_geometry

@[simp] theorem removed_virtualTime : (removed gs s).virtualTime = gs.virtualTime := by
  dsimp only [removed, calendarRemoveSession]
  split_ifs <;> first | rfl | exact unlinkSession_virtualTime

@[simp] theorem removed_activeSessionCount :
    (removed gs s).activeSessionCount = gs.activeSessionCount := by
  dsimp only [removed, calendarRemoveSession]
  split_ifs <;> first | rfl | exact unlinkSession_activeSessionCount

/-- The calendar of a scheduler: the bins and the two bitfields. -/
theorem removed_calendar (hb : s.binIndex < gs.numBins) :
    (removed gs s).binHeads = (unlinkSession gs s).binHeads ∧
      (removed gs s).binBitfield = (unlinkSession gs s).binBitfield ∧
      (removed gs s).groupBitfield = (unlinkSession gs s).groupBitfield := by
  dsimp only [removed, calendarRemoveSession]
  rw [if_neg (Nat.not_le.mpr hb)]
  split_ifs <;> exact ⟨rfl, rfl, rfl⟩

/-- The invariant only reads the bins, the bitfields and the geometry. -/
theorem CalendarInv.congr {gs' : GroupScheduler α} (h : CalendarInv gs)
    (hbins : gs'.binHeads = gs.binHeads) (hbits : gs'.binBitfield = gs.binBitfield)
    (hgroups : gs'.groupBitfield = gs.groupBitfield) (hgeo : gs'.geometry = gs.geometry) :
    CalendarInv gs' := by
  have hn : gs'.numBins = gs.numBins := congrArg Geometry.numBins hgeo
  have hsize : gs'.binBitfieldSize = gs.binBitfieldSize := congrArg Geometry.binBitfieldSize hgeo
  obtain ⟨houtside, hown, hordered, haddrs, hbin, hgroup, hwords⟩ := h
  constructor
  · rwa [hbins, hn]
  · rwa [hbins]
  · rwa [hbins]
  · rwa [GroupScheduler.queued, hbins, hn]
  · rwa [hbins, hbits]
  · rwa [hbits, hgroups]
  · rwa [hn, hsize]

theorem queued_congr {gs' : GroupScheduler α} (hbins : gs'.binHeads = gs.binHeads)
    (hgeo : gs'.geometry = gs.geometry) : gs'.queued = gs.queued := by
  have hn : gs'.numBins = gs.numBins := congrArg Geometry.numBins hgeo
  rw [GroupScheduler.queued, GroupScheduler.queued, hbins, hn]

theorem removed_queued (h : CalendarInv gs) (hs : s ∈ gs.queued) :
    gs.queued = s ::ₘ (removed gs s).queued := by
  have hb := h.lt_numBins (h.mem_queued.mp hs)
  rw [queued_congr (removed_calendar hb).1 (removed_geometry.trans unlinkSession_geometry.symm)]
  exact unlinkSession_queued h hs

theorem CalendarInv.remove (h : CalendarInv gs) (hs : s ∈ gs.queued) :
    CalendarInv (removed gs s) := by
  have hcal := removed_calendar (h.lt_numBins (h.mem_queued.mp hs))
  exact (h.unlink hs).congr hcal.1 hcal.2.1 hcal.2.2
    (removed_geometry.trans unlinkSession_geometry.symm)

theorem removed_minStartTime (hb : s.binIndex < gs.numBins) :
    (removed gs s).minStartTime =
      if s.startTime = gs.minStartTime then rescanMinStartTime (unlinkSession gs s)
      else gs.minStartTime := by
  dsimp only [removed, calendarRemoveSession]
  rw [if_neg (Nat.not_le.mpr hb)]
  split_ifs <;> simp_all [rescanMinStartTime]

end Hwfq
