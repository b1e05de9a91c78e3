import Hwfq.SessionRemoval

/-!
# The order of sessions with equal tags

A bin list is sorted by finish time and then by start time. The walk of an insertion stops at
the first session that is not less, so a new session goes in front of those with the same
tags, and it is served before them.
-/
namespace Hwfq
open GuardedRuns MinSearch

/-! ## Positions in a list -/

section Positions
variable {β : Type*} {l : List β} {a b : β}

/-- `a` stands somewhere before `b`. -/
def Before (l : List β) (a b : β) : Prop := [a, b].Sublist l

theorem before_cons {c : β} : Before (c :: l) a b ↔ Before l a b ∨ a = c ∧ b ∈ l := by
  unfold Before
  rw [List.sublist_cons_iff]
  simp [eq_comm]

theorem Before.mem (h : Before l a b) : a ∈ l ∧ b ∈ l :=
  ⟨h.subset (by simp), h.subset (by simp)⟩

theorem before_or (ha : a ∈ l) (hb : b ∈ l) (hne : a ≠ b) : Before l a b ∨ Before l b a := by
  induction l with
  | nil => cases ha
  | cons c l ih =>
    rw [before_cons, before_cons]
    rcases List.mem_cons.mp ha with rfl | hal
    · exact .inl (.inr ⟨rfl, (List.mem_cons.mp hb).resolve_left (Ne.symm hne)⟩)
    · rcases List.mem_cons.mp hb with rfl | hbl
      · exact .inr (.inr ⟨rfl, hal⟩)
      · exact (ih hal hbl).imp .inl .inl

theorem Before.asymm (hl : l.Nodup) (h : Before l a b) : ¬ Before l b a := by
  induction l with
  | nil => cases h
  | cons c l ih =>
    obtain ⟨hc, hl⟩ := List.nodup_cons.mp hl
    rw [before_cons] at h ⊢
    rintro (hba | ⟨rfl, ha⟩)
    · rcases h with hab | ⟨rfl, -⟩
      · exact ih hl hab hba
      · exact hc hba.mem.2
    · rcases h with hab | ⟨rfl, hb⟩
      · exact hc hab.mem.2
      · exact hc hb

/-- In an increasing list the smaller number stands first. -/
theorem before_iff_lt {l : List ℕ} {a b : ℕ} (hl : l.Pairwise (· < ·)) (ha : a ∈ l) (hb : b ∈ l) :
    Before l a b ↔ a < b := by
  have hlt : ∀ {a b}, Before l a b → a < b := fun h => List.pairwise_iff_forall_sublist.mp hl h
  constructor
  · exact hlt
  · intro hab
    rcases before_or ha hb hab.ne with h | h
    · exact h
    · exact absurd (hlt h) hab.not_gt

end Positions

/-! ## The machine with its history -/

variable {α : Type*} {gs : GroupScheduler α} {mem : Allocator} {s t : SessionState α}

/-- The session that a call puts into the queue. -/
def GroupState.admits (st : GroupState α) : CalendarCall α → List Addr
  | .group (.enqueue id w ud cf) =>
      (groupSchedulerEnqueue st.mem st.gs id.toNat w.toNat ud cf).session.toList
  | _ => []

/-- A group scheduler with all the sessions it ever queued, in the order of insertion. -/
structure RecordedState (α : Type*) where
  group : GroupState α
  history : List Addr

def RecordedState.step (st : RecordedState α) (c : CalendarCall α) : RecordedState α where
  group := st.group.calendarStep c
  history := st.history ++ st.group.admits c

structure SameTags (s t : SessionState α) : Prop where
  finish : s.finishTime = t.finishTime
  start : s.startTime = t.startTime

/-- Of two sessions of a bin with equal tags the one inserted earlier stands first, and the other
is not returned by a dequeue. -/
def TiesFifo (st : RecordedState α) : Prop :=
  ∀ b, ∀ s ∈ st.group.gs.binHeads b, ∀ t ∈ st.group.gs.binHeads b, SameTags s t →
    Before st.history s.addr t.addr →
    Before (st.group.gs.binHeads b) s t ∧ (groupSchedulerDequeue st.group.gs).1 ≠ some t

/-- The calls that leave ties in the order of insertion. Only enqueue and a rebase can make
two tags equal. -/
def KeepsTies (st : RecordedState α) : CalendarCall α → Prop
  | .group (.enqueue id w _ _) => st.group.mem.ok 0 = true → ∀ entry,
      Admissible st.group.gs id.toNat w.toNat entry →
      ∀ s ∈ st.group.gs.binHeads (newSessionBin st.group.gs entry w.toNat),
        ¬ SameTags s (newSession st.group.gs entry 0 id.toNat w.toNat none false)
  | .group (.updateVirtualTime w) => ∀ b s t, Before (st.group.gs.binHeads b) s t →
      SameTags (s.rebase (updateOffset st.group.gs w.toNat))
        (t.rebase (updateOffset st.group.gs w.toNat)) →
      Before st.history s.addr t.addr
  | _ => True

/-- The history is increasing and has every queued session. -/
structure Recorded (st : RecordedState α) : Prop where
  inv : GroupInv st.group.mem st.group.gs
  increasing : st.history.Pairwise (· < ·)
  below : ∀ a ∈ st.history, a < st.group.mem.next
  queued : ∀ s ∈ st.group.gs.queued, s.addr ∈ st.history

/-! ## Bins in the order of addresses -/

/-- Objects are made in the order of their addresses, and ties stand in that order. -/
def BinsInOrder (gs : GroupScheduler α) : Prop :=
  ∀ b, (gs.binHeads b).Pairwise fun s t => SameTags s t → s.addr < t.addr

theorem SameTags.symm (h : SameTags s t) : SameTags t s := ⟨h.finish.symm, h.start.symm⟩

theorem CalendarInv.eq_of_addr (h : CalendarInv gs) {b : ℕ} (hs : s ∈ gs.binHeads b)
    (ht : t ∈ gs.binHeads b) (haddr : s.addr = t.addr) : s = t :=
  Multiset.inj_on_of_nodup_map h.addrs s (h.bin_mem hs) t (h.bin_mem ht) haddr

theorem CalendarInv.bin_nodup (h : CalendarInv gs) (b : ℕ) : (gs.binHeads b).Nodup :=
  (h.bin_addrs b).of_map _

/-- The search meets the earlier of two tied sessions first. -/
theorem BinsInOrder.not_found (h : BinsInOrder gs) (hcal : CalendarInv gs) {b : ℕ} (vt : ℕ)
    (hs : s ∈ gs.binHeads b) (ht : t ∈ gs.binHeads b) (htags : SameTags s t)
    (hlt : s.addr < t.addr) : findEligibleMinBitfield gs vt ≠ some t := by
  intro hfind
  have hfirst := findEligible_inBin hcal hfind
  rw [hcal.ownBin b t ht] at hfirst
  have hstart := (eligibleInBin_some hcal hfirst).2.1
  have heligible : (!decide (s.startTime > vt)) = true := by
    rw [htags.start]
    simpa using hstart
  rcases find?_first (h b) hfirst s hs heligible with rfl | horder
  · exact lt_irrefl _ hlt
  · exact absurd (horder htags.symm) hlt.not_gt

theorem BinsInOrder.not_returned (h : BinsInOrder gs) (hcal : CalendarInv gs) {b : ℕ}
    (hs : s ∈ gs.binHeads b) (ht : t ∈ gs.binHeads b) (htags : SameTags s t)
    (hlt : s.addr < t.addr) : (groupSchedulerDequeue gs).1 ≠ some t := by
  rcases dequeue_cases hcal with ⟨-, heq⟩ | ⟨-, -, heq⟩ | ⟨-, u, hfind, heq⟩
  · simp [heq]
  · simp [heq]
  · rw [heq, ← hfind]
    exact h.not_found hcal (dequeueTime gs) hs ht htags hlt

theorem Recorded.tiesFifo_iff {st : RecordedState α} (h : Recorded st) :
    TiesFifo st ↔ BinsInOrder st.group.gs := by
  have hcal := h.inv.calendar
  have hbefore : ∀ {b}, ∀ s ∈ st.group.gs.binHeads b, ∀ t ∈ st.group.gs.binHeads b,
      (Before st.history s.addr t.addr ↔ s.addr < t.addr) := fun s hs t ht =>
    before_iff_lt h.increasing (h.queued s (hcal.bin_mem hs)) (h.queued t (hcal.bin_mem ht))
  constructor
  · intro hfifo b
    rw [List.pairwise_iff_forall_sublist]
    intro s t hst htags
    obtain ⟨hs, ht⟩ := Before.mem hst
    by_contra hge
    have hne : t.addr ≠ s.addr := by
      intro haddr
      obtain rfl := hcal.eq_of_addr ht hs haddr
      exact Before.asymm (hcal.bin_nodup b) hst hst
    have hlt : t.addr < s.addr := lt_of_le_of_ne (Nat.le_of_not_lt hge) hne
    have hts := (hfifo b t ht s hs htags.symm ((hbefore t ht s hs).mpr hlt)).1
    exact Before.asymm (hcal.bin_nodup b) hst hts
  · intro horder b s hs t ht htags hhist
    have hlt := (hbefore s hs t ht).mp hhist
    constructor
    · have hne : s ≠ t := by
        rintro rfl
        exact lt_irrefl _ hlt
      rcases before_or hs ht hne with hst | hts
      · exact hst
      · have hgt := List.pairwise_iff_forall_sublist.mp (horder b) hts htags.symm
        exact absurd hgt hlt.not_gt
    · exact horder.not_returned hcal hs ht htags hlt

/-! ## What each operation does to the order -/

theorem BinsInOrder.of_sublist {gs' : GroupScheduler α} (h : BinsInOrder gs)
    (hsub : ∀ b, (gs'.binHeads b).Sublist (gs.binHeads b)) : BinsInOrder gs' := fun b =>
  (h b).sublist (hsub b)

theorem BinsInOrder.of_queueView {gs' : GroupScheduler α} (h : BinsInOrder gs)
    (hq : gs'.queueView = gs.queueView) : BinsInOrder gs' := by
  have hheads : gs'.binHeads = gs.binHeads := congrArg QueueView.binHeads hq
  intro b
  rw [hheads]
  exact h b

/-- A session that is younger than all of a list is put into its place exactly when the list has
none with the same tags: it goes in front of those. -/
theorem insertSorted_inOrder_iff {l : List (SessionState α)}
    (hl : l.Pairwise fun s t => SameTags s t → s.addr < t.addr)
    (hlast : ∀ s ∈ l, s.addr < t.addr) :
    ((insertSorted sessionLess t l).Pairwise fun s t => SameTags s t → s.addr < t.addr) ↔
      ∀ s ∈ l, ¬ SameTags s t := by
  induction l with
  | nil => simp [insertSorted]
  | cons c l ih =>
    obtain ⟨hc, hl⟩ := List.pairwise_cons.mp hl
    have hrest := ih hl fun s hs => hlast s (List.mem_cons_of_mem c hs)
    rw [insertSorted]
    split_ifs with hless
    · have hdiffers : ¬ SameTags c t := by
        intro htags
        rw [sessionLess_iff, htags.finish, htags.start] at hless
        omega
      rw [List.pairwise_cons, hrest, List.forall_mem_cons]
      constructor
      · exact fun hall => ⟨hdiffers, hall.2⟩
      · rintro ⟨-, hall⟩
        refine ⟨?_, hall⟩
        intro s hs htags
        rcases mem_insertSorted.mp hs with rfl | hs
        · exact absurd htags hdiffers
        · exact hc s hs htags
    · rw [List.pairwise_cons]
      constructor
      · intro hall s hs htags
        exact absurd (hall.1 s hs htags.symm) (hlast s hs).not_gt
      · intro hnone
        refine ⟨?_, List.pairwise_cons.mpr ⟨hc, hl⟩⟩
        intro s hs htags
        exact absurd htags.symm (hnone s hs)

theorem BinsInOrder.enqueued_iff (h : BinsInOrder gs) (hinv : GroupInv mem gs) {id w : ℕ}
    {entry : EntryConfig} (hadm : Admissible gs id w entry) (ud : Option α) (cf : Bool) :
    BinsInOrder (enqueued gs id (newSession gs entry mem.next id w ud cf)) ↔
      ∀ s ∈ gs.binHeads (newSessionBin gs entry w),
        ¬ SameTags s (newSession gs entry 0 id w none false) := by
  have hbin := hadm.fits mem.next ud cf
  have hheads : (enqueued gs id (newSession gs entry mem.next id w ud cf)).binHeads = _ :=
    inserted_binHeads hbin
  have hlast : ∀ s ∈ gs.binHeads (newSessionBin gs entry w), s.addr < mem.next := fun s hs =>
    hinv.fresh s (hinv.calendar.bin_mem hs)
  have htarget := insertSorted_inOrder_iff (t := { newSession gs entry mem.next id w ud cf with
    binIndex := newSessionBin gs entry w }) (h (newSessionBin gs entry w)) hlast
  have hsame : ∀ s : SessionState α,
      SameTags s { newSession gs entry mem.next id w ud cf with
        binIndex := newSessionBin gs entry w } ↔
      SameTags s (newSession gs entry 0 id w none false) := fun s =>
    ⟨fun htags => ⟨htags.finish, htags.start⟩, fun htags => ⟨htags.finish, htags.start⟩⟩
  simp only [hsame] at htarget
  rw [← htarget]
  constructor
  · intro horder
    have hlist := horder (newSessionBin gs entry w)
    rw [hheads, sessionBin_newSession, binListInsert, Function.update_self] at hlist
    exact hlist
  · intro hlist b
    rw [hheads, sessionBin_newSession, binListInsert]
    by_cases hb : b = newSessionBin gs entry w
    · subst hb
      rw [Function.update_self]
      exact hlist
    · rw [Function.update_of_ne hb]
      exact h b

theorem removed_binHeads_sublist (hbin : s.binIndex < gs.numBins) (b : ℕ) :
    ((removed gs s).binHeads b).Sublist (gs.binHeads b) := by
  rw [(removed_calendar hbin).1, unlinkSession_binHeads, binListRemove]
  by_cases hb : b = s.binIndex
  · subst hb
    rw [Function.update_self]
    exact List.eraseP_sublist
  · rw [Function.update_of_ne hb]

theorem CalendarInv.update_binHeads (h : CalendarInv gs) (w b : ℕ) :
    (groupSchedulerUpdateVirtualTime gs w).binHeads b =
      (gs.binHeads b).map (·.rebase (updateOffset gs w)) := by
  rcases updateVirtualTime_cases gs w with ⟨hlt, heq⟩ | ⟨hge, heq⟩
  · rw [heq, updateOffset, rebaseOffsetAt, if_pos hlt]
    simp
  · rw [heq, updateOffset, rebaseOffsetAt, if_neg (Nat.not_lt.mpr hge)]
    exact (h.retimed _ gs.minFinishTime).rebasedBy_binHeads _ b

theorem CalendarInv.update_inOrder_iff (h : CalendarInv gs) (w : ℕ) :
    BinsInOrder (groupSchedulerUpdateVirtualTime gs w) ↔
      ∀ b s t, Before (gs.binHeads b) s t →
        SameTags (s.rebase (updateOffset gs w)) (t.rebase (updateOffset gs w)) →
        s.addr < t.addr := by
  unfold BinsInOrder
  constructor
  · intro horder b s t hst htags
    have hlist := horder b
    rw [h.update_binHeads, List.pairwise_map] at hlist
    exact List.pairwise_iff_forall_sublist.mp hlist hst htags
  · intro hall b
    rw [h.update_binHeads, List.pairwise_map, List.pairwise_iff_forall_sublist]
    intro s t hst htags
    exact hall b s t hst htags

/-! ## The history -/

/-- A call records nothing, or the object it makes. -/
theorem CalendarEffect.admits {st st' : GroupState α} {c : CalendarCall α}
    (h : CalendarEffect st st' c) : st.mem.next ≤ st'.mem.next ∧
      (st.admits c = [] ∨ st.admits c = [st.mem.next] ∧ st'.mem.next = st.mem.next + 1) := by
  cases h with
  | absent _ after =>
    rw [after]
    exact ⟨le_rfl, .inl rfl⟩
  | removed _ _ after =>
    rw [after]
    exact ⟨le_rfl, .inl rfl⟩
  | group effect =>
    cases effect with
    | configured _ mem => exact ⟨mem ▸ le_rfl, .inl rfl⟩
    | removed _ mem => exact ⟨mem ▸ le_rfl, .inl rfl⟩
    | refused _ session _ next => exact ⟨next, .inl (by simp [GroupState.admits, session])⟩
    | enqueued _ _ session _ next =>
      exact ⟨next ▸ Nat.le_succ _, .inr ⟨by simp [GroupState.admits, session], next⟩⟩
    | missed _ _ _ _ mem => exact ⟨mem ▸ le_rfl, .inl rfl⟩
    | dequeued _ _ _ _ mem => exact ⟨mem ▸ le_rfl, .inl rfl⟩
    | updated _ mem => exact ⟨mem ▸ le_rfl, .inl rfl⟩

theorem Recorded.step {st : RecordedState α} (h : Recorded st) (c : CalendarCall α) :
    Recorded (st.step c) := by
  have heff := h.inv.calendarEffect c
  have hhistory : (st.step c).history = st.history ++ st.group.admits c := rfl
  have hmem : (st.step c).group.mem = (st.group.calendarStep c).mem := rfl
  obtain ⟨hnext, hadmits⟩ := heff.admits
  constructor
  · exact h.inv.calendarStep c
  · rw [hhistory]
    rcases hadmits with hnone | ⟨hone, -⟩
    · rw [hnone, List.append_nil]
      exact h.increasing
    · rw [hone, List.pairwise_append]
      refine ⟨h.increasing, List.pairwise_singleton _ _, ?_⟩
      intro a ha b hb
      rw [List.mem_singleton.mp hb]
      exact h.below a ha
  · rw [hhistory, hmem]
    intro a ha
    rcases List.mem_append.mp ha with hold | hnew
    · exact (h.below a hold).trans_le hnext
    · rcases hadmits with hnone | ⟨hone, hsucc⟩
      · rw [hnone] at hnew
        cases hnew
      · rw [hone, List.mem_singleton] at hnew
        rw [hnew, hsucc]
        exact Nat.lt_succ_self _
  · rw [hhistory]
    intro s hs
    apply List.mem_append.mpr
    rcases heff.session h.inv.calendar hs with
      ⟨t, ht, off, rfl⟩ | ⟨id, w, ud, cf, entry, rfl, hsession, rfl⟩
    · exact .inl (h.queued t ht)
    · exact .inr (by simp [GroupState.admits, hsession, newSession])

/-! ## Runs -/

/-- A call meets the condition exactly when ties stand in the order of insertion after it. -/
theorem keepsTies_iff {st : RecordedState α} (h : Recorded st) (hfifo : TiesFifo st)
    (c : CalendarCall α) : KeepsTies st c ↔ TiesFifo (st.step c) := by
  have hcal := h.inv.calendar
  have hgroup : (st.step c).group = st.group.calendarStep c := rfl
  rw [h.tiesFifo_iff] at hfifo
  rw [(h.step c).tiesFifo_iff, hgroup]
  cases h.inv.calendarEffect c with
  | absent _ after =>
    rw [after]
    exact iff_of_true trivial hfifo
  | removed _ queued after =>
    rw [after]
    exact iff_of_true trivial (hfifo.of_sublist
      (removed_binHeads_sublist (hcal.lt_numBins (hcal.mem_queued.mp queued))))
  | group effect =>
    cases effect with
    | configured view => exact iff_of_true trivial (hfifo.of_queueView view)
    | removed view => exact iff_of_true trivial (hfifo.of_queueView view)
    | refused reason _ same =>
      rw [same]
      refine iff_of_true ?_ hfifo
      intro hmem entry hadm
      rcases reason with hno | hno
      · rw [hmem] at hno
        cases hno
      · exact absurd ⟨entry, hadm⟩ hno
    | @enqueued _ _ _ _ entry granted hadm _ after =>
      rw [after, hfifo.enqueued_iff h.inv hadm]
      constructor
      · intro hkeeps
        exact hkeeps granted entry hadm
      · intro hnone _ e he
        obtain rfl : e = entry := Option.some.inj (he.found.symm.trans hadm.found)
        exact hnone
    | missed _ _ _ after =>
      rw [after]
      exact iff_of_true trivial hfifo
    | @dequeued s _ found _ after =>
      have hs := (findEligible_some hcal found).1
      rw [after]
      exact iff_of_true trivial (hfifo.of_sublist (@removed_binHeads_sublist _
        (st.group.gs.retimed _ _) s (hcal.lt_numBins (hcal.mem_queued.mp hs))))
    | updated after =>
      rw [after, hcal.update_inOrder_iff]
      refine forall₃_congr fun b s t => forall_congr' fun hst => ?_
      have hmem := Before.mem hst
      rw [before_iff_lt h.increasing (h.queued s (hcal.bin_mem hmem.1))
        (h.queued t (hcal.bin_mem hmem.2))]

/-- Along a run ties are served first in, first out in every state exactly when every call meets
its condition: a session is never put into a bin that has one with the same tags, and a rebase
makes the tags of two sessions of a bin equal only where they stand in the order of
insertion. -/
theorem ties_fifo_iff {numGroups binsPerGroup totalCapacity maxEntries : ℕ}
    {st₀ : GroupState α} (hfresh : Fresh numGroups binsPerGroup totalCapacity maxEntries st₀)
    (calls : List (CalendarCall α)) :
    Along RecordedState.step KeepsTies ⟨st₀, []⟩ calls ↔
      ∀ done, done <+: calls → TiesFifo (run RecordedState.step ⟨st₀, []⟩ done) := by
  have hnone : ∀ s, s ∉ st₀.gs.queued := by
    simp [hfresh.queued]
  have hstart : Recorded (⟨st₀, []⟩ : RecordedState α) :=
    ⟨hfresh.inv, List.Pairwise.nil, by simp, fun s hs => absurd hs (hnone s)⟩
  have hfifo : TiesFifo (⟨st₀, []⟩ : RecordedState α) := fun b s hs =>
    absurd (hfresh.inv.calendar.bin_mem hs) (hnone s)
  exact along_iff_states (I := Recorded) (P := TiesFifo) (fun _ c h => h.step c)
    (fun _ c h hfifo => keepsTies_iff h hfifo c) hstart hfifo calls

/-- Two entries of equal weight with sessions of different sizes. -/
theorem ties_fifo_iff_default :
    Along RecordedState.step KeepsTies ⟨defaultGroup, []⟩ (twoEntryCalls.map .group) ↔
      ∀ done, done <+: twoEntryCalls.map .group →
        TiesFifo (run RecordedState.step ⟨defaultGroup, []⟩ done) :=
  ties_fifo_iff defaultGroup_fresh (twoEntryCalls.map .group)

/-- Two entries of equal weight with sessions of one size. -/
def equalSessions : List (CalendarCall ℕ) :=
  [.group (.configureEntry 0 (.weight 1)), .group (.configureEntry 1 (.weight 1)),
    .group (.enqueue 0 5 (some 1) false), .group (.enqueue 1 5 (some 2) false)]

/-- A session of one of them. -/
def tiedSession (addr : Addr) (entryId userData : ℕ) : SessionState ℕ :=
  { addr := addr
    entryId := entryId
    startTime := 0
    finishTime := 209715
    serviceInterval := 209715
    groupIndex := 15
    binIndex := 31129
    userData := some userData
    workSize := 5
    cleanupFn := false }

/-- The session inserted last stands first and is returned first. -/
theorem not_ties_fifo :
    let st := run RecordedState.step ⟨defaultGroup, []⟩ equalSessions
    st.history = [6, 7] ∧
      st.group.gs.binHeads 31129 = [tiedSession 7 1 2, tiedSession 6 0 1] ∧
      (groupSchedulerDequeue st.group.gs).1 = some (tiedSession 7 1 2) ∧ ¬ TiesFifo st := by
  intro st
  have hhistory : st.history = [6, 7] := by decide +kernel
  have hbin : st.group.gs.binHeads 31129 = [tiedSession 7 1 2, tiedSession 6 0 1] := by
    decide +kernel
  have hreturned : (groupSchedulerDequeue st.group.gs).1 = some (tiedSession 7 1 2) := by
    decide +kernel
  refine ⟨hhistory, hbin, hreturned, ?_⟩
  intro hfifo
  have hordered : Before st.history 6 7 := hhistory ▸ List.Sublist.refl _
  exact (hfifo 31129 (tiedSession 6 0 1) (by simp [hbin]) (tiedSession 7 1 2) (by simp [hbin])
    ⟨rfl, rfl⟩ hordered).2 hreturned

end Hwfq
