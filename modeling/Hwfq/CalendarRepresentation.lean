import Hwfq.CalendarLinks

/-!
# The calendar in memory represents the queue

A group scheduler with the pointers of its bins is one machine: every call runs
the model and the pointer code. The pointers represent the bin lists in every
state, so the representation invariant of the calendar is one about memory.
-/
namespace Hwfq
open GuardedRuns LinkedChains MinSearch Bins

variable {α : Type*} {gs gs' : GroupScheduler α} {s : SessionState α} {m : BinLinks}

/-- The objects of a list of sessions. -/
abbrev objects (l : List (SessionState α)) : List Addr := l.map (·.addr)

/-- The pointers thread the list of every bin and the objects carry the time stamps. -/
structure Represents (m : BinLinks) (gs : GroupScheduler α) : Prop where
  lists : ∀ b, m.Holds b (objects (gs.binHeads b))
  stamps : ∀ s ∈ gs.queued, m.startTime s.addr = s.startTime ∧ m.finishTime s.addr = s.finishTime

theorem Represents.congr (h : Represents m gs) (hbins : gs'.binHeads = gs.binHeads)
    (hqueue : gs'.queued = gs.queued) : Represents m gs' := by
  constructor
  · rw [hbins]
    exact h.lists
  · rw [hqueue]
    exact h.stamps

/-! ## Objects and bins -/

/-- The lists of two bins have no object in common. -/
theorem CalendarInv.bins_disjoint (h : CalendarInv gs) {b c : ℕ} (hne : c ≠ b) {a : Addr}
    (ha : a ∈ objects (gs.binHeads c)) : a ∉ objects (gs.binHeads b) := by
  intro hb
  obtain ⟨s, hs, rfl⟩ := List.mem_map.mp ha
  obtain ⟨t, ht, haddr⟩ := List.mem_map.mp hb
  have heq := Multiset.inj_on_of_nodup_map h.addrs t (h.bin_mem ht) s (h.bin_mem hs) haddr
  subst heq
  exact hne ((h.ownBin c t hs).symm.trans (h.ownBin b t ht))

/-- No list is longer than the number of objects allocated so far. -/
theorem GroupInv.bin_length_le {mem : Allocator} (h : GroupInv mem gs) (b : ℕ) :
    (objects (gs.binHeads b)).length ≤ mem.next := by
  have hnodup := h.calendar.bin_addrs b
  have hsub : (objects (gs.binHeads b)).toFinset ⊆ Finset.range mem.next := by
    intro a ha
    obtain ⟨s, hs, rfl⟩ := List.mem_map.mp (List.mem_toFinset.mp ha)
    exact Finset.mem_range.mpr (h.fresh s (h.calendar.bin_mem hs))
  have hcard := Finset.card_le_card hsub
  rwa [List.toFinset_card_of_nodup hnodup, Finset.card_range] at hcard

/-! ## Insertion -/

/-- Sorted insertion seen through a key that the order agrees with. -/
theorem insertSorted_map {β : Type*} {lt : α → α → Bool} {lt' : β → β → Bool} {f : α → β}
    {x : α} {l : List α} (h : ∀ y ∈ l, lt' (f y) (f x) = lt y x) :
    (insertSorted lt x l).map f =
      (l.map f).takeWhile (lt' · (f x)) ++ f x :: (l.map f).dropWhile (lt' · (f x)) := by
  induction l with
  | nil => rfl
  | cons c rest ih =>
    have hc := h c List.mem_cons_self
    rw [insertSorted]
    split_ifs with hlt
    · rw [List.map_cons, ih fun y hy => h y (List.mem_cons_of_mem c hy)]
      simp [hc, hlt]
    · simp [hc, hlt]

theorem Represents.create (h : Represents m gs) (hfresh : s.addr ∉ gs.queued.map (·.addr)) :
    Represents (m.create s) gs := by
  constructor
  · exact h.lists
  · intro t ht
    have hne : t.addr ≠ s.addr := by
      intro heq
      exact hfresh (heq ▸ Multiset.mem_map_of_mem _ ht)
    have hstart : (m.create s).startTime t.addr = m.startTime t.addr :=
      Function.update_of_ne hne _ _
    have hfinish : (m.create s).finishTime t.addr = m.finishTime t.addr :=
      Function.update_of_ne hne _ _
    rw [hstart, hfinish]
    exact h.stamps t ht

theorem insert_stamps (m : BinLinks) (fuel b : ℕ) (x : Addr) :
    (m.insert fuel b x).startTime = m.startTime ∧ (m.insert fuel b x).finishTime = m.finishTime := by
  unfold BinLinks.insert
  dsimp only
  split
  · exact ⟨rfl, rfl⟩
  · split
    · exact ⟨rfl, rfl⟩
    · split <;> exact ⟨rfl, rfl⟩

/-- The pointer code of an accepted session represents the new queue. -/
theorem Represents.insert (h : Represents m gs) (hinv : CalendarInv gs)
    (hbin : sessionBin gs s < gs.numBins) (hfresh : s.addr ∉ gs.queued.map (·.addr)) {fuel : ℕ}
    (hfuel : ∀ b, (objects (gs.binHeads b)).length ≤ fuel) :
    Represents ((m.create s).insert fuel (sessionBin gs s) s.addr) (inserted gs s) := by
  have hnew := h.create hfresh
  have hnot : ∀ b, s.addr ∉ objects (gs.binHeads b) := by
    intro b hin
    obtain ⟨t, ht, haddr⟩ := List.mem_map.mp hin
    exact hfresh (haddr ▸ Multiset.mem_map_of_mem _ (hinv.bin_mem ht))
  obtain ⟨hstart, hfinish⟩ := insert_stamps (m.create s) fuel (sessionBin gs s) s.addr
  have hself : (m.create s).startTime s.addr = s.startTime ∧
      (m.create s).finishTime s.addr = s.finishTime :=
    ⟨Function.update_self _ _ _, Function.update_self _ _ _⟩
  constructor
  · intro b
    rw [inserted_binHeads hbin, binListInsert]
    by_cases hb : b = sessionBin gs s
    · subst hb
      rw [Function.update_self]
      have hless : ∀ t ∈ gs.binHeads (sessionBin gs s),
          (m.create s).sessionLess t.addr s.addr =
            sessionLess t { s with binIndex := sessionBin gs s } := by
        intro t ht
        obtain ⟨hts, htf⟩ := hnew.stamps t (hinv.bin_mem ht)
        unfold BinLinks.sessionLess sessionLess
        rw [hts, htf, hself.1, hself.2]
      have hmap : objects (insertSorted sessionLess { s with binIndex := sessionBin gs s }
          (gs.binHeads (sessionBin gs s))) = _ :=
        insertSorted_map (f := fun t : SessionState α => t.addr) hless
      rw [hmap]
      exact (hnew.lists _).insert (hinv.bin_addrs _) (hnot _) (hfuel _)
    · rw [Function.update_of_ne hb]
      refine (hnew.lists (sessionBin gs s)).insert_other (hnot _) (hfuel _) hb (hnew.lists b)
        (hnot b) ?_
      intro a ha
      exact hinv.bins_disjoint hb ha
  · rw [hstart, hfinish, inserted_queued hbin]
    intro t ht
    rcases Multiset.mem_cons.mp ht with rfl | ht
    · exact hself
    · exact hnew.stamps t ht

/-! ## Removal -/

/-- A removal takes one session out of its list and leaves the order of the rest. -/
theorem binListRemove_split (h : CalendarInv gs) (hs : s ∈ gs.queued) :
    ∃ l₁ l₂, gs.binHeads s.binIndex = l₁ ++ s :: l₂ ∧
      binListRemove gs s.binIndex s s.binIndex = l₁ ++ l₂ := by
  rw [binListRemove, Function.update_self]
  exact eraseP_key_split (f := SessionState.addr) (h.bin_addrs s.binIndex) (h.mem_queued.mp hs)

theorem remove_stamps (m : BinLinks) (b : ℕ) (x : Addr) :
    (m.remove b x).startTime = m.startTime ∧ (m.remove b x).finishTime = m.finishTime := by
  unfold BinLinks.remove
  dsimp only
  cases m.binPrev x <;> dsimp only <;> split <;> exact ⟨rfl, rfl⟩

theorem Represents.remove (h : Represents m gs) (hinv : CalendarInv gs) (hs : s ∈ gs.queued)
    (hbins : gs'.binHeads = binListRemove gs s.binIndex s)
    (hqueue : gs.queued = s ::ₘ gs'.queued) :
    Represents (m.remove s.binIndex s.addr) gs' := by
  obtain ⟨l₁, l₂, hsplit, hrest⟩ := binListRemove_split hinv hs
  have hlist := h.lists s.binIndex
  have hnodup := hinv.bin_addrs s.binIndex
  have hdisj : ∀ b, b ≠ s.binIndex → ∀ a ∈ objects (gs.binHeads b),
      a ∉ objects (gs.binHeads s.binIndex) := by
    intro b hb a ha
    exact hinv.bins_disjoint hb ha
  rw [hsplit] at hlist hnodup hdisj
  simp only [objects, List.map_append, List.map_cons] at hlist hnodup hdisj
  obtain ⟨hstart, hfinish⟩ := remove_stamps m s.binIndex s.addr
  constructor
  · intro b
    rw [hbins]
    by_cases hb : b = s.binIndex
    · subst hb
      rw [hrest, objects, List.map_append]
      exact hlist.remove hnodup
    · rw [binListRemove, Function.update_of_ne hb]
      exact hlist.remove_other hnodup hb (h.lists b) (hdisj b hb)
  · rw [hstart, hfinish]
    intro t ht
    apply h.stamps t
    rw [hqueue]
    exact Multiset.mem_cons_of_mem ht

/-! ## Rebase -/

section
variable {off : ℕ}

theorem foldl_rebaseSession_links (off : ℕ) (l : List Addr) (m : BinLinks) :
    (l.foldl (BinLinks.rebaseSession off) m).binHeads = m.binHeads ∧
      (l.foldl (BinLinks.rebaseSession off) m).binNext = m.binNext ∧
      (l.foldl (BinLinks.rebaseSession off) m).binPrev = m.binPrev := by
  induction l generalizing m with
  | nil => exact ⟨rfl, rfl, rfl⟩
  | cons a l ih => exact ih (m.rebaseSession off a)

/-- Every object of a list without repetition is moved once. -/
theorem foldl_rebaseSession_stamps (off : ℕ) {l : List Addr} (hl : l.Nodup) (m : BinLinks) (a : Addr) :
    (l.foldl (BinLinks.rebaseSession off) m).startTime a =
        (if a ∈ l then rebaseTime off (m.startTime a) else m.startTime a) ∧
      (l.foldl (BinLinks.rebaseSession off) m).finishTime a =
        if a ∈ l then rebaseTime off (m.finishTime a) else m.finishTime a := by
  induction l generalizing m with
  | nil => simp
  | cons c l ih =>
    obtain ⟨hc, hl⟩ := List.nodup_cons.mp hl
    obtain ⟨hstart, hfinish⟩ := ih hl (m.rebaseSession off c)
    rw [List.foldl_cons, hstart, hfinish]
    by_cases hac : a = c
    · subst hac
      simp [hc, BinLinks.rebaseSession]
    · simp [hac, BinLinks.rebaseSession]

theorem rebaseList_eq {p : Option Addr} {l : List Addr} (h : Path m.binNext p l none) {fuel : ℕ}
    (hfuel : l.length ≤ fuel) :
    BinLinks.rebaseList off fuel p m = l.foldl (BinLinks.rebaseSession off) m := by
  induction l generalizing p m fuel with
  | nil =>
    have hp : p = none := h
    subst hp
    cases fuel <;> rfl
  | cons a l ih =>
    obtain ⟨n, rfl⟩ : ∃ n, fuel = n + 1 := ⟨fuel - 1, by simp at hfuel; omega⟩
    have hrest : Path (m.rebaseSession off a).binNext (m.binNext a) l none := h.2
    rw [h.1]
    exact ih hrest (by simpa using hfuel)

theorem foldl_rebaseList_eq {fuel : ℕ} {lists : ℕ → List Addr} {bins : List ℕ}
    (h : ∀ b, Path m.binNext (m.binHeads b) (lists b) none)
    (hfuel : ∀ b, (lists b).length ≤ fuel) :
    bins.foldl (fun m bin => m.rebaseList off fuel (m.binHeads bin)) m =
      (bins.flatMap lists).foldl (BinLinks.rebaseSession off) m := by
  induction bins generalizing m with
  | nil => rfl
  | cons b bins ih =>
    rw [List.foldl_cons, List.flatMap_cons, List.foldl_append, rebaseList_eq (h b) (hfuel b)]
    obtain ⟨hheads, hnext, -⟩ := foldl_rebaseSession_links off (lists b) m
    apply ih
    intro c
    rw [hheads, hnext]
    exact h c

theorem Represents.rebase (h : Represents m gs) (hinv : CalendarInv gs) {fuel : ℕ}
    (hfuel : ∀ b, (objects (gs.binHeads b)).length ≤ fuel) :
    Represents (m.rebase fuel off gs.numBins) (rebasedBy off gs) := by
  have heq : m.rebase fuel off gs.numBins =
      ((List.range gs.numBins).flatMap fun b => objects (gs.binHeads b)).foldl
        (BinLinks.rebaseSession off) m :=
    foldl_rebaseList_eq (fun b => (h.lists b).1) hfuel
  have hall : ((List.range gs.numBins).flatMap fun b => objects (gs.binHeads b)) =
      objects ((List.range gs.numBins).flatMap gs.binHeads) := by
    rw [objects, List.map_flatMap]
  have hnodup : (objects ((List.range gs.numBins).flatMap gs.binHeads)).Nodup := by
    have haddrs := hinv.addrs
    rw [queued_eq_flatMap] at haddrs
    simpa using haddrs
  rw [heq, hall]
  obtain ⟨hheads, hnext, hprev⟩ :=
    foldl_rebaseSession_links off (objects ((List.range gs.numBins).flatMap gs.binHeads)) m
  constructor
  · intro b
    have hlist : objects ((rebasedBy off gs).binHeads b) = objects (gs.binHeads b) := by
      rw [hinv.rebasedBy_binHeads, objects, List.map_map]
      rfl
    rw [hlist]
    apply (h.lists b).frame
    · rw [hheads]
    · rw [hnext]
      exact fun _ _ => rfl
    · rw [hprev]
      exact fun _ _ => rfl
  · rw [rebasedBy_queued]
    intro t ht
    obtain ⟨s, hs, rfl⟩ := Multiset.mem_map.mp ht
    obtain ⟨hstart, hfinish⟩ := foldl_rebaseSession_stamps off hnodup m s.addr
    have hin : s.addr ∈ objects ((List.range gs.numBins).flatMap gs.binHeads) := by
      rw [queued_eq_flatMap] at hs
      exact List.mem_map_of_mem hs
    obtain ⟨hs₁, hs₂⟩ := h.stamps s hs
    rw [if_pos hin, hs₁] at hstart
    rw [if_pos hin, hs₂] at hfinish
    exact ⟨hstart, hfinish⟩

end

/-! ## The machine with its pointers -/

structure LinkedState (α : Type*) where
  group : GroupState α
  links : BinLinks

/-- The pointer code of a call: insertion, the rebase, or the removal of what the
call takes out. -/
def LinkedState.step (st : LinkedState α) (c : CalendarCall α) : LinkedState α where
  group := st.group.calendarStep c
  links :=
    match c with
    | .group (.enqueue id w ud cf) =>
        let r := groupSchedulerEnqueue st.group.mem st.group.gs id.toNat w.toNat ud cf
        match r.session.bind r.gs.sessionAt with
        | none => st.links
        | some s => (st.links.create s).insert r.mem.next s.binIndex s.addr
    | .group (.updateVirtualTime w) =>
        let virtualTime := advancedVirtualTime st.group.gs w.toNat
        if virtualTime < rebaseThreshold then st.links
        else st.links.rebase st.group.mem.next (virtualTime / 2) st.group.gs.numBins
    | c =>
        match st.group.taken c with
        | none => st.links
        | some s => st.links.remove s.binIndex s.addr

/-- `bin_heads` of a new scheduler is zeroed. -/
def freshLinks : BinLinks where
  binHeads _ := none
  binNext _ := none
  binPrev _ := none
  startTime _ := 0
  finishTime _ := 0

/-- The model's invariant and the pointers that represent it. -/
structure LinkedInv (st : LinkedState α) : Prop where
  inv : GroupInv st.group.mem st.group.gs
  represents : Represents st.links st.group.gs

theorem Fresh.linked {numGroups binsPerGroup totalCapacity maxEntries : ℕ} {st : GroupState α}
    (h : Fresh numGroups binsPerGroup totalCapacity maxEntries st) :
    LinkedInv ⟨st, freshLinks⟩ := by
  have hbins : ∀ b, st.gs.binHeads b = [] := by
    obtain ⟨mem, entries, -, hinit⟩ := h.init
    exact (init_some hinit).1
  refine ⟨h.inv, ?_, ?_⟩
  · intro b
    rw [hbins b]
    exact ⟨rfl, rfl⟩
  · intro s hs
    simp [h.queued] at hs

/-- What a call takes out stood in the queue, and the call unlinks it. -/
theorem taken_cases {st : GroupState α} (h : GroupInv st.mem st.gs) {c : CalendarCall α}
    (htaken : st.taken c = some s) :
    s ∈ st.gs.queued ∧ (st.calendarStep c).gs.binHeads = binListRemove st.gs s.binIndex s ∧
      st.gs.queued = s ::ₘ (st.calendarStep c).gs.queued := by
  cases h.calendarEffect c with
  | absent none => cases none.symm.trans htaken
  | removed found queued after =>
    have hb := h.calendar.lt_numBins (h.calendar.mem_queued.mp queued)
    cases found.symm.trans htaken
    rw [after]
    exact ⟨queued, (removed_calendar hb).1.trans unlinkSession_binHeads,
      sessionRemoved_queued h.calendar queued⟩
  | group effect =>
    cases effect with
    | missed _ _ returned => cases returned.symm.trans htaken
    | dequeued _ found returned after =>
      have hs := (findEligible_some h.calendar found).1
      have hb := h.calendar.lt_numBins (h.calendar.mem_queued.mp hs)
      cases returned.symm.trans htaken
      have hcal := @removed_calendar _ (st.gs.retimed (dequeueTime st.gs) s.finishTime) s hb
      rw [after]
      exact ⟨hs, hcal.1.trans unlinkSession_binHeads, dequeued_queued h.calendar hs⟩
    | _ => cases htaken

theorem LinkedInv.takeOut {st : LinkedState α} (h : LinkedInv st) {c : CalendarCall α}
    (htaken : st.group.taken c = some s) :
    Represents (st.links.remove s.binIndex s.addr) (st.group.calendarStep c).gs := by
  obtain ⟨hs, hbins, hqueue⟩ := taken_cases h.inv htaken
  exact h.represents.remove h.inv.calendar hs hbins hqueue

/-- The pointer code of an enqueue finds the object that was made and links it. -/
theorem LinkedInv.enqueued {st : LinkedState α} (h : LinkedInv st) {id : UInt32} {w : UInt64}
    {ud : Option α} {cf : Bool} {entry : EntryConfig}
    (hadm : Admissible st.group.gs id.toNat w.toNat entry)
    (hsession : (groupSchedulerEnqueue st.group.mem st.group.gs id.toNat w.toNat ud cf).session =
      some st.group.mem.next)
    (hafter : (st.group.step (.enqueue id w ud cf)).gs = Hwfq.enqueued st.group.gs id.toNat
      (newSession st.group.gs entry st.group.mem.next id.toNat w.toNat ud cf))
    (hnext : (st.group.step (.enqueue id w ud cf)).mem.next = st.group.mem.next + 1) :
    Represents (st.step (.group (.enqueue id w ud cf))).links
      (st.group.step (.enqueue id w ud cf)).gs := by
  have hinv := h.inv.step (.enqueue id w ud cf)
  have hbin := hadm.fits st.group.mem.next ud cf
  have hfuel : ∀ b, (objects (st.group.gs.binHeads b)).length ≤ st.group.mem.next + 1 := by
    intro b
    exact (h.inv.bin_length_le b).trans (Nat.le_succ _)
  have hlinked := h.represents.insert h.inv.calendar hbin h.inv.next_notMem hfuel
  simp only [LinkedState.step, GroupState.step] at hinv hafter hnext ⊢
  rw [hafter] at hinv ⊢
  have hin := hinv.calendar.sessionAt (hadm.queued st.group.mem.next ud cf ▸
    Multiset.mem_cons_self _ _)
  have haddr : ({ newSession st.group.gs entry st.group.mem.next id.toNat w.toNat ud cf with
      binIndex := sessionBin st.group.gs (newSession st.group.gs entry st.group.mem.next id.toNat
        w.toNat ud cf) } : SessionState α).addr = st.group.mem.next := rfl
  rw [haddr] at hin
  rw [hsession, Option.bind_some, hin, hnext]
  exact hlinked.congr rfl rfl

theorem LinkedInv.step {st : LinkedState α} (h : LinkedInv st) (c : CalendarCall α) :
    LinkedInv (st.step c) := by
  refine ⟨h.inv.calendarStep c, ?_⟩
  have hgroup : (st.step c).group = st.group.calendarStep c := rfl
  rw [hgroup]
  cases h.inv.calendarEffect c with
  | absent none after =>
    simp only [LinkedState.step, GroupState.taken, none]
    rw [after]
    exact h.represents
  | @removed addr s found =>
    have hout := h.takeOut (c := .removeSession addr) found
    simp only [LinkedState.step, GroupState.taken, found]
    exact hout
  | group effect =>
    cases effect with
    | configured view =>
      exact h.represents.congr (congrArg QueueView.binHeads view) (queued_of_queueView view)
    | removed view =>
      exact h.represents.congr (congrArg QueueView.binHeads view) (queued_of_queueView view)
    | refused _ session same =>
      simp only [LinkedState.step, session]
      exact same ▸ h.represents
    | enqueued _ hadm session after next => exact h.enqueued hadm session after next
    | missed _ _ returned after =>
      simp only [LinkedState.step, GroupState.taken, GroupState.returned, returned]
      rw [after]
      exact h.represents.congr rfl rfl
    | dequeued _ _ returned =>
      have hout := h.takeOut (c := .group .dequeue) returned
      simp only [LinkedState.step, GroupState.taken, GroupState.returned, returned]
      exact hout
    | @updated w after =>
      simp only [LinkedState.step]
      rw [after]
      rcases updateVirtualTime_cases st.group.gs w.toNat with ⟨hlt, heq⟩ | ⟨hge, heq⟩
      · rw [if_pos hlt, heq]
        exact h.represents.congr rfl rfl
      · rw [if_neg (Nat.not_lt.mpr hge), heq]
        have hat : Represents st.links
            (st.group.gs.at (advancedVirtualTime st.group.gs w.toNat)) :=
          h.represents.congr rfl rfl
        exact hat.rebase (h.inv.calendar.congr rfl rfl rfl rfl) h.inv.bin_length_le

/-! ## The representation invariant -/

/-- The calendar represents its queue, in the model and in memory. -/
structure WellFormed (gs : GroupScheduler α) (m : BinLinks) : Prop where
  ownBin : ∀ b, ∀ s ∈ gs.binHeads b, s.binIndex = b ∧ b < gs.numBins
  once : (objects ((List.range gs.numBins).flatMap gs.binHeads)).Nodup
  next : ∀ b, Path m.binNext (m.binHeads b) (objects (gs.binHeads b)) none
  prev : ∀ b, Path m.binPrev (objects (gs.binHeads b)).getLast?
    (objects (gs.binHeads b)).reverse none
  stamps : ∀ s ∈ gs.queued, m.startTime s.addr = s.startTime ∧ m.finishTime s.addr = s.finishTime
  ascending : ∀ b, (gs.binHeads b).Pairwise fun a c =>
    a.finishTime < c.finishTime ∨ a.finishTime = c.finishTime ∧ a.startTime ≤ c.startTime
  binBits : ∀ b, (gs.binBitfield (b / 32)).getLsbD (b % 32) = true ↔ gs.binHeads b ≠ []
  groupBits : ∀ w < 1024,
    (gs.groupBitfield (w / 32)).getLsbD (w % 32) = true ↔ gs.binBitfield w ≠ 0#32
  count : gs.queued.card < 4294967296 → gs.activeSessionCount = gs.queued.card

/-- `s` leaves its list, everything else stays where it is. -/
structure TakesOut (gs gs' : GroupScheduler α) (s : SessionState α) : Prop where
  queued : gs.queued = s ::ₘ gs'.queued
  ownBin : ∃ l₁ l₂, gs.binHeads s.binIndex = l₁ ++ s :: l₂ ∧ gs'.binHeads s.binIndex = l₁ ++ l₂
  others : ∀ b, b ≠ s.binIndex → gs'.binHeads b = gs.binHeads b

theorem LinkedInv.wellFormed {st : LinkedState α} (h : LinkedInv st) :
    WellFormed st.group.gs st.links := by
  have hcal := h.inv.calendar
  constructor
  · intro b s hs
    exact ⟨hcal.ownBin b s hs, hcal.lt_numBins hs⟩
  · have haddrs := hcal.addrs
    rw [queued_eq_flatMap] at haddrs
    simpa using haddrs
  · intro b
    exact (h.represents.lists b).1
  · intro b
    exact (h.represents.lists b).2
  · exact h.represents.stamps
  · intro b
    apply (hcal.ordered b).imp
    intro a c hac
    rw [sessionLess_false] at hac
    omega
  · exact hcal.binBits
  · exact hcal.groupBits
  · intro hfew
    rw [h.inv.count]
    unfold u32
    exact Nat.mod_eq_of_lt hfew

/-- In every state of every run of every geometry the calendar represents its queue,
and a dequeue or a removal takes out one session and leaves every list order. -/
theorem calendar_well_formed {numGroups binsPerGroup totalCapacity maxEntries : ℕ}
    {st₀ : GroupState α} (hfresh : Fresh numGroups binsPerGroup totalCapacity maxEntries st₀)
    (calls : List (CalendarCall α)) :
    let st := run LinkedState.step ⟨st₀, freshLinks⟩ calls
    WellFormed st.group.gs st.links ∧
      ∀ c s, st.group.taken c = some s → TakesOut st.group.gs (st.step c).group.gs s := by
  have hrun : LinkedInv (run LinkedState.step ⟨st₀, freshLinks⟩ calls) :=
    run_invariant_all (fun _ c hst => hst.step c) hfresh.linked calls
  refine ⟨hrun.wellFormed, ?_⟩
  intro c s htaken
  obtain ⟨hs, hbins, hqueue⟩ := taken_cases hrun.inv htaken
  obtain ⟨l₁, l₂, hsplit, hrest⟩ := binListRemove_split hrun.inv.calendar hs
  constructor
  · exact hqueue
  · exact ⟨l₁, l₂, hsplit, (congrFun hbins s.binIndex).trans hrest⟩
  · intro b hb
    exact (congrFun hbins b).trans (Function.update_of_ne hb _ _)

theorem calendar_well_formed_default :
    let st := run LinkedState.step ⟨defaultGroup, freshLinks⟩
      [.group (.configureEntry 0 (.weight 1)), .group (.enqueue 0 5 (some 1) false),
        .group (.enqueue 0 3 (some 2) false), .group .dequeue]
    WellFormed st.group.gs st.links ∧
      ∀ c s, st.group.taken c = some s → TakesOut st.group.gs (st.step c).group.gs s :=
  calendar_well_formed defaultGroup_fresh _

end Hwfq
