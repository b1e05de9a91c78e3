import Mathlib.Data.Multiset.Lattice
import Mathlib.Order.Lattice.Nat
import Hwfq.WorkConservation

/-!
# The WF2Q+ service bound of one group scheduler

Between a load phase and a drain phase the queued sessions of one entry form a
chain of intervals: the first starts at the service the entry has received and
each next one where the one before finishes. A dequeue takes the head of a chain.
The head it takes starts before the other heads or finishes no later than them, so
the service of two backlogged entries stays within one interval of each.
-/
namespace Hwfq
open GuardedRuns MinSearch Bins

variable {α : Type*} {gs : GroupScheduler α}

/-! ## Chains of intervals -/

/-- The sessions `l` fill the virtual time from `t` to `t'` without a gap. -/
def Chain (t : ℕ) : List (SessionState α) → ℕ → Prop
  | [], t' => t = t'
  | s :: l, t' =>
      s.startTime = t ∧ s.finishTime = t + s.serviceInterval ∧ 0 < s.serviceInterval ∧
        Chain s.finishTime l t'

theorem Chain.append {t t' : ℕ} {l : List (SessionState α)} {s : SessionState α}
    (h : Chain t l t') (hstart : s.startTime = t') (hfinish : s.finishTime = t' + s.serviceInterval)
    (hpos : 0 < s.serviceInterval) : Chain t (l ++ [s]) s.finishTime := by
  induction l generalizing t with
  | nil =>
    have ht : t = t' := h
    exact ⟨ht ▸ hstart, ht ▸ hfinish, hpos, rfl⟩
  | cons u l ih =>
    obtain ⟨hu, hfu, hpu, hrest⟩ := h
    exact ⟨hu, hfu, hpu, ih hrest⟩

theorem Chain.le {t t' : ℕ} {l : List (SessionState α)} (h : Chain t l t') {s : SessionState α}
    (hs : s ∈ l) : t ≤ s.startTime ∧ s.startTime < s.finishTime := by
  induction l generalizing t with
  | nil => cases hs
  | cons u l ih =>
    obtain ⟨hu, hfu, hpu, hrest⟩ := h
    rcases List.mem_cons.mp hs with rfl | hs
    · omega
    · have := ih hrest hs
      omega

/-! ## The load phase -/

/-- The queued sessions of one entry. -/
def sessionsOf (gs : GroupScheduler α) (i : ℕ) : Multiset (SessionState α) :=
  gs.queued.filter (·.entryId = i)

theorem sessionsOf_cons {gs' : GroupScheduler α} {s : SessionState α}
    (hq : gs'.queued = s ::ₘ gs.queued) (i : ℕ) :
    sessionsOf gs' i = if s.entryId = i then s ::ₘ sessionsOf gs i else sessionsOf gs i := by
  rw [sessionsOf, hq]
  split_ifs with hi
  · exact Multiset.filter_cons_of_pos _ hi
  · exact Multiset.filter_cons_of_neg _ hi

/-- No finish time was capped. -/
def Uncapped (gs : GroupScheduler α) : Prop :=
  ∀ s ∈ gs.queued, s.finishTime = s.startTime + s.serviceInterval

def GroupCall.Configures : GroupCall α → Prop
  | .configureEntry _ _ => True
  | _ => False

def GroupCall.Loads : GroupCall α → Prop
  | .enqueue _ _ _ _ => True
  | _ => False

def GroupCall.Drains : GroupCall α → Prop
  | .dequeue => True
  | .updateVirtualTime _ => True
  | _ => False

/-- Before the first enqueue every tag is 0. -/
structure Unloaded (gs : GroupScheduler α) : Prop where
  queued : gs.queued = 0
  clock : gs.virtualTime = 0
  tags : ∀ id e, activeEntry gs id = some e → e.lastFinishTime = 0

/-- Before the first dequeue each entry's sessions form a chain from 0 to its tag. -/
structure Loaded (gs : GroupScheduler α) : Prop where
  clock : gs.virtualTime = 0
  chain : Uncapped gs → ∀ i, ∃ (l : List (SessionState α)) (t : ℕ), Chain 0 l t ∧
    (l : Multiset (SessionState α)) = sessionsOf gs i ∧
    ∀ e, activeEntry gs i = some e → e.lastFinishTime = t

/-- An operation that touches neither the queue nor the clock and sets no tag but to zero. -/
theorem Unloaded.of_active {gs' : GroupScheduler α} (h : Unloaded gs)
    (hq : gs'.queueView = gs.queueView)
    (hact : ∀ id e, activeEntry gs' id = some e →
      e.lastFinishTime = 0 ∨ activeEntry gs id = some e) : Unloaded gs' where
  queued := (queued_of_queueView hq).trans h.queued
  clock := (congrArg QueueView.virtualTime hq).trans h.clock
  tags id e he := (hact id e he).elim (fun hzero => hzero) (h.tags id e)

theorem Unloaded.configure {mem : Allocator} (hinv : GroupInv mem gs) (h : Unloaded gs) (id : ℕ)
    (a : Allocation) : Unloaded (groupSchedulerConfigureEntry gs id a).2 :=
  h.of_active (configureEntry_queueView hinv.sums id a) fun _ _ he =>
    configureEntry_active hinv.sums he

theorem Unloaded.loaded (h : Unloaded gs) : Loaded gs where
  clock := h.clock
  chain _ i := ⟨[], 0, rfl, by simp [sessionsOf, h.queued], h.tags i⟩

/-- A session extends the chain of its entry and leaves the other chains alone. -/
theorem Loaded.enqueue {mem : Allocator} (h : Loaded gs) (id w : ℕ) (ud : Option α)
    (cf : Bool) : Loaded (groupSchedulerEnqueue mem gs id w ud cf).gs := by
  rcases enqueue_cases mem gs id w ud cf with ⟨-, heq, -⟩ | ⟨-, -, -, -, entry, hadm, heq⟩
  · rwa [heq]
  rw [heq]
  have hq := hadm.queued mem.next ud cf
  have hact := enqueued_activeEntry gs (newSession gs entry mem.next id w ud cf) id
  have hstart := newSession_startTime gs entry mem.next id w ud cf
  rw [h.clock, Nat.zero_max] at hstart
  refine ⟨(enqueued_virtualTime id).trans h.clock, fun huncapped i => ?_⟩
  have hold : Uncapped gs := fun s hs => huncapped s (hq ▸ Multiset.mem_cons_of_mem hs)
  have hnew := huncapped _ (hq ▸ Multiset.mem_cons_self _ _)
  obtain ⟨l, t, hchain, hl, htag⟩ := h.chain hold i
  by_cases hi : id = i
  · subst hi
    have ht := htag entry.core (activeEntry_of_find hadm.found)
    refine ⟨l ++ [{ newSession gs entry mem.next id w ud cf with
        binIndex := sessionBin gs (newSession gs entry mem.next id w ud cf) }], _,
      hchain.append (hstart.trans ht) ?_ (serviceIntervalOf_pos _ _), ?_, fun e he => ?_⟩
    · rw [← ht]
      exact hnew.trans (congrArg (· + _) hstart)
    · refine Eq.trans ?_ ((sessionsOf_cons hq id).trans (if_pos rfl)).symm
      rw [← hl, Multiset.cons_coe, Multiset.coe_eq_coe]
      exact List.perm_append_singleton _ _
    · rw [hact, if_pos rfl] at he
      obtain ⟨e', -, rfl⟩ := Option.map_eq_some_iff.mp he
      rfl
  · refine ⟨l, t, hchain, ?_, fun e he => ?_⟩
    · rw [sessionsOf_cons hq]
      exact hl.trans (if_neg hi).symm
    · rw [hact, if_neg fun heq => hi heq.symm] at he
      exact htag e he

/-! ## The drain phase -/

/-- The service of entry `i` among the sessions that a run returned. -/
def serviceReceived (i : ℕ) (returned : List (Option (SessionState α))) : ℕ :=
  (((returned.filterMap id).filter fun s => s.entryId = i).map (·.serviceInterval)).sum

theorem serviceReceived_nil (i : ℕ) :
    serviceReceived i ([] : List (Option (SessionState α))) = 0 := rfl

theorem serviceReceived_none (i : ℕ) (l : List (Option (SessionState α))) :
    serviceReceived i (none :: l) = serviceReceived i l := rfl

theorem serviceReceived_some (i : ℕ) (s : SessionState α) (l : List (Option (SessionState α))) :
    serviceReceived i (some s :: l) =
      (if s.entryId = i then s.serviceInterval else 0) + serviceReceived i l := by
  unfold serviceReceived
  rw [List.filterMap_cons_some (f := id) rfl]
  by_cases hi : s.entryId = i
  · rw [List.filter_cons_of_pos (by simpa using hi), if_pos hi, List.map_cons, List.sum_cons]
  · rw [List.filter_cons_of_neg (by simpa using hi), if_neg hi, Nat.zero_add]

/-- The largest service interval among the queued sessions of an entry. -/
def largestInterval (gs : GroupScheduler α) (i : ℕ) : ℕ :=
  ((sessionsOf gs i).map (·.serviceInterval)).sup

/-- Virtual time stays below the rebase threshold. -/
def BelowRebase (st : GroupState α) : GroupCall α → Prop
  | .updateVirtualTime w => advancedVirtualTime st.gs w.toNat < rebaseThreshold
  | _ => True

/-- The state of a drain in which entry `i` has received the service `r i`, and `m i`
bounds the intervals of its sessions. -/
structure Draining (gs : GroupScheduler α) (r m : ℕ → ℕ) : Prop where
  chain : ∀ i, ∃ (l : List (SessionState α)) (t : ℕ), Chain (r i) l t ∧
    (l : Multiset (SessionState α)) = sessionsOf gs i
  bound : ∀ s ∈ gs.queued, s.serviceInterval ≤ m s.entryId
  close : ∀ i, ∀ s ∈ gs.queued, r i < r s.entryId + (m i + m s.entryId)

theorem mem_sessionsOf {s : SessionState α} {i : ℕ} :
    s ∈ sessionsOf gs i ↔ s ∈ gs.queued ∧ s.entryId = i := Multiset.mem_filter

theorem backlogged_iff {i : ℕ} :
    (∃ s ∈ gs.queued, s.entryId = i) ↔ 0 < (sessionsOf gs i).card := by
  rw [Multiset.card_pos_iff_exists_mem]
  exact ⟨fun ⟨s, hs⟩ => ⟨s, mem_sessionsOf.mpr hs⟩, fun ⟨s, hs⟩ => ⟨s, mem_sessionsOf.mp hs⟩⟩

/-- A backlogged entry has a head: it starts at the service received and is the first
of its chain. -/
theorem Draining.head {r m : ℕ → ℕ} (h : Draining gs r m) {s : SessionState α}
    (hs : s ∈ gs.queued) : ∃ q l t, q ∈ gs.queued ∧ q.entryId = s.entryId ∧
      Chain (r s.entryId) (q :: l) t ∧ s ∈ q :: l ∧
      ((q :: l : List (SessionState α)) : Multiset (SessionState α)) = sessionsOf gs s.entryId := by
  obtain ⟨l, t, hchain, hl⟩ := h.chain s.entryId
  have hin : s ∈ l := by
    rw [← Multiset.mem_coe, hl]
    exact mem_sessionsOf.mpr ⟨hs, rfl⟩
  cases l with
  | nil => cases hin
  | cons q l =>
    have hq : q ∈ sessionsOf gs s.entryId := hl ▸ Multiset.mem_coe.mpr List.mem_cons_self
    obtain ⟨hqueued, hid⟩ := mem_sessionsOf.mp hq
    exact ⟨q, l, t, hqueued, hid, hchain, hin, hl⟩

/-- The session that the search selects is the head of its chain. -/
theorem Draining.selects_head {r m : ℕ → ℕ} (h : Draining gs r m) (hcal : CalendarInv gs)
    (hn : gs.numBins ≤ 32768) {vt : ℕ} {s : SessionState α}
    (hfind : findEligibleMinBitfield gs vt = some s) :
    ∃ l t, Chain (r s.entryId) (s :: l) t ∧
      ((s :: l : List (SessionState α)) : Multiset (SessionState α)) = sessionsOf gs s.entryId := by
  obtain ⟨hs, hvt, -⟩ := findEligible_some hcal hfind
  obtain ⟨q, l, t, hq, -, hchain, hin, hl⟩ := h.head hs
  rcases List.mem_cons.mp hin with rfl | hin
  · exact ⟨l, t, hchain, hl⟩
  · -- a later session of the chain starts after the head has finished
    exfalso
    have hlater := hchain.2.2.2.le hin
    have hhead := hchain.le List.mem_cons_self
    have hleast := findEligible_some_least hcal hn hfind q hq (by omega)
    omega

theorem Draining.dequeued {r m : ℕ → ℕ} (h : Draining gs r m) (hcal : CalendarInv gs)
    (hn : gs.numBins ≤ 32768) {s : SessionState α}
    (hfind : findEligibleMinBitfield gs (dequeueTime gs) = some s) :
    Draining (dequeued gs s)
      (fun i => r i + if s.entryId = i then s.serviceInterval else 0) m := by
  obtain ⟨hs, hvt, -⟩ := findEligible_some hcal hfind
  obtain ⟨l, t, ⟨hstart, hfinish, hpos, hrest⟩, hl⟩ := h.selects_head hcal hn hfind
  have hq := dequeued_queued hcal hs
  have hsub : ∀ u ∈ (Hwfq.dequeued gs s).queued, u ∈ gs.queued := fun u hu =>
    hq ▸ Multiset.mem_cons_of_mem hu
  refine ⟨fun i => ?_, fun u hu => h.bound u (hsub u hu), fun i u hu => ?_⟩
  · by_cases hi : s.entryId = i
    · subst hi
      refine ⟨l, t, by rwa [if_pos rfl, ← hfinish], ?_⟩
      rw [sessionsOf_cons hq, if_pos rfl, ← Multiset.cons_coe, Multiset.cons_inj_right] at hl
      exact hl
    · obtain ⟨l', t', hchain', hl'⟩ := h.chain i
      refine ⟨l', t', by rwa [if_neg hi], ?_⟩
      rw [hl', sessionsOf_cons hq, if_neg hi]
  · have hclose := h.close i u (hsub u hu)
    have hms := h.bound s hs
    by_cases hi : s.entryId = i
    · subst hi
      by_cases hu' : s.entryId = u.entryId
      · rw [if_pos rfl, if_pos hu', ← hu']
        omega
      · -- the head of the other entry starts later or finishes no earlier
        obtain ⟨q, l', t', hqq, hqid, ⟨hqs, hqf, -, -⟩, -⟩ := h.head (hsub u hu)
        have hmq := h.bound q hqq
        have hrule := findEligible_some_least hcal hn hfind q hqq
        rw [hqid] at hmq
        rw [if_pos rfl, if_neg hu']
        rcases Nat.lt_or_ge (dequeueTime gs) q.startTime with hlate | hearly
        · omega
        · have := hrule hearly
          omega
    · rw [if_neg hi]
      split_ifs <;> omega

theorem Draining.step {st : GroupState α} {r m : ℕ → ℕ} (h : Draining st.gs r m)
    (hsearch : Searchable st) {c : GroupCall α} (hc : c.Drains) (hbelow : BelowRebase st c) :
    Draining (st.step c).gs (fun i => r i + serviceReceived i [st.returned c]) m := by
  cases hsearch.inv.stepEffect c with
  | missed _ _ returned after =>
    have hret : st.returned .dequeue = none := returned
    rw [after, hret]
    exact ⟨h.chain, h.bound, h.close⟩
  | @dequeued s _ found returned after =>
    have hret : st.returned .dequeue = some s := returned
    have hd := h.dequeued hsearch.inv.calendar hsearch.bins found
    rw [after, hret]
    simpa only [serviceReceived_some, serviceReceived_nil, Nat.add_zero] using hd
  | @updated w after =>
    have hq : (st.step (.updateVirtualTime w)).gs.queued = st.gs.queued := by
      have hlt : advancedVirtualTime st.gs w.toNat < rebaseThreshold := hbelow
      rw [after, updateVirtualTime_queued, updateOffset, rebaseOffsetAt, if_pos hlt]
      simp only [SessionState.rebase_zero, Multiset.map_id']
    constructor
    · intro i
      obtain ⟨l, t, hchain, hl⟩ := h.chain i
      exact ⟨l, t, hchain, by rw [hl, sessionsOf, sessionsOf, hq]⟩
    · intro s hs
      exact h.bound s (hq ▸ hs)
    · intro i s hs
      exact h.close i s (hq ▸ hs)
  | _ => exact hc.elim

theorem serviceReceived_cons (i : ℕ) (o : Option (SessionState α))
    (l : List (Option (SessionState α))) :
    serviceReceived i (o :: l) = serviceReceived i [o] + serviceReceived i l := by
  cases o with
  | none => rw [serviceReceived_none, serviceReceived_none, serviceReceived_nil, Nat.zero_add]
  | some s => rw [serviceReceived_some, serviceReceived_some, serviceReceived_nil, Nat.add_zero]

theorem Draining.run {st : GroupState α} {r m : ℕ → ℕ} (h : Draining st.gs r m)
    (hsearch : Searchable st) {drain : List (GroupCall α)} (hdrain : ∀ c ∈ drain, c.Drains)
    (hbelow : Along GroupState.step BelowRebase st drain) :
    Draining (GuardedRuns.run GroupState.step st drain).gs
      (fun i => r i + serviceReceived i (outputs GroupState.step GroupState.returned st drain)) m := by
  induction drain generalizing st r with
  | nil => exact h
  | cons c drain ih =>
    have hstep := h.step hsearch (hdrain c List.mem_cons_self) hbelow.1
    have hrest := ih hstep (hsearch.step c) (fun d hd => hdrain d (List.mem_cons_of_mem c hd))
      hbelow.2
    have hsum : (fun i => r i + serviceReceived i
        (outputs GroupState.step GroupState.returned st (c :: drain))) = fun i =>
        r i + serviceReceived i [st.returned c] + serviceReceived i
          (outputs GroupState.step GroupState.returned (st.step c) drain) :=
      funext fun i => by rw [outputs, serviceReceived_cons, Nat.add_assoc]
    rw [hsum]
    exact hrest

/-! ## The bound -/

theorem Fresh.unloaded {numGroups binsPerGroup totalCapacity maxEntries : ℕ} {st : GroupState α}
    (h : Fresh numGroups binsPerGroup totalCapacity maxEntries st) : Unloaded st.gs :=
  ⟨h.queued, h.virtualTime, fun id e he => by simp [h.activeEntry] at he⟩

theorem Unloaded.run {st : GroupState α} (hsearch : Searchable st) (h : Unloaded st.gs)
    {configs : List (GroupCall α)} (hconfigs : ∀ c ∈ configs, c.Configures) :
    Unloaded (GuardedRuns.run GroupState.step st configs).gs := by
  induction configs generalizing st with
  | nil => exact h
  | cons c configs ih =>
    refine ih (hsearch.step c) ?_ fun d hd => hconfigs d (List.mem_cons_of_mem c hd)
    have hc := hconfigs c List.mem_cons_self
    cases c with
    | configureEntry id a => exact h.configure hsearch.inv _ a
    | _ => exact hc.elim

theorem Loaded.run {st : GroupState α} (h : Loaded st.gs) {work : List (GroupCall α)}
    (hwork : ∀ c ∈ work, c.Loads) : Loaded (GuardedRuns.run GroupState.step st work).gs := by
  induction work generalizing st with
  | nil => exact h
  | cons c work ih =>
    refine ih ?_ fun d hd => hwork d (List.mem_cons_of_mem c hd)
    have hc := hwork c List.mem_cons_self
    cases c with
    | enqueue id w ud cf => exact h.enqueue _ _ ud cf
    | _ => exact hc.elim

theorem Loaded.draining (h : Loaded gs) (huncapped : Uncapped gs) :
    Draining gs (fun _ => 0) (largestInterval gs) := by
  have hbound : ∀ s ∈ gs.queued, s.serviceInterval ≤ largestInterval gs s.entryId := fun s hs =>
    Multiset.le_sup (Multiset.mem_map_of_mem _ (mem_sessionsOf.mpr ⟨hs, rfl⟩))
  refine ⟨fun i => ?_, hbound, fun i s hs => ?_⟩
  · obtain ⟨l, t, hchain, hl, -⟩ := h.chain huncapped i
    exact ⟨l, t, hchain, hl⟩
  · obtain ⟨l, t, hchain, hl, -⟩ := h.chain huncapped s.entryId
    have hin : s ∈ l := by
      rw [← Multiset.mem_coe, hl]
      exact mem_sessionsOf.mpr ⟨hs, rfl⟩
    have := hchain.le hin
    have := huncapped s hs
    have := hbound s hs
    omega

/-- Configure, load, drain: at every point of the drain the service of two backlogged
entries differs by less than the sum of their largest intervals. -/
theorem service_within_two_intervals {binsPerGroup totalCapacity maxEntries : ℕ}
    {st₀ : GroupState α} (hfresh : Fresh 16 binsPerGroup totalCapacity maxEntries st₀)
    (hbins : binsPerGroup ≤ 2048) {configs work drain : List (GroupCall α)}
    (hconfigs : ∀ c ∈ configs, c.Configures) (hwork : ∀ c ∈ work, c.Loads)
    (hdrain : ∀ c ∈ drain, c.Drains) {loaded : GroupState α}
    (hloaded : loaded = run GroupState.step (run GroupState.step st₀ configs) work)
    (huncapped : Uncapped loaded.gs) (hbelow : Along GroupState.step BelowRebase loaded drain)
    {i j : ℕ} (hi : ∃ s ∈ (run GroupState.step loaded drain).gs.queued, s.entryId = i)
    (hj : ∃ s ∈ (run GroupState.step loaded drain).gs.queued, s.entryId = j) :
    serviceReceived i (outputs GroupState.step GroupState.returned loaded drain) <
        serviceReceived j (outputs GroupState.step GroupState.returned loaded drain) +
          (largestInterval loaded.gs i + largestInterval loaded.gs j) ∧
      serviceReceived j (outputs GroupState.step GroupState.returned loaded drain) <
        serviceReceived i (outputs GroupState.step GroupState.returned loaded drain) +
          (largestInterval loaded.gs i + largestInterval loaded.gs j) := by
  have hsearch := hfresh.searchable (numBins_le_of_default hfresh hbins)
  have hload : Loaded loaded.gs := hloaded ▸ (hfresh.unloaded.run hsearch hconfigs).loaded.run hwork
  have hsearch' : Searchable loaded := hloaded ▸ (hsearch.run configs).run work
  have hdone := (hload.draining huncapped).run hsearch' hdrain hbelow
  obtain ⟨s, hs, rfl⟩ := hi
  obtain ⟨t, ht, rfl⟩ := hj
  have hst := hdone.close s.entryId t ht
  have hts := hdone.close t.entryId s hs
  omega

/-- A rate and a weight. -/
def mixedConfigs : List (GroupCall ℕ) :=
  [.configureEntry 0 (.rate 20), .configureEntry 1 (.weight 3)]

def mixedWork : List (GroupCall ℕ) :=
  [.enqueue 0 5 (some 1) false, .enqueue 0 7 (some 2) false, .enqueue 1 9 (some 3) false,
    .enqueue 1 2 (some 4) false]

def mixedDrain : List (GroupCall ℕ) := [.dequeue, .updateVirtualTime 9, .dequeue]

theorem service_within_two_intervals_mixed :
    serviceReceived 0 (outputs GroupState.step GroupState.returned
        (run GroupState.step (run GroupState.step smallGroup mixedConfigs) mixedWork) mixedDrain) <
      serviceReceived 1 (outputs GroupState.step GroupState.returned
        (run GroupState.step (run GroupState.step smallGroup mixedConfigs) mixedWork) mixedDrain) +
        (largestInterval (run GroupState.step (run GroupState.step smallGroup mixedConfigs)
            mixedWork).gs 0 +
          largestInterval (run GroupState.step (run GroupState.step smallGroup mixedConfigs)
            mixedWork).gs 1) := by
  refine (service_within_two_intervals smallGroup_fresh (by decide) ?_ ?_ ?_ rfl ?_ ?_ ?_ ?_).1
  · simp [mixedConfigs, GroupCall.Configures]
  · simp [mixedWork, GroupCall.Loads]
  · simp [mixedDrain, GroupCall.Drains]
  · unfold Uncapped
    decide +kernel
  · refine ⟨trivial, ?_, trivial, trivial⟩
    unfold BelowRebase
    decide +kernel
  · exact backlogged_iff.mpr (by decide +kernel)
  · exact backlogged_iff.mpr (by decide +kernel)

end Hwfq
