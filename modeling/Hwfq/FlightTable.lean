import Hwfq.FlightLinks
import Hwfq.SchedulerRuns

/-!
# The in-flight table over whole runs

A scheduler with the pointers of its in-flight table is one machine. In every state
the pointers thread one list and its chains, the totals are those of the list, and
the two calls that end one session find what they look for in the list and take out
nothing else.
-/
namespace Hwfq
open GuardedRuns LinkedChains Bins

variable {s s' : Scheduler} {c : Call} {r : Response} {m : FlightLinks}

structure TableState where
  scheduler : Scheduler
  links : FlightLinks

/-- The pointer code of a call on the table. Walks are bounded by the number of objects
allocated so far. -/
def TableState.step (st : TableState) (c : Call) : TableState where
  scheduler := after st.scheduler c
  links :=
    match c with
    | .dequeue out now =>
        if (respond st.scheduler (.dequeue out now)).status = .success then
          match (after st.scheduler (.dequeue out now)).inFlight.getLast? with
          | some entry => st.links.insert entry
          | none => st.links
        else st.links
    | .complete i f work | .cancel i f work =>
        match inFlightLookup st.scheduler work i.toNat f.toNat with
        | some found => st.links.remove st.scheduler.mem.next found
        | none => st.links
    | .checkTimeouts now =>
        (FlightLinks.sweep now.toNat st.scheduler.mem.next st.scheduler.mem.next st.links.head
          (none, st.links)).2
    | _ => st.links

/-- Every pointer of the table of a new scheduler is NULL. -/
def emptyTable : FlightLinks where
  hashHeads _ := none
  hashNext _ := none
  head := none
  tail := none
  listNext _ := none
  listPrev _ := none
  entry _ := none

structure TableInv (st : TableState) : Prop where
  inv : SchedulerInv st.scheduler
  threads : Threads st.links st.scheduler.inFlight st.scheduler.inFlightHash

/-! ## What a call does to the table -/

/-- The calls that touch the table. -/
def Call.movesInFlight : Call → Bool
  | .dequeue .. | .complete .. | .cancel .. | .checkTimeouts .. => true
  | _ => false

theorem Effect.table_same (h : Effect s c r s') (hc : c.movesInFlight = false) :
    s'.inFlight = s.inFlight ∧ s'.inFlightHash = s.inFlightHash := by
  cases h with
  | idle _ _ tokens => exact ⟨tokens.inFlight, tokens.inFlightHash⟩
  | added admits => exact ⟨admits.inFlight, admits.inFlightHash⟩
  | reallocated => exact ⟨rfl, rfl⟩
  | removed => exact ⟨rfl, rfl⟩
  | flows _ change => exact ⟨change.inFlight, change.inFlightHash⟩
  | accepted _ _ _ _ _ _ changes => exact ⟨changes.inFlight, changes.inFlightHash⟩
  | rejected _ _ _ _ changes => exact ⟨changes.inFlight, changes.inFlightHash⟩
  | reset reset =>
    rw [reset.same]
    exact ⟨rfl, rfl⟩
  | missed => cases hc
  | putBack => cases hc
  | delivered => cases hc
  | completed => cases hc
  | cancelled => cases hc
  | timedOut => cases hc

/-- A dequeue inserts one entry when it succeeds and does nothing else to the table. -/
theorem Effect.table_dequeue {out : Bool} {now : UInt64} (h : Effect s (.dequeue out now) r s') :
    (r.status ≠ .success ∧ s'.inFlight = s.inFlight ∧ s'.inFlightHash = s.inFlightHash) ∨
      (r.status = .success ∧ ∃ entry : InFlightEntry, s.mem.next ≤ entry.addr ∧
        s'.inFlight = (inFlightInsert s entry).inFlight ∧
        s'.inFlightHash = (inFlightInsert s entry).inFlightHash) := by
  cases h with
  | idle failed _ tokens => exact .inl ⟨failed, tokens.inFlight, tokens.inFlightHash⟩
  | flows update => cases update
  | missed _ _ failed _ changes => exact .inl ⟨failed, changes.inFlight, changes.inFlightHash⟩
  | putBack taken before failed =>
    have hchanges := before.changes_all taken
    exact .inl ⟨failed, hchanges.inFlight, hchanges.inFlightHash⟩
  | delivered taken delivers =>
    obtain ⟨addr, hnew, hlist, hhash⟩ := delivers.inFlight
    exact .inr ⟨rfl, _, hnew, hlist, hhash⟩

/-- The two calls that end one session. -/
inductive EndsOne : Call → UInt32 → UInt32 → Option Session → Prop
  | complete (i f work) : EndsOne (.complete i f work) i f work
  | cancel (i f work) : EndsOne (.cancel i f work) i f work

/-- A call that ends one session answers as its lookup does. -/
theorem endsOne_cases (h : SchedulerInv s) {i f : UInt32} {work : Option Session}
    (hc : EndsOne c i f work) :
    (inFlightLookup s work i.toNat f.toNat = none ∧ (respond s c).status = .notFound ∧
        after s c = s) ∨
      ∃ found, inFlightLookup s work i.toNat f.toNat = some found ∧
        (respond s c).status = .success ∧ found ∈ s.inFlight ∧
        (after s c).inFlight = (inFlightRemove s found).inFlight ∧
        (after s c).inFlightHash = (inFlightRemove s found).inFlightHash := by
  cases hc with
  | complete =>
    obtain ⟨-, ⟨hnone, heq⟩ | ⟨found, cores, hfound, hok, -, hends⟩⟩ :=
      h.complete work i.toNat f.toNat
    · left
      simp only [respond, after, exec, heq]
      exact ⟨hnone, trivial, trivial⟩
    · right
      simp only [respond, after, exec]
      exact ⟨found, hfound, hok, hends.mem_inFlight, hends.inFlight, hends.inFlightHash⟩
  | cancel =>
    obtain ⟨-, ⟨hnone, heq⟩ | ⟨found, hfound, hok, hends⟩⟩ := h.cancel work i.toNat f.toNat
    · left
      simp only [respond, after, exec, heq]
      exact ⟨hnone, trivial, trivial⟩
    · right
      simp only [respond, after, exec]
      exact ⟨found, hfound, hok, hends.mem_inFlight, hends.inFlight, hends.inFlightHash⟩

theorem TableInv.endsOne {st : TableState} (h : TableInv st) {i f : UInt32}
    {work : Option Session} (hc : EndsOne c i f work) : TableInv (st.step c) := by
  refine ⟨h.inv.after c, ?_⟩
  have hlinks : (st.step c).links = match inFlightLookup st.scheduler work i.toNat f.toNat with
      | some found => st.links.remove st.scheduler.mem.next found
      | none => st.links := by
    cases hc <;> rfl
  have hstate : (st.step c).scheduler = after st.scheduler c := rfl
  rw [hlinks, hstate]
  rcases endsOne_cases h.inv hc with ⟨hnone, -, heq⟩ | ⟨found, hfound, -, hin, hlist, hhash⟩
  · rw [hnone, heq]
    exact h.threads
  · rw [hfound, hlist, hhash]
    exact h.threads.remove h.inv.flight hin le_rfl

theorem TableInv.dequeue {st : TableState} (h : TableInv st) (out : Bool) (now : UInt64) :
    TableInv (st.step (.dequeue out now)) := by
  refine ⟨h.inv.after _, ?_⟩
  simp only [TableState.step]
  rcases (h.inv.effect (.dequeue out now)).table_dequeue with
    ⟨hbad, hlist, hhash⟩ | ⟨hok, entry, hnew, hlist, hhash⟩
  · rw [if_neg hbad, hlist, hhash]
    exact h.threads
  · have hlast : (after st.scheduler (.dequeue out now)).inFlight.getLast? = some entry := by
      rw [hlist]
      exact List.getLast?_concat
    have hfresh : entry.addr ∉ st.scheduler.inFlight.map (·.addr) := by
      intro hin
      obtain ⟨e, he, haddr⟩ := List.mem_map.mp hin
      exact absurd (haddr ▸ h.inv.flight.old e he) (Nat.not_lt.mpr hnew)
    rw [if_pos hok, hlast, hlist, hhash]
    exact h.threads.insert h.inv.flight hfresh

theorem TableInv.checkTimeouts {st : TableState} (h : TableInv st) (now : UInt64) :
    TableInv (st.step (.checkTimeouts now)) := by
  refine ⟨h.inv.after _, ?_⟩
  have hhead : st.links.head = (st.scheduler.inFlight.map (·.addr)).head? :=
    Path.first h.threads.list.1
  have hstate : (st.step (.checkTimeouts now)).scheduler =
      (scanTimeouts st.scheduler now.toNat).2 := rfl
  rw [hstate, scanTimeouts_eq]
  simp only [TableState.step]
  rw [hhead]
  have hsplit : st.scheduler.inFlight = [] ++ st.scheduler.inFlight := rfl
  exact h.threads.sweep h.inv.flight le_rfl hsplit h.inv.flight.length_le none []

theorem TableInv.step {st : TableState} (h : TableInv st) (c : Call) : TableInv (st.step c) := by
  have hsame : c.movesInFlight = false → (st.step c).links = st.links → TableInv (st.step c) := by
    intro hc hlinks
    obtain ⟨hlist, hhash⟩ := (h.inv.effect c).table_same hc
    refine ⟨h.inv.after c, ?_⟩
    have hstate : (st.step c).scheduler = after st.scheduler c := rfl
    rw [hlinks, hstate, hlist, hhash]
    exact h.threads
  cases c with
  | dequeue out now => exact h.dequeue out now
  | complete i f work => exact h.endsOne (.complete i f work)
  | cancel i f work => exact h.endsOne (.cancel i f work)
  | checkTimeouts now => exact h.checkTimeouts now
  | addTenant a out => exact hsame rfl rfl
  | configureTenant i a => exact hsame rfl rfl
  | removeTenant i => exact hsame rfl rfl
  | addFlow i a out => exact hsame rfl rfl
  | reconfigureFlow i f a => exact hsame rfl rfl
  | removeFlow i f => exact hsame rfl rfl
  | enqueue i f work now => exact hsame rfl rfl
  | resetStats i f => exact hsame rfl rfl

/-! ## Lookup -/

/-- The user data that a call names; 0 is NULL. -/
def userDataOf (work : Option Session) : UserData :=
  match work with
  | some w => w.userData.toNat
  | none => 0

/-- The entries that a call may end. -/
structure Matches (work : Option Session) (tenantId flowId : ℕ) (e : InFlightEntry) : Prop where
  tenant : e.tenantId = tenantId
  flow : e.flowId = flowId
  userData : userDataOf work ≠ 0 → e.userData = userDataOf work

theorem inFlightLookup_none {mem : Allocator} (h : FlightInv mem s.inFlight s.inFlightHash)
    {work : Option Session} {tenantId flowId : ℕ}
    (hnone : inFlightLookup s work tenantId flowId = none) :
    ∀ e ∈ s.inFlight, ¬ Matches work tenantId flowId e := by
  have heq : inFlightLookup s work tenantId flowId =
      if userDataOf work ≠ 0 then inFlightFind s (userDataOf work) tenantId flowId
      else s.inFlight.find? fun e =>
        decide (e.tenantId = tenantId) && decide (e.flowId = flowId) := rfl
  intro e he hmatch
  rw [heq] at hnone
  split_ifs at hnone with hdata
  · have hin : e ∈ s.inFlightHash (hashUserData (userDataOf work)) := by
      rw [h.chains, hmatch.userData hdata]
      exact ⟨he, rfl⟩
    have hfail := List.find?_eq_none.mp hnone e hin
    simp [hmatch.tenant, hmatch.flow, hmatch.userData hdata] at hfail
  · have hfail := List.find?_eq_none.mp hnone e he
    simp [hmatch.tenant, hmatch.flow] at hfail

/-- What a lookup finds matches; without user data it is the first that does. -/
theorem inFlightLookup_matches {work : Option Session} {tenantId flowId : ℕ}
    {found : InFlightEntry} (hfound : inFlightLookup s work tenantId flowId = some found) :
    Matches work tenantId flowId found ∧
      (userDataOf work = 0 → ∃ l₁ l₂, s.inFlight = l₁ ++ found :: l₂ ∧
        ∀ d ∈ l₁, ¬ Matches work tenantId flowId d) := by
  have heq : inFlightLookup s work tenantId flowId =
      if userDataOf work ≠ 0 then inFlightFind s (userDataOf work) tenantId flowId
      else s.inFlight.find? fun e =>
        decide (e.tenantId = tenantId) && decide (e.flowId = flowId) := rfl
  rw [heq] at hfound
  split_ifs at hfound with hdata
  · have hp := List.find?_some hfound
    simp only [Bool.and_eq_true, decide_eq_true_eq] at hp
    exact ⟨⟨hp.1.2, hp.2, fun _ => hp.1.1⟩, fun hzero => absurd hzero hdata⟩
  · obtain ⟨hp, l₁, l₂, hsplit, hbefore⟩ := List.find?_eq_some_iff_append.mp hfound
    simp only [Bool.and_eq_true, decide_eq_true_eq] at hp
    refine ⟨⟨hp.1, hp.2, fun hne => absurd hne hdata⟩, fun _ => ⟨l₁, l₂, hsplit, ?_⟩⟩
    intro d hd hmatch
    have hfail := hbefore d hd
    simp [hmatch.tenant, hmatch.flow] at hfail

/-! ## The table is exact -/

/-- The list, the chains and the totals of the table, in the model and in memory. -/
structure TableExact (s : Scheduler) (m : FlightLinks) : Prop where
  next : Path m.listNext m.head (s.inFlight.map (·.addr)) none
  prev : Path m.listPrev m.tail (s.inFlight.map (·.addr)).reverse none
  chain : ∀ b, Path m.hashNext (m.hashHeads b) ((s.inFlightHash b).map (·.addr)) none
  objects : ∀ e ∈ s.inFlight, m.entry e.addr = some e
  once : (s.inFlight.map (·.addr)).Nodup ∧ ∀ b, ((s.inFlightHash b).map (·.addr)).Nodup
  same : ∀ b e, e ∈ s.inFlightHash b ↔ e ∈ s.inFlight ∧ hashUserData e.userData = b
  count : s.inFlight.length < 4294967296 → s.inFlightCount = s.inFlight.length
  workSize : s.inFlightWorkSize = (s.inFlight.map (·.workSize)).sum % 18446744073709551616

/-- `e` leaves the list and its chain, everything else stays where it is. -/
structure TakesOutEntry (s s' : Scheduler) (e : InFlightEntry) : Prop where
  list : ∃ l₁ l₂, s.inFlight = l₁ ++ e :: l₂ ∧ s'.inFlight = l₁ ++ l₂
  chain : ∃ k₁ k₂, s.inFlightHash (hashUserData e.userData) = k₁ ++ e :: k₂ ∧
    s'.inFlightHash (hashUserData e.userData) = k₁ ++ k₂
  others : ∀ b, b ≠ hashUserData e.userData → s'.inFlightHash b = s.inFlightHash b

theorem TableInv.exact {st : TableState} (h : TableInv st) :
    TableExact st.scheduler st.links where
  next := h.threads.list.1
  prev := h.threads.list.2
  chain := h.threads.chains
  objects := h.threads.entries
  once := ⟨h.inv.flight.addrs, h.inv.flight.chainAddrs⟩
  same := h.inv.flight.chains
  count := by
    intro hfew
    rw [h.inv.totals.count]
    unfold u32
    exact Nat.mod_eq_of_lt hfew
  workSize := by
    rw [h.inv.totals.workSize]
    unfold u64
    rfl

theorem SchedulerInv.takesOutEntry (h : SchedulerInv s) {e : InFlightEntry} (he : e ∈ s.inFlight)
    (hlist : s'.inFlight = (inFlightRemove s e).inFlight)
    (hhash : s'.inFlightHash = (inFlightRemove s e).inFlightHash) : TakesOutEntry s s' e := by
  have hin : e ∈ s.inFlightHash (hashUserData e.userData) := (h.flight.chains _ e).mpr ⟨he, rfl⟩
  constructor
  · obtain ⟨l₁, l₂, hsplit, herase⟩ :=
      eraseP_key_split (f := InFlightEntry.addr) h.flight.addrs he
    exact ⟨l₁, l₂, hsplit, hlist.trans herase⟩
  · obtain ⟨k₁, k₂, hsplit, herase⟩ :=
      eraseP_key_split (f := InFlightEntry.addr) (h.flight.chainAddrs _) hin
    refine ⟨k₁, k₂, hsplit, ?_⟩
    rw [hhash]
    simp only [inFlightRemove]
    rw [Function.update_self]
    exact herase
  · intro b hb
    rw [hhash]
    exact Function.update_of_ne hb _ _

/-- The answer of complete and cancel. -/
structure EndsExactly (s : Scheduler) (c : Call) (i f : ℕ) (work : Option Session) : Prop where
  success_iff : (respond s c).status = .success ↔ ∃ e ∈ s.inFlight, Matches work i f e
  success : (respond s c).status = .success → ∃ e ∈ s.inFlight, Matches work i f e ∧
    TakesOutEntry s (after s c) e ∧
    (userDataOf work = 0 → ∃ l₁ l₂, s.inFlight = l₁ ++ e :: l₂ ∧ ∀ d ∈ l₁, ¬ Matches work i f d)
  failure : (respond s c).status ≠ .success →
    (respond s c).status = .notFound ∧ after s c = s

theorem SchedulerInv.endsExactly (h : SchedulerInv s) {i f : UInt32} {work : Option Session}
    (hc : EndsOne c i f work) : EndsExactly s c i.toNat f.toNat work := by
  rcases endsOne_cases h hc with ⟨hnone, hstatus, hsame⟩ | ⟨e, hfound, hok, he, hlist, hhash⟩
  · have hno := inFlightLookup_none h.flight hnone
    constructor
    · rw [hstatus]
      refine iff_of_false (by simp) ?_
      rintro ⟨e, he, hmatch⟩
      exact hno e he hmatch
    · intro hok
      rw [hstatus] at hok
      cases hok
    · intro _
      exact ⟨hstatus, hsame⟩
  · obtain ⟨hmatch, hfirst⟩ := inFlightLookup_matches hfound
    constructor
    · exact iff_of_true hok ⟨e, he, hmatch⟩
    · intro _
      exact ⟨e, he, hmatch, h.takesOutEntry he hlist hhash, hfirst⟩
    · intro hbad
      exact absurd hok hbad

/-! ## The order of the list -/

/-- The entry that a call puts into the table. -/
def newEntry (s : Scheduler) (c : Call) : Option InFlightEntry :=
  match c with
  | .dequeue .. =>
      if (respond s c).status = .success then (after s c).inFlight.getLast? else none
  | _ => none

/-- The entries of a run in the order of their dequeues. -/
def entriesMade (s : Scheduler) (calls : List Call) : List InFlightEntry :=
  (outputs after newEntry s calls).flatMap Option.toList

theorem scan_sublist (now : ℕ) (l found : List InFlightEntry) (s : Scheduler) :
    (l.foldl (scanStep now) (found, s)).2.inFlight.Sublist s.inFlight := by
  induction l generalizing found s with
  | nil => exact List.Sublist.refl _
  | cons e l ih =>
    rw [List.foldl_cons, scanStep]
    split_ifs
    · exact (ih _ _).trans List.eraseP_sublist
    · exact ih _ _

theorem SchedulerInv.inFlight_order (h : SchedulerInv s) (c : Call) :
    (Hwfq.after s c).inFlight.Sublist (s.inFlight ++ (newEntry s c).toList) := by
  have hkept : ∀ {l : List InFlightEntry}, l.Sublist s.inFlight →
      l.Sublist (s.inFlight ++ (newEntry s c).toList) := by
    intro l hl
    exact hl.trans (List.sublist_append_left _ _)
  have hends : ∀ {i f work}, EndsOne c i f work →
      (Hwfq.after s c).inFlight.Sublist (s.inFlight ++ (newEntry s c).toList) := by
    intro i f work hc
    apply hkept
    rcases endsOne_cases h hc with ⟨-, -, hsame⟩ | ⟨e, -, -, -, hlist, -⟩
    · rw [hsame]
    · rw [hlist]
      exact List.eraseP_sublist
  have hsame : c.movesInFlight = false →
      (Hwfq.after s c).inFlight.Sublist (s.inFlight ++ (newEntry s c).toList) := by
    intro hc
    apply hkept
    rw [((h.effect c).table_same hc).1]
  cases c with
  | dequeue out now =>
    rcases (h.effect (.dequeue out now)).table_dequeue with ⟨-, hlist, -⟩ | ⟨hok, e, -, hlist, -⟩
    · apply hkept
      rw [hlist]
    · have hlast : (Hwfq.after s (.dequeue out now)).inFlight.getLast? = some e := by
        rw [hlist]
        exact List.getLast?_concat
      rw [newEntry, if_pos hok, hlast, hlist]
      exact List.Sublist.refl _
  | complete i f work => exact hends (.complete i f work)
  | cancel i f work => exact hends (.cancel i f work)
  | checkTimeouts now => exact hkept (scan_sublist now.toNat s.inFlight [] s)
  | addTenant a out => exact hsame rfl
  | configureTenant i a => exact hsame rfl
  | removeTenant i => exact hsame rfl
  | addFlow i a out => exact hsame rfl
  | reconfigureFlow i f a => exact hsame rfl
  | removeFlow i f => exact hsame rfl
  | enqueue i f work now => exact hsame rfl
  | resetStats i f => exact hsame rfl

theorem SchedulerInv.run_order (h : SchedulerInv s) (calls : List Call) :
    (Hwfq.afterRun s calls).inFlight.Sublist (s.inFlight ++ entriesMade s calls) := by
  induction calls generalizing s with
  | nil => simp [Hwfq.afterRun, entriesMade]
  | cons c calls ih =>
    have hrest := ih (h.after c)
    have hstep := h.inFlight_order c
    have hsplit : entriesMade s (c :: calls) =
        (newEntry s c).toList ++ entriesMade (Hwfq.after s c) calls := by
      rw [entriesMade, outputs_cons, List.flatMap_cons]
      rfl
    refine hrest.trans ?_
    rw [hsplit, ← List.append_assoc]
    exact hstep.append (List.Sublist.refl _)

theorem NewScheduler.tableInv (h : NewScheduler s) : TableInv ⟨s, emptyTable⟩ := by
  refine ⟨h.inv, ?_⟩
  have hhash : s.inFlightHash = fun _ => [] := h.inFlightHash
  rw [h.inFlight, hhash]
  refine ⟨⟨rfl, rfl⟩, fun b => rfl, ?_⟩
  intro e he
  cases he

theorem run_scheduler (st : TableState) (calls : List Call) :
    (run TableState.step st calls).scheduler = afterRun st.scheduler calls :=
  @run_project _ _ after _ TableState.step TableState.scheduler (fun _ _ => rfl) st calls

/-- In every state of every run the table is exact, its list is in the order of the
dequeues, and complete and cancel answer and act as the list says. -/
theorem in_flight_table_exact (h : Made s) (calls : List Call) :
    let st := run TableState.step ⟨s, emptyTable⟩ calls
    st.scheduler = afterRun s calls ∧ TableExact st.scheduler st.links ∧
      st.scheduler.inFlight.Sublist (entriesMade s calls) ∧
      ∀ c i f work, EndsOne c i f work →
        EndsExactly st.scheduler c i.toNat f.toNat work := by
  obtain ⟨mem, config, hinit⟩ := h
  have hnew := hwfqInit_success hinit
  have hrun : TableInv (run TableState.step ⟨s, emptyTable⟩ calls) :=
    run_invariant_all (fun _ c hst => hst.step c) hnew.tableInv calls
  have hstate := run_scheduler ⟨s, emptyTable⟩ calls
  have horder := hnew.inv.run_order calls
  rw [hnew.inFlight, List.nil_append, ← hstate] at horder
  refine ⟨hstate, hrun.exact, horder, ?_⟩
  intro c i f work hc
  exact hrun.inv.endsExactly hc

theorem in_flight_table_exact_small :
    let calls : List Call := [.addTenant (some (.weight 1)) true, .addFlow 0 (some (.weight 1)) true,
      .enqueue 0 1 (some { userData := 7, workSize := 6 }) 0,
      .enqueue 0 1 (some { userData := 7, workSize := 5 }) 0, .dequeue true 0, .dequeue true 0,
      .complete 0 1 (some { userData := 7, workSize := 6 })]
    let st := run TableState.step ⟨smallScheduler, emptyTable⟩ calls
    st.scheduler = afterRun smallScheduler calls ∧ TableExact st.scheduler st.links ∧
      st.scheduler.inFlight.Sublist (entriesMade smallScheduler calls) ∧
      ∀ c i f work, EndsOne c i f work →
        EndsExactly st.scheduler c i.toNat f.toNat work :=
  in_flight_table_exact smallScheduler_made _

end Hwfq
