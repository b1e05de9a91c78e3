import Hwfq.SlotStatistics

/-!
# Calls that fail

Several calls change something before their last check and undo it when the check fails.
What can be seen of the scheduler afterwards is what was there before; memory may have
been taken, and an entry store may have grown.
-/
namespace Hwfq
open GuardedRuns

/-! ## One group scheduler -/

/-- The id that the store hands out next. -/
def nextId (ce : ChunkedEntries) : ℕ :=
  if ce.freeHead = entryNone then ce.numAllocated else ce.freeHead

/-- The same entries are configured, the same sessions queued, all sums and times are the
same, and the same id comes next. -/
structure SameEntries {α : Type*} (gs gs' : GroupScheduler α) : Prop where
  rest : gs' = { gs with entries := gs'.entries }
  find : ∀ id, groupSchedulerFindEntry gs' id = groupSchedulerFindEntry gs id
  numConfigured : gs'.entries.numConfigured = gs.entries.numConfigured
  maxEntries : gs'.entries.maxEntries = gs.entries.maxEntries
  nextId : nextId gs'.entries = nextId gs.entries

section Entries
variable {α : Type*} {gs : GroupScheduler α} {ce : ChunkedEntries} {mem₀ : Allocator}
  {live : Finset ℕ}

theorem SameEntries.refl (gs : GroupScheduler α) : SameEntries gs gs :=
  ⟨rfl, fun _ => rfl, rfl, rfl, rfl⟩

theorem allocFresh_counters (mem : Allocator) (ce : ChunkedEntries) (hempty : ce.freeHead = entryNone) :
    (∀ ret, (allocFresh mem ce).1 = .error ret → SameCounters ce (allocFresh mem ce).2.2) ∧
      ∀ id, (allocFresh mem ce).1 = .ok id → id = nextId ce ∧
        (allocFresh mem ce).2.2.numConfigured = ce.numConfigured + 1 := by
  have hnext : nextId ce = ce.numAllocated := if_pos hempty
  obtain ⟨ce₁, -, hcount, -, -, ⟨ret, hret, heq⟩ | ⟨hret, -, -, heq⟩⟩ := allocFresh_cases mem ce
  · rw [hret, heq]
    exact ⟨fun _ _ => hcount, fun id hid => nomatch hid⟩
  · rw [hret, heq, hnext]
    constructor
    · intro ret hbad
      cases hbad
    · intro id hid
      exact ⟨(Except.ok.inj hid).symm, congrArg (· + 1) hcount.numConfigured⟩

/-- A failed request leaves the counters alone; the slot given out is the one announced. -/
theorem entriesAlloc_counters (h : PoolInv ce live) (mem : Allocator) :
    (∀ ret, (hwfqChunkedEntriesAlloc mem ce).1 = .error ret →
        SameCounters ce (hwfqChunkedEntriesAlloc mem ce).2.2) ∧
      ∀ id, (hwfqChunkedEntriesAlloc mem ce).1 = .ok id → id = nextId ce ∧
        (hwfqChunkedEntriesAlloc mem ce).2.2.numConfigured = ce.numConfigured + 1 := by
  unfold hwfqChunkedEntriesAlloc
  by_cases hfull : ce.numConfigured ≥ ce.limit
  · rw [if_pos hfull]
    exact ⟨fun _ _ => .refl ce, fun id hid => nomatch hid⟩
  rw [if_neg hfull]
  by_cases hhead : ce.freeHead = entryNone
  · rw [if_neg (not_not.mpr hhead)]
    exact allocFresh_counters mem ce hhead
  · obtain ⟨entry, hentry, -⟩ := h.takeFree hhead
    have hnext : nextId ce = ce.freeHead := if_neg hhead
    rw [if_pos hhead, hentry, hnext]
    constructor
    · intro ret hbad
      cases hbad
    · intro id hid
      exact ⟨(Except.ok.inj hid).symm, rfl⟩

theorem SameCounters.nextId {ce' : ChunkedEntries} (h : SameCounters ce ce') :
    nextId ce' = Hwfq.nextId ce := by
  rw [Hwfq.nextId, h.freeHead, h.numAllocated, ← Hwfq.nextId]

/-- A slot that could not be had. -/
theorem SameEntries.refused (h : PoolInv gs.entries live) {ret : Status} {mem : Allocator}
    {gs₁ : GroupScheduler α} (halloc : allocEntryOf mem₀ gs = (.error ret, mem, gs₁)) :
    SameEntries gs gs₁ := by
  have hfind := findEntry_alloc h mem₀
  have hcount := (entriesAlloc_counters h mem₀).1 ret (congrArg (·.1) halloc)
  have hgs : (allocEntryOf mem₀ gs).2.2 = gs₁ := congrArg (·.2.2) halloc
  rw [hgs] at hfind
  subst hgs
  exact ⟨rfl, hfind, hcount.numConfigured, hcount.maxEntries, hcount.nextId⟩

/-- A slot that was taken and given back unused. -/
theorem SameEntries.rolledBack (h : PoolInv gs.entries live) {id : ℕ} {mem : Allocator}
    {gs₁ : GroupScheduler α} (halloc : allocEntryOf mem₀ gs = (.ok id, mem, gs₁)) :
    SameEntries gs (freeEntryOf gs₁ id) := by
  have hfind := findEntry_alloc h mem₀
  obtain ⟨hid, hcount⟩ := (entriesAlloc_counters h mem₀).2 id (congrArg (·.1) halloc)
  have hmax := entriesAlloc_maxEntries mem₀ gs.entries
  have hgs : (allocEntryOf mem₀ gs).2.2 = gs₁ := congrArg (·.2.2) halloc
  have hret : (hwfqChunkedEntriesAlloc mem₀ gs.entries).1 = .ok id := congrArg (·.1) halloc
  obtain ⟨-, ⟨ret, hbad, -⟩ | ⟨id', hid', hnew, -, hpool, -⟩⟩ := h.alloc mem₀
  · rw [hret] at hbad
    cases hbad
  obtain rfl : id = id' := Except.ok.inj (hret.symm.trans hid')
  have hnone : groupSchedulerFindEntry gs id = none := find_of_idle (h.idle id hnew)
  have hentries : (hwfqChunkedEntriesAlloc mem₀ gs.entries).2.2 = gs₁.entries :=
    congrArg GroupScheduler.entries hgs
  rw [hentries] at hcount hmax hpool
  have hin : id ∈ insert id live := Finset.mem_insert_self id live
  have hfree := (hpool.free_live hin).2
  have hlt : id ≠ entryNone := by
    have hgt := entryNone_gt
    have hchunks := hpool.chunks
    have hlive := hpool.live_lt id hin
    omega
  rw [hgs] at hfind
  have hfindFree := findEntry_free hpool hin ((hfind id).trans hnone)
  have hrest : gs₁ = { gs with entries := gs₁.entries } := by
    rw [← hgs]
    rfl
  refine ⟨?_, fun j => (hfindFree j).trans (hfind j), ?_, ?_, ?_⟩
  · rw [freeEntryOf, hrest]
  · rw [freeEntryOf, hfree, giveBack]
    dsimp only
    rw [if_pos (by omega), hcount, Nat.add_sub_cancel]
  · rw [freeEntryOf, hfree]
    exact hmax
  · rw [freeEntryOf, hfree, ← hid]
    exact if_neg hlt

end Entries

/-! ## Tenants -/

variable {s s' : Scheduler} {c : Call} {i : ℕ} {t u : Tenant}

structure SameTenant (t t' : Tenant) : Prop where
  rest : t' = { t with flowScheduler := t'.flowScheduler }
  flows : SameEntries t.flowScheduler t'.flowScheduler

/-- A session counted and taken off the counters again. -/
theorem SameTenant.counted (h : BacklogsFit t) (flowId : ℕ) :
    SameTenant t ((t.mapStats flowId Stats.backlogUp).mapStats flowId Stats.backlogDown) := by
  have hcounters : ∀ (t : Tenant) (f : Stats → Stats),
      (t.mapStats flowId f).flowScheduler =
          { t.flowScheduler with entries := (t.mapStats flowId f).flowScheduler.entries } ∧
        SameCounters t.flowScheduler.entries (t.mapStats flowId f).flowScheduler.entries := by
    intro t f
    unfold Tenant.mapStats
    dsimp only
    split_ifs
    · exact ⟨rfl, rfl, rfl, rfl, rfl⟩
    · exact ⟨rfl, .refl _⟩
  obtain ⟨hup, hcountUp⟩ := hcounters t Stats.backlogUp
  obtain ⟨hdown, hcountDown⟩ := hcounters (t.mapStats flowId Stats.backlogUp) Stats.backlogDown
  have hstats : ((t.mapStats flowId Stats.backlogUp).mapStats flowId Stats.backlogDown).stats =
      t.stats := Stats.backlogDown_up t.stats h.tenant
  constructor
  · conv_rhs => rw [← hstats]
    rfl
  · constructor
    · conv_lhs => rw [hdown, hup]
    · intro id
      rw [mapStats_findEntry, mapStats_findEntry, Option.map_map]
      cases hfind : groupSchedulerFindEntry t.flowScheduler id with
      | none => rfl
      | some e =>
        obtain ⟨hget, -⟩ := groupSchedulerFindEntry_some.mp hfind
        have hfit := h.slots id e.stats (by rw [slotStats, hget, Option.map_some])
        by_cases hid : id = flowId
        · simp [hid, Stats.backlogDown_up e.stats hfit]
        · simp [hid]
    · exact hcountDown.numConfigured.trans hcountUp.numConfigured
    · exact hcountDown.maxEntries.trans hcountUp.maxEntries
    · exact hcountDown.nextId.trans hcountUp.nextId

theorem SameTenant.refl (t : Tenant) : SameTenant t t := ⟨rfl, .refl t.flowScheduler⟩

/-! ## The whole scheduler -/

/-- Nothing but memory and unused slots of the entry stores differs. -/
structure SameObservable (s s' : Scheduler) : Prop where
  rest : s' = { s with
    mem := s'.mem
    tenants := s'.tenants
    systemScheduler := s'.systemScheduler }
  system : SameEntries s.systemScheduler s'.systemScheduler
  tenants : ∀ i, Option.Rel SameTenant (s.tenants i) (s'.tenants i)

theorem SameObservable.withSystem (s : Scheduler) (mem : Allocator)
    {system : GroupScheduler TenantPtr} (h : SameEntries s.systemScheduler system) :
    SameObservable s { s with mem := mem, systemScheduler := system } := by
  constructor
  · rfl
  · exact h
  · intro i
    cases s.tenants i with
    | none => exact .none
    | some t => exact .some (.refl t)

theorem SameObservable.withMem (s : Scheduler) (mem : Allocator) :
    SameObservable s { s with mem := mem } := .withSystem s mem (.refl s.systemScheduler)

theorem SameObservable.of_eq (h : s' = s) : SameObservable s s' := by
  subst h
  exact .withMem s' s'.mem

theorem SameObservable.setTenant (ht : s.tenants i = some t) (h : SameTenant t u) (mem : Allocator) :
    SameObservable s ({ s with mem := mem }.setTenant i u) := by
  constructor
  · rfl
  · exact .refl s.systemScheduler
  · intro j
    by_cases hj : j = i
    · subst hj
      have hself : ({ s with mem := mem }.setTenant j u).tenants j = some u :=
        Function.update_self ..
      rw [ht, hself]
      exact .some h
    · have hsame : ({ s with mem := mem }.setTenant i u).tenants j = s.tenants j :=
        Function.update_of_ne hj ..
      rw [hsame]
      exact (SameObservable.withMem s mem).tenants j

theorem FlowsChange.sameObservable {flows : GroupScheduler FlowSessionContext}
    (h : FlowsChange s s' i t flows s.totalActiveFlows) (hflows : SameEntries t.flowScheduler flows) :
    SameObservable s s' := by
  have hset := SameObservable.setTenant h.tenant (u := { t with flowScheduler := flows })
    ⟨rfl, hflows⟩ s'.mem
  have heq : s' = { s with mem := s'.mem }.setTenant i { t with flowScheduler := flows } := by
    obtain ⟨-, htenants, -, -, hconfig, hnum, htotal, hrates, hsystem, hwork, hcount, hhash,
      hlist⟩ := h
    cases s'
    dsimp only at *
    subst hconfig hnum htotal hrates hsystem hwork hcount hhash hlist htenants
    rfl
  rw [heq]
  exact hset

/-! ## The calls -/

theorem SchedulerInv.installTenant_fails (h : SchedulerInv s) (addr : Addr) (a : Allocation)
    (flows : GroupScheduler FlowSessionContext) (hfail : (installTenant s addr a flows).1 ≠ .success) :
    SameObservable s (installTenant s addr a flows).2.2 := by
  obtain ⟨live, hpool, -⟩ := h.system.pooled
  unfold installTenant at hfail ⊢
  cases halloc : allocEntryOf s.mem s.systemScheduler with
  | mk ret r =>
    obtain ⟨mem, system⟩ := r
    rw [halloc] at hfail
    cases ret with
    | error status => exact .withSystem s mem (.refused hpool.pool halloc)
    | ok id =>
      obtain ⟨-, -, -, ⟨ret, hret, -⟩ | ⟨id', hret, -, -, hpool', -⟩⟩ := hpool.alloc (le_refl s.mem.next)
      · rw [halloc] at hret
        cases hret
      rw [halloc] at hpool'
      have hcases := hpool'.configure_cases id a
      have hrolled := SameEntries.rolledBack hpool.pool halloc
      dsimp only at hfail hcases ⊢
      generalize groupSchedulerConfigureEntry system id a = conf at hfail hcases ⊢
      obtain ⟨status, system'⟩ := conf
      rcases hcases with ⟨hbad, heq⟩ | ⟨hok, -⟩
      · dsimp only at hbad heq
        subst heq
        cases status with
        | success => exact absurd rfl hbad
        | _ => exact .withSystem s mem hrolled
      · dsimp only at hok
        subst hok
        exact absurd rfl hfail

theorem SchedulerInv.addTenant_fails (h : SchedulerInv s) (a : Option Allocation) (out : Bool)
    (hfail : (hwfqAddTenant s a out).1 ≠ .success) :
    SameObservable s (hwfqAddTenant s a out).2.2 := by
  rcases addTenant_cases s a out with ⟨status, mem, -, heq⟩ |
    ⟨a, addr, mem₁, flows, mem, -, -, -, hnext, heq⟩
  · rw [heq]
    exact .withMem s mem
  · rw [heq] at hfail ⊢
    have hsame := (h.withMem hnext).installTenant_fails addr a flows hfail
    exact ⟨hsame.rest, hsame.system, hsame.tenants⟩

theorem SchedulerInv.addFlow_fails (h : SchedulerInv s) (i : ℕ) (a : Option Allocation) (out : Bool)
    (hfail : (hwfqAddFlow s i a out).1 ≠ .success) :
    SameObservable s (hwfqAddFlow s i a out).2.2 := by
  rcases (h.addFlow i a out).2 with ⟨-, heq⟩ | ⟨a, t, ret, mem, flows, rfl, ht, -, -, halloc,
    ⟨e, rfl, -, -, hch⟩ | ⟨id, flows', rfl, hconf, ⟨hok, -, -⟩ | ⟨hbad, -, hch⟩⟩⟩
  · exact .of_eq (congrArg Prod.snd heq)
  · obtain ⟨live, hpool⟩ := (h.tenants i t ht).flows.pooled
    exact hch.sameObservable (.refused hpool.pool halloc)
  · exact absurd hok hfail
  · obtain ⟨live, hpool⟩ := (h.tenants i t ht).flows.pooled
    obtain ⟨-, -, -, ⟨ret, hret, -⟩ | ⟨id', hret, -, -, hpool', -⟩⟩ := hpool.alloc (le_refl s.mem.next)
    · rw [halloc] at hret
      cases hret
    rw [halloc] at hpool'
    rcases hpool'.configure_cases id a with ⟨-, heq⟩ | ⟨hok, -⟩
    · rw [hconf] at heq
      dsimp only at heq
      subst heq
      exact hch.sameObservable (.rolledBack hpool.pool halloc)
    · rw [hconf] at hok
      exact absurd hok hbad

theorem SchedulerInv.reconfigureFlow_fails (h : SchedulerInv s) (i f : ℕ) (a : Option Allocation)
    (hfail : (hwfqReconfigureFlow s i f a).1 ≠ .success) :
    SameObservable s (hwfqReconfigureFlow s i f a).2 := by
  rcases (h.reconfigureFlow i f a).2 with ⟨-, heq⟩ | ⟨a, t, -, ht, -, -, hstatus, hch⟩
  · exact .of_eq heq
  · obtain ⟨live, hpool⟩ := (h.tenants i t ht).flows.pooled
    rcases hpool.configure_cases f a with ⟨-, heq⟩ | ⟨hok, -⟩
    · rw [heq] at hch
      exact hch.sameObservable (.refl t.flowScheduler)
    · exact absurd (hstatus.trans hok) hfail

theorem offerSession_fails {x : FlowSessionContext} (ht : s.tenants i = some t) (hfit : BacklogsFit t)
    (hfail : (offerSession s i x.flowId t x).1 ≠ .success) :
    SameObservable s (offerSession s i x.flowId t x).2.2 := by
  unfold offerSession at hfail ⊢
  dsimp only at hfail ⊢
  generalize hr : groupSchedulerEnqueue s.mem (t.mapStats x.flowId Stats.backlogUp).flowScheduler
    x.flowId x.workSize (some x) true = r at hfail ⊢
  have hcases := enqueue_cases s.mem (t.mapStats x.flowId Stats.backlogUp).flowScheduler x.flowId
    x.workSize (some x) true
  rw [hr] at hcases
  rcases hcases with ⟨hbad, hgs, -⟩ | ⟨hok, -⟩
  · rw [if_neg hbad, hgs]
    exact .setTenant ht (.counted hfit x.flowId) r.mem
  · rw [if_pos hok] at hfail
    exact absurd rfl hfail

theorem enqueue_fails (hfit : EveryTenant BacklogsFit s.cores) (i f : ℕ) (work : Option Session)
    (now : ℕ) (hfail : (hwfqEnqueue s i f work now).1 ≠ .success) :
    SameObservable s (hwfqEnqueue s i f work now).2.2 := by
  unfold hwfqEnqueue at hfail ⊢
  cases work with
  | none => exact .of_eq rfl
  | some w =>
    dsimp only at hfail ⊢
    split_ifs at hfail ⊢
    · exact .of_eq rfl
    · exact .of_eq rfl
    · exact .of_eq rfl
    cases ht : s.configuredTenant i with
    | none => exact .of_eq rfl
    | some t =>
      rw [ht] at hfail
      replace ht := configuredTenant_some ht
      have hcore := hfit i t.core (cores_some ht)
      dsimp only at hfail ⊢
      split_ifs at hfail ⊢
      · exact .of_eq rfl
      cases halloc : hwfqAlloc s.mem 1 with
      | mk p mem =>
        rw [halloc] at hfail
        cases p with
        | none => exact .withMem s mem
        | some addr =>
          have hsame := offerSession_fails (s := { s with mem := mem })
            (x := newContext s addr i f w now) ht ⟨hcore.tenant, hcore.slots⟩ hfail
          exact ⟨hsame.rest, hsame.system, hsame.tenants⟩

theorem SchedulerInv.call_fails (h : SchedulerInv s) (hfit : EveryTenant BacklogsFit s.cores)
    (hc : c.asksSession = false) (hfail : (respond s c).status ≠ .success) :
    SameObservable s (Hwfq.after s c) := by
  cases c with
  | addTenant a out => exact h.addTenant_fails a out hfail
  | configureTenant i a =>
    rcases (h.configureTenant i.toNat a).2 with ⟨-, heq⟩ | ⟨a, t, rfl, -, -, -, heq⟩
    · exact .of_eq heq
    · exact absurd (congrArg Prod.fst heq) hfail
  | removeTenant i =>
    rcases (h.removeTenant i.toNat).2 with ⟨-, heq⟩ | ⟨t, -, -, heq⟩
    · exact .of_eq (congrArg Prod.snd heq)
    · exact absurd (congrArg Prod.fst heq) hfail
  | addFlow i a out => exact h.addFlow_fails i.toNat a out hfail
  | reconfigureFlow i f a => exact h.reconfigureFlow_fails i.toNat f.toNat a hfail
  | removeFlow i f =>
    rcases (h.removeFlow i.toNat f.toNat).2 with ⟨-, heq⟩ | ⟨t, entry, -, -, -, hok, -⟩
    · exact .of_eq heq
    · exact absurd hok hfail
  | enqueue i f work now => exact enqueue_fails hfit i.toNat f.toNat work now.toNat hfail
  | dequeue out now =>
    cases hc
    exact .of_eq rfl
  | complete i f work =>
    rcases (h.complete work i.toNat f.toNat).2 with ⟨-, heq⟩ | ⟨found, cores, -, hok, -⟩
    · exact .of_eq (congrArg (·.2.2) heq)
    · exact absurd hok hfail
  | cancel i f work =>
    rcases (h.cancel work i.toNat f.toNat).2 with ⟨-, heq⟩ | ⟨found, -, hok, -⟩
    · exact .of_eq (congrArg (·.2.2) heq)
    · exact absurd hok hfail
  | checkTimeouts now => exact absurd rfl hfail
  | resetStats i f => exact absurd rfl hfail

/-! ## The next ids -/

/-- A call that adds a tenant or a flow succeeds from `s`, for some state of the memory,
and returns `id`. -/
def Assigns (s : Scheduler) (c : Call) (id : ℕ) : Prop :=
  ∃ mem, (respond { s with mem := mem } c).status = .success ∧
    (respond { s with mem := mem } c).id = some id

/-- The store that a call takes its new id from. -/
def Call.idStore (s : Scheduler) : Call → Option ChunkedEntries
  | .addTenant _ _ => some s.systemScheduler.entries
  | .addFlow i _ _ => (s.tenants i.toNat).map (·.flowScheduler.entries)
  | _ => none

theorem allocEntryOf_id {α : Type*} {gs gs' : GroupScheduler α} {live : Finset ℕ}
    {mem mem' : Allocator} {id : ℕ} (h : PoolInv gs.entries live)
    (halloc : allocEntryOf mem gs = (.ok id, mem', gs')) : id = nextId gs.entries :=
  ((entriesAlloc_counters h mem).2 id (congrArg (·.1) halloc)).1

theorem SchedulerInv.installTenant_id (h : SchedulerInv s) (mem : Allocator) (addr : Addr)
    (a : Allocation) (flows : GroupScheduler FlowSessionContext) {id : ℕ}
    (hid : (installTenant { s with mem := mem } addr a flows).2.1 = some id) :
    id = nextId s.systemScheduler.entries := by
  obtain ⟨live, hpool, -⟩ := h.system.pooled
  unfold installTenant at hid
  cases halloc : allocEntryOf mem s.systemScheduler with
  | mk ret r =>
    obtain ⟨mem', system⟩ := r
    rw [halloc] at hid
    cases ret with
    | error status => cases hid
    | ok id' =>
      have hnext := allocEntryOf_id hpool.pool halloc
      dsimp only at hid
      generalize groupSchedulerConfigureEntry system id' a = conf at hid
      obtain ⟨status, system'⟩ := conf
      cases status with
      | success =>
        cases hid
        exact hnext
      | _ => cases hid

theorem SchedulerInv.addFlow_id (h : SchedulerInv s) (mem : Allocator) (i : ℕ)
    (a : Option Allocation) (out : Bool) {id : ℕ}
    (hid : (hwfqAddFlow { s with mem := mem } i a out).2.1 = some id) :
    ∃ t, s.tenants i = some t ∧ id = nextId t.flowScheduler.entries := by
  unfold hwfqAddFlow at hid
  cases a with
  | none => cases hid
  | some a =>
    have hlook : ({ s with mem := mem } : Scheduler).configuredTenant i = s.configuredTenant i := rfl
    dsimp only at hid
    rw [hlook] at hid
    cases ht : s.configuredTenant i with
    | none =>
      rw [ht] at hid
      split_ifs at hid
    | some t =>
      rw [ht] at hid
      replace ht := configuredTenant_some ht
      obtain ⟨live, hpool⟩ := (h.tenants i t ht).flows.pooled
      dsimp only at hid
      split_ifs at hid
      cases halloc : allocEntryOf mem t.flowScheduler with
      | mk ret r =>
        obtain ⟨mem', flows⟩ := r
        rw [halloc] at hid
        cases ret with
        | error status => cases hid
        | ok id' =>
          have hnext := allocEntryOf_id hpool.pool halloc
          dsimp only at hid
          generalize groupSchedulerConfigureEntry flows id' a = conf at hid
          obtain ⟨status, flows'⟩ := conf
          cases status with
          | success =>
            cases hid
            exact ⟨t, ht, hnext⟩
          | _ => cases hid

theorem SchedulerInv.assigns (h : SchedulerInv s) {id : ℕ} (hid : Assigns s c id) :
    ∃ ce, c.idStore s = some ce ∧ id = nextId ce := by
  obtain ⟨mem, -, hret⟩ := hid
  cases c with
  | addTenant a out =>
    refine ⟨_, rfl, ?_⟩
    have hret' : (hwfqAddTenant { s with mem := mem } a out).2.1 = some id := hret
    rcases addTenant_cases { s with mem := mem } a out with ⟨status, mem', -, heq⟩ |
      ⟨a, addr, mem₁, flows, mem', -, -, -, -, heq⟩
    · rw [heq] at hret'
      cases hret'
    · rw [heq] at hret'
      exact h.installTenant_id mem' addr a flows hret'
  | addFlow i a out =>
    obtain ⟨t, ht, hnext⟩ := h.addFlow_id mem i.toNat a out hret
    exact ⟨_, by rw [Call.idStore, ht, Option.map_some], hnext⟩
  | _ => cases hret

theorem SameObservable.assigns (hs : SchedulerInv s) (hs' : SchedulerInv s')
    (h : SameObservable s s') {id id' : ℕ} (hid : Assigns s c id) (hid' : Assigns s' c id') :
    id' = id := by
  obtain ⟨ce, hce, rfl⟩ := hs.assigns hid
  obtain ⟨ce', hce', rfl⟩ := hs'.assigns hid'
  cases c with
  | addTenant a out =>
    cases hce
    cases hce'
    exact h.system.nextId
  | addFlow i a out =>
    have hi := h.tenants i.toNat
    rw [Call.idStore] at hce hce'
    obtain ⟨t, ht, rfl⟩ := Option.map_eq_some_iff.mp hce
    obtain ⟨t', ht', rfl⟩ := Option.map_eq_some_iff.mp hce'
    rw [ht, ht'] at hi
    cases hi with
    | some hsame => exact hsame.flows.nextId
  | _ => cases hce

/-! ## Every failure in every run -/

/-- Whatever memory does, a call other than dequeue that returns an error leaves all
that can be seen as it was, and the next tenant or flow gets the id it would have got. -/
theorem failed_calls_undone (s₀ : Scheduler) (hmade : Made s₀) (calls : List Call) (c : Call)
    (hc : c.asksSession = false)
    (hfail : (respond (afterRun s₀ calls) c).status ≠ .success) :
    SameObservable (afterRun s₀ calls) (after (afterRun s₀ calls) c) ∧
      ∀ next id id', Assigns (afterRun s₀ calls) next id →
        Assigns (after (afterRun s₀ calls) c) next id' → id' = id := by
  have hinv := hmade.afterRun calls
  have hsame := hinv.call_fails (hmade.backlogsFit calls) hc hfail
  refine ⟨hsame, ?_⟩
  intro next id id' hid hid'
  exact hsame.assigns hinv (hinv.after c) hid hid'

/-- A flow that asks for more than the share of its tenant is turned down after its slot
was taken. -/
theorem failed_calls_undone_small :
    SameObservable (afterRun smallScheduler [.addTenant (some (.rate 40)) true])
        (after (afterRun smallScheduler [.addTenant (some (.rate 40)) true])
          (.addFlow 0 (some (.rate 50)) true)) ∧
      ∀ next id id', Assigns (afterRun smallScheduler [.addTenant (some (.rate 40)) true]) next id →
        Assigns (after (afterRun smallScheduler [.addTenant (some (.rate 40)) true])
          (.addFlow 0 (some (.rate 50)) true)) next id' → id' = id :=
  failed_calls_undone smallScheduler smallScheduler_made [.addTenant (some (.rate 40)) true]
    (.addFlow 0 (some (.rate 50)) true) rfl (by decide +kernel)

end Hwfq
