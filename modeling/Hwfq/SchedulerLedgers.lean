import Hwfq.EntryLedgers
import Hwfq.QueueTraces
import Hwfq.TenantShares

/-!
# The ledgers of all group schedulers

The traces of the queues show no change to any ledger. With the calls that add, change
and remove tenants and flows this keeps every ledger in every run.
-/
namespace Hwfq
open GuardedRuns

/-! ## Along the traces -/

section Traces
variable {α : Type*} {gs gs' : GroupScheduler α}

theorem QueueTrace.ratesKept (h : QueueTrace gs gs') : RatesKept gs gs' := by
  induction h with
  | refl => exact .refl gs
  | enqueue mem id w ud cf _ ih => exact ih.trans (.enqueue mem _ id w ud cf)
  | dequeue _ ih => exact ih.trans (.dequeue _)
  | update w _ ih => exact ih.trans (.update _ w)

theorem RatesKept.active (h : RatesKept gs gs') (id : ℕ) :
    (activeEntry gs' id).isSome = (activeEntry gs id).isSome := by
  have hsame := congrArg Option.isSome (h.faces id)
  rw [rateFace, rateFace, Option.isSome_map, Option.isSome_map] at hsame
  rw [activeEntry_eq, activeEntry_eq, Option.isSome_map, Option.isSome_map, hsame]

end Traces

variable {s s' s₁ : Scheduler} {c : Call} {r : Response} {i : ℕ} {t : Tenant}

/-! ## Taking and giving back slots -/

section Slots
variable {α : Type*} {gs : GroupScheduler α} {mem mem₀ : Allocator} {live : Finset ℕ}

/-- A change of the store that no configured entry sees. -/
theorem RatesKept.of_find {ce : ChunkedEntries}
    (h : ∀ j, groupSchedulerFindEntry { gs with entries := ce } j = groupSchedulerFindEntry gs j) :
    RatesKept gs { gs with entries := ce } :=
  ⟨rfl, rfl, rfl, rfl, fun j => by rw [rateFace, h, rateFace]⟩

theorem find_of_idle {j : ℕ} (h : ∀ e, hwfqChunkedGet gs.entries j = some e → e.configured = false) :
    groupSchedulerFindEntry gs j = none :=
  activeEntry_none_iff.mp (activeEntry_eq_none h)

/-- No configured entry sees a slot being handed out, or the store growing. -/
theorem findEntry_alloc (h : PoolInv gs.entries live) (mem₀ : Allocator) (j : ℕ) :
    groupSchedulerFindEntry (allocEntryOf mem₀ gs).2.2 j = groupSchedulerFindEntry gs j := by
  have hzero : hwfqChunkedGet gs.entries j = none → groupSchedulerFindEntry gs j = none := by
    intro hnone
    rw [groupSchedulerFindEntry, hnone]
    rfl
  have hgrown : hwfqChunkedGet (hwfqChunkedEntriesAlloc mem₀ gs.entries).2.2 j =
        hwfqChunkedGet gs.entries j ∨ hwfqChunkedGet gs.entries j = none ∧
        hwfqChunkedGet (hwfqChunkedEntriesAlloc mem₀ gs.entries).2.2 j = some EntryConfig.zero →
      groupSchedulerFindEntry (allocEntryOf mem₀ gs).2.2 j = groupSchedulerFindEntry gs j := by
    intro hcase
    rcases hcase with heq | ⟨hnone, hsome⟩
    · exact congrArg (Option.filter (·.configured)) heq
    · rw [hzero hnone]
      apply find_of_idle
      intro e he
      cases hsome.symm.trans he
      rfl
  obtain ⟨-, ⟨ret, -, -, hext⟩ | ⟨id, -, hnew, -, -, hout⟩⟩ := h.alloc mem₀
  · exact hgrown (hext j)
  · by_cases hj : j = id
    · subst hj
      obtain ⟨e, he, hconf, -⟩ := hout.given
      rw [find_of_idle (h.idle j hnew)]
      apply find_of_idle
      intro e' he'
      cases he.symm.trans he'
      exact hconf
    · exact hgrown (hout.others j hj)

/-- Giving back a slot that is not configured. -/
theorem findEntry_free (h : PoolInv gs.entries live) {id : ℕ} (hid : id ∈ live)
    (hnone : groupSchedulerFindEntry gs id = none) (j : ℕ) :
    groupSchedulerFindEntry (freeEntryOf gs id) j = groupSchedulerFindEntry gs j := by
  obtain ⟨-, heq⟩ := h.free_live hid
  have hget : hwfqChunkedGet (hwfqChunkedEntriesFree gs.entries id) j = _ :=
    (congrArg (hwfqChunkedGet · j) heq).trans (get_giveBack id j)
  by_cases hj : j = id
  · subst hj
    rw [hnone]
    apply find_of_idle
    intro e he
    rw [freeEntryOf, hget, if_pos rfl] at he
    obtain ⟨e', -, rfl⟩ := Option.map_eq_some_iff.mp he
    rfl
  · rw [if_neg hj] at hget
    exact congrArg (Option.filter (·.configured)) hget

theorem RatesKept.alloc (h : PoolInv gs.entries live) (mem₀ : Allocator) :
    RatesKept gs (allocEntryOf mem₀ gs).2.2 :=
  .of_find (findEntry_alloc h mem₀)

theorem RatesKept.free (h : PooledInv mem gs live) {id : ℕ} (hid : id ∈ live)
    (hnone : activeEntry gs id = none) : RatesKept gs (freeEntryOf gs id) :=
  .of_find (findEntry_free h.pool hid (activeEntry_none_iff.mp hnone))

/-- The operations on entries and on their slots keep the property `P` of a group scheduler. -/
structure EditsKeep (P : GroupScheduler α → Prop) : Prop where
  alloc : ∀ {mem mem₀ gs live}, PooledInv mem gs live → mem.next ≤ mem₀.next → P gs →
    P (allocEntryOf mem₀ gs).2.2
  configure : ∀ {mem gs live} (id : ℕ) (a : Allocation), PooledInv mem gs live → P gs →
    P (groupSchedulerConfigureEntry gs id a).2
  remove : ∀ {mem gs live id}, PooledInv mem gs live → (activeEntry gs id).isSome = true → P gs →
    P (groupSchedulerRemoveEntry gs id).2
  free : ∀ {mem gs live id}, PooledInv mem gs live → id ∈ live → activeEntry gs id = none → P gs →
    P (freeEntryOf gs id)

/-- A property of the queue, the clock and the finish tags that a tag of zero does not break. -/
theorem EditsKeep.of_active {P : GroupScheduler α → Prop}
    (hP : ∀ {gs gs' : GroupScheduler α}, P gs → gs'.queueView = gs.queueView →
      (∀ id e, activeEntry gs' id = some e →
        e.lastFinishTime = 0 ∨ activeEntry gs id = some e) → P gs') : EditsKeep P where
  alloc hpool hmem h := by
    obtain ⟨-, hact, hview, -⟩ := hpool.alloc hmem
    exact hP h hview fun id e he => .inr (hact id ▸ he)
  configure id a hpool h :=
    hP h (configureEntry_queueView hpool.group.sums id a) fun _ _ he =>
      configureEntry_active hpool.group.sums he
  remove hpool hactive h := by
    apply hP h (removeEntry_queueView _ _)
    intro id e he
    rw [(hpool.removeEntry hactive).2] at he
    split_ifs at he
    exact .inr he
  free hpool hid hnone h := by
    have hact := (hpool.free hid hnone).2
    exact hP h rfl fun id e he => .inr (hact id ▸ he)

section Edits
variable {P : GroupScheduler α → Prop} (h : EditsKeep P) (hpool : PooledInv mem gs live) (hgs : P gs)
include h hpool hgs

/-- A new entry is configured, or its slot is given back. -/
theorem EditsKeep.enroll (hmem : mem.next ≤ mem₀.next) {id : ℕ} {mem' : Allocator}
    {gs₁ : GroupScheduler α} (halloc : allocEntryOf mem₀ gs = (.ok id, mem', gs₁)) (a : Allocation) :
    P (groupSchedulerConfigureEntry gs₁ id a).2 ∧
      ((groupSchedulerConfigureEntry gs₁ id a).1 ≠ .success →
        P (freeEntryOf (groupSchedulerConfigureEntry gs₁ id a).2 id)) := by
  have hkept := h.alloc hpool hmem hgs
  obtain ⟨-, hact, -, ⟨ret, hret, -⟩ | ⟨id', hret, hnew, -, hpool', -⟩⟩ := hpool.alloc hmem
  · rw [halloc] at hret
    cases hret
  rw [halloc] at hkept hact hret hpool'
  cases hret
  refine ⟨h.configure id a hpool' hkept, fun hbad => ?_⟩
  rcases hpool'.configure_cases id a with ⟨-, heq⟩ | ⟨hok, -⟩
  · rw [heq]
    refine h.free hpool' (Finset.mem_insert_self _ _) ?_ hkept
    rw [hact]
    exact activeEntry_eq_none (hpool.pool.idle id hnew)
  · exact absurd hok hbad

theorem EditsKeep.retire {id : ℕ} (hact : (activeEntry gs id).isSome = true) :
    P (freeEntryOf (groupSchedulerRemoveEntry gs id).2 id) := by
  obtain ⟨hpool', hact'⟩ := hpool.removeEntry hact
  refine h.free hpool' (hpool.pool.mem_of_active hact) ?_ (h.remove hpool hact hgs)
  rw [hact', if_pos rfl]

end Edits

theorem entryLedger_edits : EditsKeep (EntryLedger (α := α)) where
  alloc hpool _ h := h.keep (.alloc hpool.pool _)
  configure id a hpool h := h.configure hpool.group.sums id a
  remove _ _ h := h.removeEntry _
  free hpool hid hnone h := h.keep (.free hpool hid hnone)

theorem RatesKept.reset {which : ℕ → Bool} {ce' : ChunkedEntries}
    (h : Resets which gs.entries ce') : RatesKept gs { gs with entries := ce' } := by
  refine ⟨rfl, rfl, rfl, rfl, fun j => ?_⟩
  unfold rateFace groupSchedulerFindEntry
  dsimp only
  rw [h.get]
  cases which j with
  | false =>
    rw [if_neg (by decide), Option.map_id]
    rfl
  | true =>
    cases hwfqChunkedGet gs.entries j with
    | none => rfl
    | some e =>
      rw [if_pos rfl, Option.map_some, Option.filter_some, Option.filter_some,
        resetFlowStats_configured]
      unfold resetFlowStats
      split_ifs <;> rfl

theorem Fresh.ledger {numGroups binsPerGroup totalCapacity maxEntries : ℕ} {st : GroupState α}
    (h : Fresh numGroups binsPerGroup totalCapacity maxEntries st) : EntryLedger st.gs := by
  have hfind : ∀ id, groupSchedulerFindEntry st.gs id = none := fun id =>
    activeEntry_none_iff.mp (h.activeEntry id)
  obtain ⟨mem, entries, -, hinit⟩ := h.init
  obtain ⟨-, -, -, -, hlist, hrates, hweights, -⟩ := init_some hinit
  constructor
  · rw [hlist]
    exact List.nodup_nil
  · intro id
    rw [hlist, hfind]
    simp
  · rw [hrates, hlist]
    unfold sumOver u64
    rfl
  · rw [hweights, hlist]
    unfold sumOver u32
    rfl
  · intro id e he
    rw [hfind] at he
    cases he
  · intro id e he
    rw [hfind] at he
    cases he

end Slots

/-! ## The system scheduler -/

theorem SchedulerInv.installTenant_keeps {P : GroupScheduler TenantPtr → Prop} (hP : EditsKeep P)
    (h : SchedulerInv s) (hs : P s.systemScheduler) (addr : Addr) (a : Allocation)
    (flows : GroupScheduler FlowSessionContext) :
    P (installTenant s addr a flows).2.2.systemScheduler := by
  obtain ⟨live, hpool, -⟩ := h.system.pooled
  have hkept := hP.alloc hpool (le_refl s.mem.next) hs
  unfold installTenant
  cases halloc : allocEntryOf s.mem s.systemScheduler with
  | mk ret r =>
    obtain ⟨mem, system⟩ := r
    rw [halloc] at hkept
    cases ret with
    | error status => exact hkept
    | ok id =>
      obtain ⟨hgood, hbad⟩ := hP.enroll hpool hs le_rfl halloc a
      dsimp only
      generalize groupSchedulerConfigureEntry system id a = conf at hgood hbad ⊢
      obtain ⟨status, system'⟩ := conf
      cases status with
      | success => exact hgood
      | _ => exact hbad (by simp)

/-- The calls on tenants reach the system scheduler through its entries only. -/
theorem SchedulerInv.tenantCall_keeps {P : GroupScheduler TenantPtr → Prop} (hP : EditsKeep P)
    (h : SchedulerInv s) (hs : P s.systemScheduler) (hc : c.configuresTenant = true) :
    P (Hwfq.after s c).systemScheduler := by
  obtain ⟨live, hpool, -⟩ := h.system.pooled
  cases c with
  | addTenant a out =>
    have hstate : Hwfq.after s (.addTenant a out) = (hwfqAddTenant s a out).2.2 := rfl
    rw [hstate]
    rcases addTenant_cases s a out with ⟨status, mem, -, heq⟩ |
      ⟨a, addr, mem₁, flows, mem, -, -, -, hnext, heq⟩
    · rw [heq]
      exact hs
    · rw [heq]
      exact (h.withMem hnext).installTenant_keeps hP hs addr a flows
  | configureTenant i a =>
    rcases (h.configureTenant i.toNat a).2 with ⟨-, heq⟩ | ⟨a, t, rfl, -, -, -, heq⟩
    · have hstate : Hwfq.after s (.configureTenant i a) = s := heq
      rw [hstate]
      exact hs
    · have hstate : Hwfq.after s (.configureTenant i (some a)) = reallocated s i.toNat t a :=
        congrArg Prod.snd heq
      rw [hstate]
      exact hP.configure i.toNat a hpool hs
  | removeTenant i =>
    rcases (h.removeTenant i.toNat).2 with ⟨-, heq⟩ | ⟨t, ht, -, heq⟩
    · have hstate : Hwfq.after s (.removeTenant i) = s := congrArg Prod.snd heq
      rw [hstate]
      exact hs
    · have hstate : Hwfq.after s (.removeTenant i) = Hwfq.tenantRemoved s i.toNat t :=
        congrArg (fun r => r.2.2) heq
      have hact : (activeEntry s.systemScheduler i.toNat).isSome = true := by
        rw [h.system.active, Scheduler.faces, ht]
        rfl
      rw [hstate]
      exact hP.retire hpool hs hact
  | _ => cases hc

theorem SchedulerInv.systemLedger (h : SchedulerInv s) (hs : EntryLedger s.systemScheduler)
    (c : Call) : EntryLedger (Hwfq.after s c).systemScheduler := by
  cases hc : c.configuresTenant with
  | false => exact hs.keep (h.systemTrace hc).ratesKept
  | true => exact h.tenantCall_keeps entryLedger_edits hs hc

/-! ## The flow schedulers -/

/-- Every tenant keeps the ledger of its flows. -/
def FlowLedgers : (ℕ → Option Tenant) → Prop := EveryTenant fun t => EntryLedger t.flowScheduler

/-- The calls on flows reach the flow scheduler through its entries only. -/
theorem FlowUpdate.keeps {P : GroupScheduler FlowSessionContext → Prop} (hP : EditsKeep P)
    {i : UInt32} {flows : GroupScheduler FlowSessionContext} (h : FlowUpdate s.mem i t c r flows)
    (hinv : FlowsInv s.mem i.toNat t.flowScheduler) (hs : P t.flowScheduler) : P flows := by
  obtain ⟨live, hpool⟩ := hinv.pooled
  cases h with
  | exhausted halloc =>
    have hkept := hP.alloc hpool (le_refl s.mem.next) hs
    rw [halloc] at hkept
    exact hkept
  | @admitted a id mem' flows₁ flows _ halloc hconf =>
    have henroll := (hP.enroll hpool hs le_rfl halloc a).1
    rw [hconf] at henroll
    exact henroll
  | @rolledBack a id mem' flows₁ status flows _ halloc hbad hconf =>
    have henroll := (hP.enroll hpool hs le_rfl halloc a).2
    rw [hconf] at henroll
    exact henroll hbad
  | @reconfigured f a status _ _ _ hconf =>
    have hconfigure := hP.configure f.toNat a hpool hs
    rw [hconf] at hconfigure
    exact hconfigure
  | retired find _ =>
    exact hP.retire hpool hs (activeEntry_of_findFlowEntry (by rw [find]; rfl))

theorem TenantTrace.ratesKept {u : Tenant} (h : TenantTrace c t u) :
    RatesKept t.flowScheduler u.flowScheduler := by
  induction h with
  | refl => exact .refl t.flowScheduler
  | queue _ trace ih => exact ih.trans trace.ratesKept
  | @stats u f _ flowId _ ih =>
    unfold Tenant.mapStats
    dsimp only
    split_ifs
    · exact ih.trans (.write u.flowScheduler flowId (fun _ => rfl) (fun _ => rfl) fun _ => rfl)
    · exact ih
  | reset _ _ reset ih =>
    obtain ⟨which, hentries⟩ := reset.entries
    have hsame := reset.same
    rw [hsame]
    exact ih.trans (.reset hentries)
  | allocation _ _ ih => exact ih

theorem Effect.flowLedgers (h : Effect s c r s') (hinv : SchedulerInv s) (hs : FlowLedgers s.cores) :
    FlowLedgers s'.cores := by
  by_cases hc : c.editsFlows = false
  · exact (h.tenantsFollow hc).every (fun _ _ ht htrace => ht.keep htrace.ratesKept) hs
  cases h with
  | idle _ _ tokens => exact tokens.cores ▸ hs
  | added admits valid fits blank store fresh =>
    rw [cores_of_tenants admits.tenants]
    apply hs.update
    intro u hu
    rw [← Option.some.inj hu]
    exact fresh.ledger
  | removed tenant =>
    rw [cores_of_tenants (s := s) (v := none) rfl]
    exact hs.update fun u hu => by cases hu
  | @flows i t _ _ flows _ _ update change =>
    have hledger : EntryLedger t.flowScheduler := hs _ t.core (cores_some change.tenant)
    rw [cores_of_tenants change.tenants]
    apply hs.update
    intro u hu
    rw [← Option.some.inj hu]
    exact update.keeps entryLedger_edits (hinv.tenants _ _ change.tenant).flows hledger
  | _ => exact absurd rfl hc

/-! ## Every run -/

/-- The ledgers of the system scheduler and of all tenants. -/
structure AllLedgers (s : Scheduler) : Prop where
  system : EntryLedger s.systemScheduler
  tenants : ∀ i t, s.tenants i = some t → EntryLedger t.flowScheduler

theorem Made.ledgers (h : Made s) : EntryLedger s.systemScheduler ∧ FlowLedgers s.cores := by
  obtain ⟨mem, config, hinit⟩ := h
  have hnew := hwfqInit_success hinit
  obtain ⟨mem₀, -, hfresh⟩ := hnew.system
  refine ⟨hfresh.ledger, fun i t ht => ?_⟩
  obtain ⟨u, hu, -⟩ := tenants_of_cores ht
  rw [hnew.tenants] at hu
  cases hu

theorem SchedulerInv.run_ledgers (h : SchedulerInv s) (hsystem : EntryLedger s.systemScheduler)
    (hflows : FlowLedgers s.cores) (calls : List Call) :
    EntryLedger (Hwfq.afterRun s calls).systemScheduler ∧
      FlowLedgers (Hwfq.afterRun s calls).cores := by
  induction calls generalizing s with
  | nil => exact ⟨hsystem, hflows⟩
  | cons c calls ih =>
    exact ih (h.after c) (h.systemLedger hsystem c) ((h.effect c).flowLedgers h hflows)

/-- In every run the lists, sums and cached rates of every group scheduler agree with
its configured entries. -/
theorem ledgers_exact (s : Scheduler) (h : Made s) (calls : List Call) :
    AllLedgers (afterRun s calls) := by
  have hstep : ∀ (s : Scheduler) (c : Call),
      SchedulerInv s ∧ EntryLedger s.systemScheduler ∧ FlowLedgers s.cores →
      SchedulerInv (after s c) ∧ EntryLedger (after s c).systemScheduler ∧
        FlowLedgers (after s c).cores := fun s c hs =>
    ⟨hs.1.after c, hs.1.systemLedger hs.2.1 c, (hs.1.effect c).flowLedgers hs.1 hs.2.2⟩
  obtain ⟨-, hsystem, hflows⟩ := run_invariant_all hstep ⟨h.inv, h.ledgers⟩ calls
  exact ⟨hsystem, fun i t ht => hflows i t.core (cores_some ht)⟩

/-- Two tenants, one by rate and one by weight; the first changes over to a weight. -/
theorem ledgers_exact_small : AllLedgers (afterRun smallScheduler
    [.addTenant (some (.rate 40)) true, .addTenant (some (.weight 3)) true,
      .addFlow 0 (some (.weight 2)) true, .configureTenant 0 (some (.weight 5))]) :=
  ledgers_exact smallScheduler smallScheduler_made _

end Hwfq
