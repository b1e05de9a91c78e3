import Hwfq.MemoryConfiguration

/-!
# The memory of a scheduler

From the first request of `hwfq_init` on, every block that was granted is owned by the
scheduler, or it was freed, once, or it is the context of a session that a dequeue has put
back in vain. `hwfq_destroy` frees what is owned.
-/
namespace Hwfq
open GuardedRuns BlockTallies

variable {s : Scheduler} {b : SchedulerBlocks}

/-! ## One call -/

/-- The blocks after a call, and what the call frees. -/
def callBlocks (s : Scheduler) (b : SchedulerBlocks) : Call → SchedulerBlocks × List Addr
  | .addTenant a out => addTenantBlocks s b a out
  | .configureTenant _ _ => (b, [])
  | .removeTenant i => (b, removeTenantFrees s b i.toNat)
  | .addFlow i a out => addFlowBlocks s b i.toNat a out
  | .reconfigureFlow _ _ _ => (b, [])
  | .removeFlow _ _ => (b, [])
  | .enqueue i f work now => (b, enqueueFrees s i.toNat f.toNat work now.toNat)
  | .dequeue out now => (b, dequeueFrees s out now.toNat)
  | .complete i f work => (b, completeFrees s work i.toNat f.toNat)
  | .cancel i f work => (b, cancelFrees s work i.toNat f.toNat)
  | .checkTimeouts now => (b, timeoutFrees s now.toNat)
  | .resetStats _ _ => (b, [])

theorem SchedulerInv.paid (h : SchedulerInv s) (hgrid : OnGrid s s.cores) (hb : Backed s b)
    (c : Call) :
    Paid s (Hwfq.after s c) b (callBlocks s b c).1 0 ((lost s c).map (·.addr))
      (callBlocks s b c).2 := by
  cases c with
  | addTenant a out => exact h.addTenant_paid hb a out
  | configureTenant i a => exact h.configureTenant_paid i.toNat a b
  | removeTenant i => exact h.removeTenant_paid hgrid hb i.toNat
  | addFlow i a out => exact h.addFlow_paid hb i.toNat a out
  | reconfigureFlow i f a => exact h.reconfigureFlow_paid i.toNat f.toNat a b
  | removeFlow i f => exact .removeFlow s i.toNat f.toNat b
  | enqueue i f work now => exact .enqueue s i.toNat f.toNat work now.toNat b
  | dequeue out now => exact h.dequeue_paid out now b
  | complete i f work => exact h.complete_paid work i.toNat f.toNat b
  | cancel i f work => exact h.cancel_paid work i.toNat f.toNat b
  | checkTimeouts now => exact h.timeouts_paid now.toNat b
  | resetStats i f => exact .resetStats s i.toNat f.toNat b 0

/-! ## Construction and destruction -/

/-- Destroying a group scheduler without sessions. -/
theorem emptyGroup_destroys {α : Type*} {gs : GroupScheduler α} (hqueued : gs.queued = 0)
    (hgrid : gs.numBins = u32 (gs.numGroups * gs.binsPerGroup)) (gb : GroupBlocks)
    (cleanup : Option α → List Addr) :
    (groupDestroyFrees gs gb cleanup : Multiset ℕ) = gb.live := by
  rw [groupDestroys gb cleanup hgrid, GroupScheduler.sessions, hqueued, Multiset.zero_bind,
    Multiset.map_zero, zero_add, zero_add]

theorem newGroup_tally {mem mem' : Allocator} {group : Option GroupBlocks} {failed : List Addr}
    (h : Tally mem.next mem'.next 0 (group.elim 0 GroupBlocks.live) failed) (a a' : Addr) :
    Tally mem.next mem'.next (a ::ₘ a' ::ₘ 0) ({a, a'} + group.elim 0 GroupBlocks.live) failed := by
  have hframed := h.frame {a, a'}
  rwa [add_zero] at hframed

theorem newScheduler_live (htenants : s.tenants = fun _ => none) (hflight : s.inFlight = [])
    (hqueued : s.systemScheduler.queued = 0)
    (hentries : s.systemScheduler.entries = hwfqChunkedEntriesInit s.maxTenants)
    (hstore : b.store = noStore) :
    liveBlocks s b = b.hashTable ::ₘ ({b.tenantTable, b.scheduler} + b.group.live) := by
  have hslots : slotsLive b s.maxTenants s.cores = 0 := by
    apply Finset.sum_eq_zero
    intro i _
    rw [Scheduler.cores, htenants]
    rfl
  unfold liveBlocks frameLive flightLive
  rw [hslots, hflight, GroupScheduler.sessions, hqueued, hentries, hstore, noStore_live,
    List.map_nil, Multiset.map_zero, Multiset.coe_nil, add_zero, add_zero, add_zero, add_zero]
  simp only [Multiset.insert_eq_cons, ← Multiset.singleton_add]
  abel

/-- What `hwfq_init` has granted belongs to the new scheduler, or it was given back. -/
theorem init_tally (mem : Allocator) (config : Config) :
    (∃ s b, hwfqInit mem config = (.success, some s) ∧ initBlocks mem config = (some b, [], s.mem) ∧
        Backed s b ∧ Tally mem.next s.mem.next 0 (liveBlocks s b) 0) ∨
      (hwfqInit mem config).2 = none ∧ (initBlocks mem config).1 = none ∧
        Tally mem.next (initBlocks mem config).2.2.next 0 0 (initBlocks mem config).2.1 := by
  unfold hwfqInit initBlocks
  generalize (if config.numGroups = 0 then defaultNumGroups else config.numGroups.toNat) = groups
  generalize (if config.binsPerGroup = 0 then defaultBinsPerGroup
    else config.binsPerGroup.toNat) = bins
  split_ifs
  · exact .inr ⟨rfl, rfl, .refl _ _⟩
  cases h₁ : hwfqAlloc mem 1 with
  | mk p₁ mem₁ =>
    cases p₁ with
    | none => exact .inr ⟨rfl, rfl, tally_refused h₁ 0⟩
    | some scheduler =>
      have hfirst := tally_granted h₁ 0
      dsimp only
      cases h₂ : hwfqAlloc mem₁ config.maxTenants.toNat with
      | mk p₂ mem₂ =>
        cases p₂ with
        | none =>
          have hback := Tally.free mem₂.next 0 ({scheduler} : Multiset ℕ)
          exact .inr ⟨rfl, rfl, (hfirst.trans (tally_refused h₂ _)).trans hback⟩
        | some tenantTable =>
          have hsecond := hfirst.trans (tally_granted h₂ _)
          obtain ⟨hsome, hgroup⟩ := groupInit_tally TenantPtr mem₂ groups bins
            config.totalCapacity.toNat config.maxTenants.toNat
            (hwfqChunkedEntriesInit config.maxTenants.toNat)
          have hclean := fun g => @groupInitBlocks_some mem₂ groups bins config.maxTenants.toNat g
          have hthird := hsecond.trans (newGroup_tally hgroup tenantTable scheduler)
          dsimp only
          generalize groupInitBlocks mem₂ groups bins config.maxTenants.toNat = built
            at hsome hthird hclean ⊢
          obtain ⟨group, failed⟩ := built
          cases hinit : groupSchedulerInitWithEntries TenantPtr mem₂ groups bins
              config.totalCapacity.toNat config.maxTenants.toNat
              (hwfqChunkedEntriesInit config.maxTenants.toNat) with
          | mk system mem₃ =>
            rw [hinit] at hsome hthird
            dsimp only at hsome hthird ⊢
            cases system with
            | none =>
              cases group with
              | some group => cases hsome
              | none =>
                have hback := Tally.free mem₃.next 0 ({tenantTable, scheduler} : Multiset ℕ)
                have hall := hthird.trans hback
                have hstore : entriesDestroyFrees
                    (hwfqChunkedEntriesInit config.maxTenants.toNat) noStore = [] := rfl
                refine .inr ⟨rfl, rfl, ?_⟩
                rw [hstore, List.append_nil, ← Multiset.coe_add]
                rw [zero_add, zero_add] at hall
                exact hall
            | some system =>
              cases group with
              | none => cases hsome
              | some group =>
                dsimp only
                have hfailed : failed = [] := hclean group rfl
                have hsystem := noSessions hinit
                cases h₄ : hwfqAlloc mem₃ 1024 with
                | mk p₄ mem₄ =>
                  cases p₄ with
                  | none =>
                    have hback := Tally.free mem₄.next 0 ({tenantTable, scheduler} + group.live)
                    rw [add_zero] at hback
                    have hall := (hthird.trans (tally_refused h₄ _)).trans hback
                    have hstore : entriesDestroyFrees
                        (hwfqChunkedEntriesInit config.maxTenants.toNat) noStore = [] := rfl
                    refine .inr ⟨rfl, rfl, ?_⟩
                    rw [hstore, List.append_nil, ← Multiset.coe_add,
                      emptyGroup_destroys hsystem.1 hsystem.2.1]
                    simp only [hfailed, Multiset.coe_nil, zero_add, add_zero] at hall
                    rw [add_comm] at hall
                    exact hall
                  | some hashTable =>
                    refine .inl ⟨_, _, rfl, rfl, ?_, ?_⟩
                    · constructor
                      · dsimp only
                        rw [hsystem.2.2]
                        exact Mirrors.init _
                      · intro i t ht
                        cases ht
                    · have hall := hthird.trans (tally_granted h₄ _)
                      simp only [hfailed, Multiset.coe_nil, add_zero] at hall
                      rw [newScheduler_live rfl rfl hsystem.1 hsystem.2.2 rfl]
                      exact hall

theorem SchedulerInv.slots_destroyed (h : SchedulerInv s) (hgrid : OnGrid s s.cores)
    (hb : Backed s b) (i : ℕ) :
    (((s.tenants i).elim [] fun t => tenantFrees t.addr t.flowScheduler (b.tenants i) : List Addr) :
      Multiset ℕ) = slotLive (b.tenants i) (s.cores i) := by
  cases ht : s.tenants i with
  | none =>
    rw [Scheduler.cores, ht]
    rfl
  | some t =>
    have hold : s.cores i = some t.core := cores_some ht
    have hmirrors : Mirrors (b.tenants i).store t.flowScheduler.entries := hb.tenants i t.core hold
    rw [hold]
    exact tenantFrees_live hmirrors (hgrid.numBins ht) (h.tenants i t ht).flows.carried t.addr

/-- `hwfq_destroy` frees everything that has an owner. -/
theorem SchedulerInv.destroys (h : SchedulerInv s) (hgrid : OnGrid s s.cores) (hb : Backed s b) :
    (destroyFrees s b : Multiset ℕ) = liveBlocks s b := by
  have hgeo : s.systemScheduler.geometry = s.grid := congrArg Bounds.geometry h.bounds
  have hbins : s.systemScheduler.numBins =
      u32 (s.systemScheduler.numGroups * s.systemScheduler.binsPerGroup) := by
    have hnum : s.systemScheduler.numBins = _ := congrArg Geometry.numBins hgeo
    have hgroups : s.systemScheduler.numGroups = _ := congrArg Geometry.numGroups hgeo
    have hper : s.systemScheduler.binsPerGroup = _ := congrArg Geometry.binsPerGroup hgeo
    rw [hnum, hgroups, hper]
    rfl
  have hsystem : (groupDestroyFrees s.systemScheduler b.group (fun _ => []) : Multiset ℕ) =
      s.systemScheduler.sessions + b.group.live := by
    rw [groupDestroys b.group _ hbins]
    simp only [ite_self, Multiset.coe_nil, Multiset.bind_zero, zero_add]
  have hslots := Finset.sum_congr (rfl : Finset.range s.maxTenants = _) fun i _ =>
    h.slots_destroyed hgrid hb i
  unfold destroyFrees liveBlocks frameLive slotsLive flightLive
  simp only [← Multiset.coe_add, ← Multiset.cons_coe, coe_flatMap_range]
  rw [hsystem, hslots, hb.system.destroys]
  simp only [← Multiset.singleton_add, Multiset.insert_eq_cons, Multiset.coe_nil]
  abel

/-! ## Runs -/

/-- A scheduler in use with its blocks, what was freed on the way and what was lost. -/
structure Footprint where
  scheduler : Scheduler
  blocks : SchedulerBlocks
  freed : List Addr
  lost : Multiset Addr

def Footprint.start (s : Scheduler) (b : SchedulerBlocks) : Footprint := ⟨s, b, [], 0⟩

def Footprint.step (p : Footprint) (c : Call) : Footprint :=
  { scheduler := after p.scheduler c
    blocks := (callBlocks p.scheduler p.blocks c).1
    freed := p.freed ++ (callBlocks p.scheduler p.blocks c).2
    lost := p.lost + (Hwfq.lost p.scheduler c).map (·.addr) }

def Footprint.live (p : Footprint) : Multiset ℕ := liveBlocks p.scheduler p.blocks

/-- What was granted from position `n` of the allocator on is accounted for. -/
structure Audited (n : ℕ) (p : Footprint) : Prop where
  inv : SchedulerInv p.scheduler
  grid : OnGrid p.scheduler p.scheduler.cores
  backed : Backed p.scheduler p.blocks
  tally : Tally n p.scheduler.mem.next 0 (p.lost + p.live) p.freed

theorem Audited.step {n : ℕ} {p : Footprint} (h : Audited n p) (c : Call) :
    Audited n (p.step c) := by
  have hpaid := h.inv.paid h.grid h.backed c
  constructor
  · exact h.inv.after c
  · exact h.inv.onGrid h.grid c
  · exact hpaid.backed h.backed
  · have hcall := hpaid.tally.frame p.lost
    rw [zero_add, ← add_assoc] at hcall
    have hall := h.tally.trans hcall
    rw [Multiset.coe_add] at hall
    exact hall

theorem audited_start {mem : Allocator} {config : Config}
    (hinit : hwfqInit mem config = (.success, some s))
    (hblocks : (initBlocks mem config).1 = some b) : Audited mem.next (.start s b) := by
  rcases init_tally mem config with ⟨s', b', hinit', hblocks', hb, htally⟩ | ⟨hnone, -⟩
  · rw [hinit] at hinit'
    rw [hblocks'] at hblocks
    obtain rfl := Option.some.inj (congrArg Prod.snd hinit')
    obtain rfl := Option.some.inj hblocks
    have hnew := hwfqInit_success hinit
    constructor
    · exact hnew.inv
    · intro i t ht
      have hempty : (Footprint.start s b').scheduler.cores i = none := by
        rw [Footprint.start, Scheduler.cores, hnew.tenants]
        rfl
      rw [hempty] at ht
      cases ht
    · exact hb
    · have hnone : (Footprint.start s b').lost + (Footprint.start s b').live = liveBlocks s b' :=
        zero_add _
      rw [hnone]
      exact htally
  · rw [hinit] at hnone
    cases hnone

/-- Every block that was granted since the start of `hwfq_init` has an owner, or it was freed,
or it was lost by a put-back. Nothing was freed twice, and nothing that has an owner was
freed. -/
theorem memory_accounted {mem : Allocator} {config : Config}
    (hinit : hwfqInit mem config = (.success, some s))
    (hblocks : (initBlocks mem config).1 = some b) (calls : List Call) :
    let p := run Footprint.step (.start s b) calls
    p.live + p.lost + p.freed = Multiset.Ico mem.next p.scheduler.mem.next ∧
      p.freed.Nodup ∧ p.live.Nodup ∧ ∀ a ∈ p.freed, a ∉ p.live := by
  intro p
  have hend : Audited mem.next p :=
    run_invariant_all (fun _ c hp => hp.step c) (audited_start hinit hblocks) calls
  have hsound := hend.tally.sound (.zero mem.next)
  have hsplit := Multiset.nodup_add.mp hsound.nodup
  have howned := Multiset.nodup_add.mp hsplit.1
  refine ⟨?_, ?_, howned.2.1, ?_⟩
  · have hbalance := hend.tally.balance
    rw [zero_add] at hbalance
    rw [hbalance, add_comm p.lost]
  · exact Multiset.coe_nodup.mp hsplit.2.1
  · intro a hfreed hlive
    exact Multiset.disjoint_left.mp hsplit.2.2 (Multiset.mem_add.mpr (.inr hlive)) hfreed

theorem refusingPutBack_blocks : (initBlocks refusingPutBack smallConfig).1.isSome = true := by
  decide +kernel

/-- The run in which `refusingPutBack` refuses a put-back. -/
def refusedFootprint : Footprint :=
  run Footprint.step (.start (madeWith refusingPutBack smallConfig refusingPutBack_accepted)
    ((initBlocks refusingPutBack smallConfig).1.get refusingPutBack_blocks)) refusedAtCapacity

/-- It loses one block. -/
theorem memory_accounted_refused :
    refusedFootprint.live + refusedFootprint.lost + refusedFootprint.freed =
        Multiset.Ico refusingPutBack.next refusedFootprint.scheduler.mem.next ∧
      refusedFootprint.lost.card = 1 := by
  have hall := memory_accounted (madeWith_init refusingPutBack_accepted)
    (Option.some_get refusingPutBack_blocks).symm refusedAtCapacity
  constructor
  · exact hall.1
  · decide +kernel

/-- Where every put-back is taken nothing is lost. -/
theorem Footprint.lost_none (p : Footprint) {calls : List Call}
    (h : Along after KeepsSessions p.scheduler calls) (hp : p.lost = 0) :
    (run Footprint.step p calls).lost = 0 := by
  induction calls generalizing p with
  | nil => exact hp
  | cons c calls ih =>
    apply ih (p.step c) h.2
    have hkept : Hwfq.lost p.scheduler c = 0 := lost_eq_zero.mpr h.1
    rw [Footprint.step, hp, hkept]
    rfl

/-- After `hwfq_destroy` every block that was ever granted has been freed once, contexts lost
by a put-back apart. A failing `hwfq_init` frees what it was granted. -/
theorem destroy_returns_all (mem : Allocator) (config : Config) :
    (∀ s b, hwfqInit mem config = (.success, some s) → (initBlocks mem config).1 = some b →
      ∀ calls, let p := run Footprint.step (.start s b) calls
        let freed : Multiset ℕ := (p.freed ++ destroyFrees p.scheduler p.blocks : List Addr)
        freed + p.lost = Multiset.Ico mem.next p.scheduler.mem.next ∧
          (Along after KeepsSessions s calls →
            freed = Multiset.Ico mem.next p.scheduler.mem.next)) ∧
      ((hwfqInit mem config).2 = none → ((initBlocks mem config).2.1 : Multiset ℕ) =
        Multiset.Ico mem.next (initBlocks mem config).2.2.next) := by
  constructor
  · intro s b hinit hblocks calls p freed
    have hend : Audited mem.next p :=
      run_invariant_all (fun _ c hp => hp.step c) (audited_start hinit hblocks) calls
    have hdestroy := hend.inv.destroys hend.grid hend.backed
    have hall : freed + p.lost = Multiset.Ico mem.next p.scheduler.mem.next := by
      have hbalance := hend.tally.balance
      rw [zero_add] at hbalance
      have hfreed : freed = (p.freed : Multiset ℕ) + destroyFrees p.scheduler p.blocks :=
        (Multiset.coe_add _ _).symm
      rw [hbalance, Footprint.live, ← hdestroy, hfreed]
      abel
    refine ⟨hall, ?_⟩
    intro hkept
    have hnone : p.lost = 0 := Footprint.lost_none (.start s b) hkept rfl
    rwa [hnone, add_zero] at hall
  · intro hfailed
    rcases init_tally mem config with ⟨s, b, hinit, -⟩ | ⟨-, -, htally⟩
    · rw [hinit] at hfailed
      cases hfailed
    · have hbalance := htally.balance
      rw [zero_add, zero_add] at hbalance
      exact hbalance.symm

theorem destroy_returns_all_refused :
    let freed : Multiset ℕ := (refusedFootprint.freed ++
      destroyFrees refusedFootprint.scheduler refusedFootprint.blocks : List Addr)
    freed + refusedFootprint.lost = Multiset.Ico 1 23 ∧ 19 ∉ freed := by
  have hall := (destroy_returns_all refusingPutBack smallConfig).1 _ _
    (madeWith_init refusingPutBack_accepted) (Option.some_get refusingPutBack_blocks).symm
    refusedAtCapacity
  have hnext : refusedFootprint.scheduler.mem.next = 23 := by decide +kernel
  constructor
  · rw [← hnext]
    exact hall.1
  · decide +kernel

end Hwfq
