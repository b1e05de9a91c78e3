import Hwfq.FlowStatistics

/-!
# The statistics of the tenants

The statistics of a tenant are part of its own record and not of a slot that is used again. So
they count all sessions completed under the id of the tenant since it was added, or since it was
last reset as a whole.
-/
namespace Hwfq
open GuardedRuns

variable {s s' : Scheduler} {c : Call} {i : ℕ} {t u : Tenant}

/-- The calls of `hwfq_reset_stats` that reset tenant `i` and not just one of its flows. -/
def CoversTenant (tenantId flowId : UInt32) (i : ℕ) : Prop :=
  tenantId.toNat = hwfqAll ∨ tenantId.toNat = i ∧ flowId.toNat = hwfqAll

instance (tenantId flowId : UInt32) (i : ℕ) : Decidable (CoversTenant tenantId flowId i) :=
  inferInstanceAs (Decidable (_ ∨ _ ∧ _))

/-- The work sizes of the sessions that were completed under the id of tenant `i` since it was
added or last reset. -/
def tenantTally (s : Scheduler) (c : Call) (completed : ℕ → List ℕ) (i : ℕ) : List ℕ :=
  match c with
  | .addTenant _ _ =>
      if (respond s c).status = .success ∧ (respond s c).id = some i then [] else completed i
  | .complete k g work =>
      match inFlightLookup s work k.toNat g.toNat with
      | some found => if i = k.toNat then found.workSize :: completed i else completed i
      | none => completed i
  | .resetStats k g => if CoversTenant k g i then [] else completed i
  | _ => completed i

structure TenantCounts where
  scheduler : Scheduler
  completed : ℕ → List ℕ

def TenantCounts.step (w : TenantCounts) (c : Call) : TenantCounts :=
  ⟨after w.scheduler c, tenantTally w.scheduler c w.completed⟩

def TenantCounts.start (s : Scheduler) : TenantCounts := ⟨s, fun _ => []⟩

/-! ## One call -/

theorem SchedulerInv.getTenantStats (h : SchedulerInv s) {st : Stats} :
    hwfqGetTenantStats s i = .ok st ↔ tenantStatsAt s.cores i = some st := by
  unfold hwfqGetTenantStats tenantStatsAt
  cases ht : s.tenants i with
  | none =>
    rw [cores_none ht]
    split_ifs <;> simp
  | some t =>
    rw [if_neg (Nat.not_le.mpr (h.lt_maxTenants ht)), cores_some ht]
    simp [Tenant.core]

theorem TenantTrace.tenant_served (h : TenantTrace c t u) (hc : c.changesServed = false) :
    u.stats.served = t.stats.served := by
  induction h with
  | refl => rfl
  | queue _ _ ih => exact ih
  | @stats u g _ flowId update ih =>
    rw [← ih]
    cases update with
    | backlogUp => rfl
    | backlogDown => rfl
    | addWait => rfl
    | cancelled =>
      dsimp only [Tenant.mapStats]
      unfold Stats.backlogDownIfPositive
      split_ifs <;> rfl
    | _ => cases hc
  | reset _ resets _ _ =>
    cases c with
    | resetStats k g => cases hc
    | _ => cases resets
  | allocation _ _ ih => exact ih

/-- What a call does to the counters of the tenants, completions and resets apart. -/
theorem SchedulerInv.tenant_served_kept (h : SchedulerInv s) (hc : c.changesServed = false)
    {st : Stats} (hst : tenantStatsAt (Hwfq.after s c).cores i = some st) :
    (∃ st₀, tenantStatsAt s.cores i = some st₀ ∧ st.served = st₀.served) ∧
        ¬ Enrolls c (respond s c) i ∨
      st = {} ∧ Enrolls c (respond s c) i := by
  cases hedit : c.editsFlows with
  | true =>
    rcases (h.effect c).tenantStats_edited hedit hst with ⟨hold, hnot⟩ | ⟨hzero, -, hnew⟩
    · exact .inl ⟨⟨st, hold, rfl⟩, hnot⟩
    · exact .inr ⟨hzero, hnew⟩
  | false =>
    left
    have hnot : ¬ Enrolls c (respond s c) i := by
      rintro ⟨a, out, rfl, -⟩
      cases hedit
    refine ⟨?_, hnot⟩
    have hfollow := (h.effect c).tenantsFollow hedit i
    unfold tenantStatsAt at hst ⊢
    obtain ⟨u, hu, rfl⟩ := Option.map_eq_some_iff.mp hst
    rw [hu] at hfollow
    cases ht : s.cores i with
    | none =>
      rw [ht] at hfollow
      cases hfollow
    | some t =>
      rw [ht] at hfollow
      cases hfollow with
      | some htrace => exact ⟨t.stats, rfl, htrace.tenant_served hc⟩

/-- A session completed with the statistics enabled. -/
theorem SchedulerInv.complete_tenant_served (h : SchedulerInv s)
    (hon : s.config.enableStatistics = true) (k g : UInt32) (work : Option Session) (i : ℕ) :
    (tenantStatsAt (Hwfq.after s (.complete k g work)).cores i).map Stats.served =
      ((tenantStatsAt s.cores i).map Stats.served).map fun n =>
        match inFlightLookup s work k.toNat g.toNat with
        | some found => if i = k.toNat then countOne found.workSize n else n
        | none => n := by
  obtain ⟨-, ⟨hnone, heq⟩ | ⟨found, cores, hlookup, -, hstats, hends⟩⟩ :=
    h.complete work k.toNat g.toNat
  · have hstate : Hwfq.after s (.complete k g work) = s := congrArg (·.2.2) heq
    rw [hstate, hnone, Option.map_id']
  · obtain ⟨hoff, -⟩ | ⟨-, rfl⟩ := hstats
    · rw [hon] at hoff
      cases hoff
    have hcores : (Hwfq.after s (.complete k g work)).cores = _ := hends.cores
    rw [hcores, hlookup, tenantStatsAt_mapStatsAt, tenantStatsAt_mapStatsAt, Option.map_map,
      Option.map_map, Option.map_map]
    congr 1
    funext st
    dsimp only [Function.comp_apply]
    split_ifs
    · unfold Stats.backlogDownIfPositive
      split_ifs <;> rfl
    · rfl

theorem tenantStatsAt_tenants (s : Scheduler) (i : ℕ) :
    tenantStatsAt s.cores i = (s.tenants i).map (·.stats) := by
  rw [tenantStatsAt, Scheduler.cores, Option.map_map]
  rfl

/-- A reset of the whole tenant leaves its backlog, any other reset all of its statistics. -/
theorem SchedulerInv.reset_tenant (h : SchedulerInv s) (k g : UInt32) (ht : s.tenants i = some t) :
    tenantStatsAt (Hwfq.after s (.resetStats k g)).cores i =
      some (if CoversTenant k g i then t.stats.reset else t.stats) := by
  have hstate : Hwfq.after s (.resetStats k g) = hwfqResetStats s k.toNat g.toNat := rfl
  have hlt := h.lt_maxTenants ht
  rw [hstate, tenantStatsAt_tenants]
  by_cases hk : k.toNat = hwfqAll
  · rw [hwfqResetStats, if_pos hk, if_pos (.inl hk)]
    dsimp only
    rw [if_pos hlt, ht, Option.map_some, if_pos (h.tenants i t ht).configured]
    rfl
  by_cases hki : k.toNat = i
  · subst hki
    rw [hwfqResetStats, if_neg hk, if_pos hlt, h.configuredTenant, ht]
    have hset : ∀ u, (s.setTenant k.toNat u).tenants k.toNat = some u := fun u =>
      Function.update_self ..
    dsimp only
    by_cases hg : g.toNat = hwfqAll
    · rw [if_pos hg, if_pos (.inr ⟨rfl, hg⟩), hset]
      rfl
    · have hnot : ¬ CoversTenant k g k.toNat := by
        rintro (hall | ⟨-, hall⟩)
        · exact hk hall
        · exact hg hall
      rw [if_neg hg, if_neg hnot, hset]
      rfl
  · have hnot : ¬ CoversTenant k g i := by
      rintro (hall | ⟨hsame, -⟩)
      · exact hk hall
      · exact hki hsame
    rw [resetStats_other hk hki, ht, if_neg hnot]
    rfl

/-! ## Every run -/

/-- The counters of every tenant count the sessions completed under its id. -/
structure TenantCounts.Exact (w : TenantCounts) : Prop where
  inv : SchedulerInv w.scheduler
  enabled : w.scheduler.config.enableStatistics = true
  served : ∀ i st, tenantStatsAt w.scheduler.cores i = some st →
    st.served = (u64 (w.completed i).length, u64 (w.completed i).sum)

theorem tenantTally_kept {completed : ℕ → List ℕ} (hc : c.changesServed = false)
    (hnot : ¬ Enrolls c (respond s c) i) : tenantTally s c completed i = completed i := by
  cases c with
  | addTenant a out =>
    have hfailed : ¬ ((respond s (.addTenant a out)).status = .success ∧
        (respond s (.addTenant a out)).id = some i) :=
      fun hboth => hnot ⟨a, out, rfl, hboth⟩
    rw [tenantTally, if_neg hfailed]
  | complete k g work => cases hc
  | resetStats k g => cases hc
  | _ => rfl

theorem TenantCounts.Exact.step {w : TenantCounts} (h : w.Exact) (c : Call) :
    (w.step c).Exact := by
  refine ⟨h.inv.after c, (congrArg Config.enableStatistics (h.inv.after_config c)).trans
    h.enabled, fun i st hst => ?_⟩
  dsimp only [TenantCounts.step] at hst ⊢
  cases hchanges : c.changesServed with
  | false =>
    rcases h.inv.tenant_served_kept hchanges hst with
      ⟨⟨st₀, hst₀, hsame⟩, hnot⟩ | ⟨rfl, a, out, rfl, hadded⟩
    · rw [hsame, tenantTally_kept hchanges hnot, h.served i st₀ hst₀]
    · rw [tenantTally, if_pos hadded, tally_none]
      rfl
  | true =>
    cases c with
    | complete k g work =>
      have hone := h.inv.complete_tenant_served h.enabled k g work i
      rw [hst] at hone
      cases hold : tenantStatsAt w.scheduler.cores i with
      | none =>
        rw [hold] at hone
        cases hone
      | some st₀ =>
        rw [hold] at hone
        rw [Option.some.inj hone, h.served i st₀ hold, tenantTally]
        cases inFlightLookup w.scheduler work k.toNat g.toNat with
        | none => rfl
        | some found =>
          dsimp only
          split_ifs
          · exact countOne_tally found.workSize (w.completed i)
          · rfl
    | resetStats k g =>
      cases ht : w.scheduler.tenants i with
      | none =>
        have hfollow := (h.inv.effect (.resetStats k g)).tenantsFollow rfl i
        obtain ⟨u, hu, -⟩ := Option.map_eq_some_iff.mp hst
        rw [cores_none ht, hu] at hfollow
        cases hfollow
      | some t =>
        rw [h.inv.reset_tenant k g ht] at hst
        cases hst
        rw [tenantTally]
        split_ifs
        · rw [tally_none]
          rfl
        · refine h.served i t.stats ?_
          rw [tenantStatsAt_tenants, ht]
          rfl
    | _ => cases hchanges

/-- With the statistics enabled, what is reported for a tenant counts the sessions completed
under its id since it was added or reset, in every state of every run. -/
theorem Made.tenant_statistics (h : Made s) (hon : s.config.enableStatistics = true)
    (calls : List Call) {st : Stats}
    (hst : hwfqGetTenantStats (run TenantCounts.step (.start s) calls).scheduler i = .ok st) :
    st.operationsCompleted =
        u64 ((run TenantCounts.step (.start s) calls).completed i).length ∧
      st.workUnitsProcessed = u64 ((run TenantCounts.step (.start s) calls).completed i).sum := by
  have hstart : (TenantCounts.start s).Exact := by
    refine ⟨h.inv, hon, fun i st hst => ?_⟩
    obtain ⟨mem, config, hinit⟩ := h
    have hnone := congrFun (hwfqInit_success hinit).tenants i
    have hst : tenantStatsAt s.cores i = some st := hst
    rw [tenantStatsAt_tenants, hnone] at hst
    cases hst
  have hexact : (run TenantCounts.step (.start s) calls).Exact :=
    run_invariant_all (fun w c hw => hw.step c) hstart calls
  exact Prod.mk.inj (hexact.served i st (hexact.inv.getTenantStats.mp hst))

end Hwfq
