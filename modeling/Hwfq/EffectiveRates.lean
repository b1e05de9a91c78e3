import Hwfq.SchedulerLedgers

/-!
# The rates of the entries

A weight is worth its part of the capacity that the rates leave over. The sum of the weights
has 32 bits and the product of a weight and a capacity 64; as long as both fit, the rates of
the weights are their proportional shares. The margin of one half is taken off these shares
only: a rate is divided by as it was configured.
-/
namespace Hwfq
open GuardedRuns

variable {α : Type*} {gs : GroupScheduler α}

/-! ## Shares in unbounded integers -/

/-- The sum of the configured rates. -/
def reservedTotal (gs : GroupScheduler α) : ℕ := sumOver gs reservedAt gs.configuredEntries

/-- The sum of the configured weights. -/
def weightTotal (gs : GroupScheduler α) : ℕ := sumOver gs weightAt gs.configuredEntries

def unallocated (gs : GroupScheduler α) : ℕ := gs.totalCapacity - reservedTotal gs

/-- The proportional share of a weight. -/
def shareOf (gs : GroupScheduler α) (weight : ℕ) : ℕ := weight * unallocated gs / weightTotal gs

/-- A rate after the margin, at least one. -/
def afterMargin (rate : ℕ) : ℕ := max 1 (rate / 2)

theorem afterMargin_mono {m n : ℕ} (h : m ≤ n) : afterMargin m ≤ afterMargin n :=
  max_le_max_left 1 (Nat.div_le_div_right h)

theorem afterMargin_eq (rate : ℕ) :
    (if rate >>> rateMarginShift = 0 then 1 else rate >>> rateMarginShift) = afterMargin rate := by
  unfold rateMarginShift afterMargin
  rw [Nat.shiftRight_eq_div_pow]
  split_ifs <;> omega

/-- A product that leaves its 64 bits loses more than half a share. -/
theorem afterMargin_wrap_iff {total x : ℕ} (hpos : 0 < total) (htotal : total ≤ uint32Max) :
    afterMargin (u64 x / total) = afterMargin (x / total) ↔ x ≤ uint64Max := by
  constructor
  · intro heq
    by_contra hbig
    have hlost : u64 x + total * 4 ≤ x := by
      unfold uint64Max at hbig
      unfold uint32Max at htotal
      unfold u64
      omega
    have hstep : u64 x / total + 4 ≤ x / total := by
      rw [← Nat.add_mul_div_left _ _ hpos]
      exact Nat.div_le_div_right hlost
    unfold afterMargin at heq
    generalize u64 x / total = m at heq hstep
    generalize x / total = n at heq hstep
    omega
  · intro hx
    rw [u64_of_le hx]

/-- Rounding every part down loses nothing against the whole. -/
theorem sum_div_le {ι : Type*} (f : ι → ℕ) (a total : ℕ) (l : List ι) :
    (l.map fun i => f i * a / total).sum ≤ (l.map f).sum * a / total := by
  induction l with
  | nil => simp
  | cons i l ih =>
    rw [List.map_cons, List.sum_cons, List.map_cons, List.sum_cons, Nat.add_mul]
    exact (Nat.add_le_add_left ih _).trans Nat.div_add_div_le_add_div

theorem sum_afterMargin_le {ι : Type*} (f : ι → ℕ) (l : List ι) :
    (l.map fun i => afterMargin (f i)).sum ≤ (l.map f).sum + l.length := by
  induction l with
  | nil => simp
  | cons i l ih =>
    have hone : afterMargin (f i) ≤ f i + 1 := by
      unfold afterMargin
      omega
    simp only [List.map_cons, List.sum_cons, List.length_cons]
    omega

/-! ## The rates of weight-based entries -/

/-- The entry is configured with a weight. -/
def weightBased (gs : GroupScheduler α) (id : ℕ) : Bool :=
  match entryAllocations gs id with
  | some (.weight _) => true
  | _ => false

/-- The rate that `calculate_effective_rate` gives to an entry. -/
def effectiveRateAt (gs : GroupScheduler α) (id : ℕ) : ℕ :=
  ((groupSchedulerFindEntry gs id).map (calculateEffectiveRate gs)).getD 0

/-- No sum or product of `calculate_effective_rate` leaves its type. -/
structure SharesFit (gs : GroupScheduler α) : Prop where
  capacity : gs.totalCapacity ≤ uint64Max
  rates : reservedTotal gs ≤ gs.totalCapacity
  weights : weightTotal gs ≤ uint32Max

theorem weightAt_le_total {id : ℕ} (hid : id ∈ gs.configuredEntries) :
    weightAt (entryAllocations gs id) ≤ weightTotal gs :=
  List.single_le_sum (fun _ _ => Nat.zero_le _) _
    (List.mem_map_of_mem (f := fun id => weightAt (entryAllocations gs id)) hid)

section Ledger
variable (h : EntryLedger gs)
include h

theorem EntryLedger.weight_pos {id : ℕ} {e : EntryConfig} {w : UInt32}
    (hfind : groupSchedulerFindEntry gs id = some e) (hw : e.allocation = .weight w) :
    0 < w.toNat ∧ w.toNat ≤ weightTotal gs := by
  have hvalid := h.valid id e hfind
  have hin : id ∈ gs.configuredEntries := (h.listed id).mpr (by rw [hfind]; rfl)
  have hle := weightAt_le_total hin
  rw [entryAllocations_of_find, hfind, Option.map_some, hw] at hle
  rw [hw] at hvalid
  refine ⟨?_, hle⟩
  simp only [validateAllocation, ne_eq, decide_not, Bool.not_eq_true', decide_eq_false_iff_not]
    at hvalid
  by_contra hzero
  apply hvalid
  apply UInt32.toNat_inj.mp
  exact Nat.eq_zero_of_not_pos hzero

theorem EntryLedger.effectiveRate (hfit : SharesFit gs) {id : ℕ} {e : EntryConfig} {w : UInt32}
    (hfind : groupSchedulerFindEntry gs id = some e) (hw : e.allocation = .weight w) :
    calculateEffectiveRate gs e =
      afterMargin (u64 (w.toNat * unallocated gs) / weightTotal gs) := by
  have htotal : gs.totalWeight = weightTotal gs := h.weights.trans (u32_of_le hfit.weights)
  have hreserved : gs.allocatedRateCapacity = reservedTotal gs :=
    h.rates.trans (u64_of_le (hfit.rates.trans hfit.capacity))
  have hleft : subU64 gs.totalCapacity gs.allocatedRateCapacity = unallocated gs := by
    rw [hreserved]
    unfold subU64
    exact if_pos hfit.rates
  have hpos := h.weight_pos hfind hw
  unfold calculateEffectiveRate
  rw [hw]
  dsimp only
  rw [if_neg (by omega), hleft, htotal, afterMargin_eq]
  rfl

/-- The rate of a weight is its share exactly when its product fits. -/
theorem EntryLedger.exact_iff (hfit : SharesFit gs) {id : ℕ} {e : EntryConfig} {w : UInt32}
    (hfind : groupSchedulerFindEntry gs id = some e) (hw : e.allocation = .weight w) :
    calculateEffectiveRate gs e = afterMargin (shareOf gs w.toNat) ↔
      w.toNat * unallocated gs ≤ uint64Max := by
  have hpos := h.weight_pos hfind hw
  rw [h.effectiveRate hfit hfind hw]
  exact afterMargin_wrap_iff (by omega) hfit.weights

end Ledger

/-- Every weight has the rate of its proportional share: a heavier entry has no lower rate,
and together they stay within what the rates leave over, one for each entry apart. -/
structure ProportionalShares (gs : GroupScheduler α) : Prop where
  exact : ∀ id e w, groupSchedulerFindEntry gs id = some e → e.allocation = .weight w →
    calculateEffectiveRate gs e = max 1 (w.toNat * unallocated gs / weightTotal gs / 2)
  heavier : ∀ id e w id' e' w', groupSchedulerFindEntry gs id = some e → e.allocation = .weight w →
    groupSchedulerFindEntry gs id' = some e' → e'.allocation = .weight w' → w ≤ w' →
    calculateEffectiveRate gs e ≤ calculateEffectiveRate gs e'
  total : ((gs.configuredEntries.filter (weightBased gs)).map (effectiveRateAt gs)).sum ≤
    unallocated gs + (gs.configuredEntries.filter (weightBased gs)).length

/-- The products of `calculate_effective_rate` fit 64 bits. -/
def ProductsFit (gs : GroupScheduler α) : Prop :=
  ∀ id e w, groupSchedulerFindEntry gs id = some e → e.allocation = .weight w →
    w.toNat * unallocated gs ≤ uint64Max

theorem weightBased_find {id : ℕ} (hid : weightBased gs id = true) :
    ∃ e w, groupSchedulerFindEntry gs id = some e ∧ e.allocation = .weight w := by
  unfold weightBased at hid
  rw [entryAllocations_of_find] at hid
  cases hfind : groupSchedulerFindEntry gs id with
  | none =>
    rw [hfind] at hid
    cases hid
  | some e =>
    rw [hfind, Option.map_some] at hid
    cases ha : e.allocation with
    | weight w => exact ⟨e, w, rfl, ha⟩
    | rate r =>
      rw [ha] at hid
      cases hid
    | other =>
      rw [ha] at hid
      cases hid

theorem shares_total_le (gs : GroupScheduler α) (p : ℕ → Bool) :
    ((gs.configuredEntries.filter p).map fun id =>
      shareOf gs (weightAt (entryAllocations gs id))).sum ≤ unallocated gs := by
  have hsub : ((gs.configuredEntries.filter p).map fun id =>
      weightAt (entryAllocations gs id)).sum ≤ weightTotal gs :=
    (List.filter_sublist.map _).sum_le_sum fun _ _ => Nat.zero_le _
  calc _ ≤ ((gs.configuredEntries.filter p).map fun id =>
        weightAt (entryAllocations gs id)).sum * unallocated gs / weightTotal gs :=
        sum_div_le _ _ _ _
    _ ≤ weightTotal gs * unallocated gs / weightTotal gs :=
        Nat.div_le_div_right (Nat.mul_le_mul_right _ hsub)
    _ ≤ unallocated gs := Nat.div_le_of_le_mul le_rfl

theorem EntryLedger.proportionalShares_iff (h : EntryLedger gs) (hfit : SharesFit gs) :
    ProportionalShares gs ↔ ProductsFit gs := by
  constructor
  · intro hshares id e w hfind hw
    exact (h.exact_iff hfit hfind hw).mp (hshares.exact id e w hfind hw)
  · intro hproducts
    have hexact : ∀ id e w, groupSchedulerFindEntry gs id = some e → e.allocation = .weight w →
        calculateEffectiveRate gs e = afterMargin (shareOf gs w.toNat) := by
      intro id e w hfind hw
      exact (h.exact_iff hfit hfind hw).mpr (hproducts id e w hfind hw)
    constructor
    · exact hexact
    · intro id e w id' e' w' hfind hw hfind' hw' hle
      rw [hexact id e w hfind hw, hexact id' e' w' hfind' hw']
      apply afterMargin_mono
      exact Nat.div_le_div_right (Nat.mul_le_mul_right _ hle)
    · have hrates : (gs.configuredEntries.filter (weightBased gs)).map (effectiveRateAt gs) =
          (gs.configuredEntries.filter (weightBased gs)).map fun id =>
            afterMargin (shareOf gs (weightAt (entryAllocations gs id))) := by
        apply List.map_congr_left
        intro id hid
        obtain ⟨e, w, hfind, hw⟩ := weightBased_find (List.mem_filter.mp hid).2
        rw [effectiveRateAt, entryAllocations_of_find, hfind, Option.map_some, Option.map_some, hw]
        exact hexact id e w hfind hw
      rw [hrates]
      have hsum := shares_total_le gs (weightBased gs)
      have hround := sum_afterMargin_le (fun id => shareOf gs (weightAt (entryAllocations gs id)))
        (gs.configuredEntries.filter (weightBased gs))
      omega

/-! ## Runs of a group scheduler -/

/-- A group scheduler with its ledger and the capacity it was made with. -/
structure Booked (totalCapacity : ℕ) (st : GroupState α) : Prop where
  inv : GroupInv st.mem st.gs
  ledger : EntryLedger st.gs
  capacity : st.gs.totalCapacity = totalCapacity

theorem Fresh.booked {numGroups binsPerGroup totalCapacity maxEntries : ℕ} {st : GroupState α}
    (h : Fresh numGroups binsPerGroup totalCapacity maxEntries st) : Booked totalCapacity st := by
  refine ⟨h.inv, h.ledger, ?_⟩
  obtain ⟨mem, entries, -, hinit⟩ := h.init
  exact (init_some hinit).2.2.2.2.2.2.2.2.2.2.2.2.1

theorem Booked.step {totalCapacity : ℕ} {st : GroupState α} (h : Booked totalCapacity st)
    (c : GroupCall α) : Booked totalCapacity (st.step c) := by
  have hkept : ∀ {gs' : GroupScheduler α}, RatesKept st.gs gs' →
      EntryLedger gs' ∧ gs'.totalCapacity = totalCapacity := fun hkept =>
    ⟨h.ledger.keep hkept, hkept.capacity.trans h.capacity⟩
  obtain ⟨hledger, hcapacity⟩ : EntryLedger (st.step c).gs ∧
      (st.step c).gs.totalCapacity = totalCapacity := by
    cases c with
    | configureEntry id a =>
      have hbounds := configureEntry_bounds h.inv.sums id.toNat a
      exact ⟨h.ledger.configure h.inv.sums _ a,
        (congrArg Bounds.totalCapacity hbounds).trans h.capacity⟩
    | removeEntry id =>
      have hbounds := removeEntry_bounds st.gs id.toNat
      exact ⟨h.ledger.removeEntry _, (congrArg Bounds.totalCapacity hbounds).trans h.capacity⟩
    | enqueue id w ud cf => exact hkept (.enqueue st.mem st.gs _ _ ud cf)
    | dequeue => exact hkept (.dequeue st.gs)
    | updateVirtualTime w => exact hkept (.update st.gs _)
  exact ⟨h.inv.step c, hledger, hcapacity⟩

theorem Fresh.booked_run {numGroups binsPerGroup totalCapacity maxEntries : ℕ} {st : GroupState α}
    (h : Fresh numGroups binsPerGroup totalCapacity maxEntries st) (calls : List (GroupCall α)) :
    Booked totalCapacity (run GroupState.step st calls) :=
  run_invariant_all (fun _ c hst => hst.step c) h.booked calls

theorem Booked.sharesFit {totalCapacity : UInt64} {st : GroupState α}
    (h : Booked totalCapacity.toNat st) (hrates : reservedTotal st.gs ≤ st.gs.totalCapacity)
    (hweights : weightTotal st.gs ≤ uint32Max) : SharesFit st.gs := by
  refine ⟨?_, hrates, hweights⟩
  have hcap := totalCapacity.toNat_lt
  rw [h.capacity]
  unfold uint64Max
  omega

/-- In every state whose weights add up to 32 bits the rates of the weights are proportional
exactly when no product of a weight and the unallocated capacity leaves 64 bits. -/
theorem proportional_shares {numGroups binsPerGroup maxEntries : ℕ} {totalCapacity : UInt64}
    {st : GroupState α} (h : Fresh numGroups binsPerGroup totalCapacity.toNat maxEntries st)
    (calls : List (GroupCall α))
    (hrates : reservedTotal (run GroupState.step st calls).gs ≤
      (run GroupState.step st calls).gs.totalCapacity)
    (hweights : weightTotal (run GroupState.step st calls).gs ≤ uint32Max) :
    ProportionalShares (run GroupState.step st calls).gs ↔
      ProductsFit (run GroupState.step st calls).gs := by
  have hbooked := h.booked_run calls
  exact hbooked.ledger.proportionalShares_iff (hbooked.sharesFit hrates hweights)

theorem proportional_shares_default :
    ProportionalShares (run GroupState.step defaultGroup twoEntryCalls).gs ↔
      ProductsFit (run GroupState.step defaultGroup twoEntryCalls).gs :=
  @proportional_shares _ 16 2048 2 100 _ defaultGroup_fresh twoEntryCalls (by decide +kernel)
    (by decide +kernel)

theorem newGroup_unlimited_isSome :
    (newGroup ℕ 16 1 18446744073709551615 2 2).isSome = true := by decide +kernel

/-- A scheduler with the capacity `UINT64_MAX` and two entries to configure. -/
def unlimitedGroup : GroupState ℕ :=
  (newGroup ℕ 16 1 18446744073709551615 2 2).get newGroup_unlimited_isSome

def seventyThirty : List (GroupCall ℕ) :=
  [.configureEntry 0 (.weight 70), .configureEntry 1 (.weight 30)]

theorem seventyThirty_find :
    (groupSchedulerFindEntry (run GroupState.step unlimitedGroup seventyThirty).gs 0).isSome =
      true := by decide +kernel

/-- With an unlimited capacity the weights 70 and 30 get the same rate. -/
theorem shares_not_proportional :
    let gs := (run GroupState.step unlimitedGroup seventyThirty).gs
    effectiveRateAt gs 0 = 92233720368547757 ∧ effectiveRateAt gs 1 = 92233720368547757 ∧
      reservedTotal gs ≤ gs.totalCapacity ∧ ¬ ProportionalShares gs := by
  refine ⟨by decide +kernel, by decide +kernel, by decide +kernel, fun hshares => ?_⟩
  have hexact := hshares.exact 0 _ 70 (Option.some_get seventyThirty_find).symm (by decide +kernel)
  revert hexact
  decide +kernel

/-! ## The margin -/

/-- What an entry is configured to get: its rate, or the share of its weight. -/
def nominalRate (gs : GroupScheduler α) (e : EntryConfig) : ℕ :=
  match e.allocation with
  | .rate r => r.toNat
  | a => shareOf gs a.weightValue

/-- Enqueue divides by one half of the nominal rate for every kind of entry, so the rates of
two entries stand as their nominal rates do, up to the rounding of the margin. -/
structure UniformMargin (gs : GroupScheduler α) : Prop where
  halved : ∀ id e, groupSchedulerFindEntry gs id = some e →
    entryRate gs e = max 1 (nominalRate gs e / 2)
  ratio : ∀ id e id' e', groupSchedulerFindEntry gs id = some e →
    groupSchedulerFindEntry gs id' = some e' →
    entryRate gs e * nominalRate gs e' ≤
      entryRate gs e' * nominalRate gs e + (entryRate gs e + 2 * entryRate gs e')

/-- Every rate-based entry has the rate one. -/
def UnitRates (gs : GroupScheduler α) : Prop :=
  ∀ id e r, groupSchedulerFindEntry gs id = some e → e.allocation = .rate r → r = 1

theorem afterMargin_ratio (m n : ℕ) :
    afterMargin m * n ≤ afterMargin n * m + (afterMargin m + 2 * afterMargin n) := by
  have hn : n ≤ 2 * afterMargin n + 1 := by
    unfold afterMargin
    omega
  have hm : 2 * afterMargin m ≤ m + 2 := by
    unfold afterMargin
    omega
  calc afterMargin m * n ≤ afterMargin m * (2 * afterMargin n + 1) := Nat.mul_le_mul_left _ hn
    _ = afterMargin n * (2 * afterMargin m) + afterMargin m := by
        rw [Nat.mul_add, Nat.mul_one, Nat.mul_left_comm, Nat.mul_left_comm (afterMargin n),
          Nat.mul_comm (afterMargin m)]
    _ ≤ afterMargin n * (m + 2) + afterMargin m :=
        Nat.add_le_add_right (Nat.mul_le_mul_left _ hm) _
    _ = _ := by
        rw [Nat.mul_add, Nat.mul_comm _ 2, Nat.add_assoc, Nat.add_comm (2 * _)]

section Margin
variable (h : EntryLedger gs) {id : ℕ} {e : EntryConfig}
  (hfind : groupSchedulerFindEntry gs id = some e)
include h hfind

/-- The rate of a rate-based entry is divided by as it is. -/
theorem EntryLedger.halved_rate_iff {r : UInt64} (hr : e.allocation = .rate r) :
    entryRate gs e = max 1 (r.toNat / 2) ↔ r = 1 := by
  have hvalid := h.valid id e hfind
  have hcached := h.cached id e hfind
  rw [hr] at hvalid
  simp only [validateAllocation, ne_eq, decide_not, Bool.not_eq_true', decide_eq_false_iff_not,
    ← UInt64.toNat_inj] at hvalid
  unfold cachedRate at hcached
  unfold entryRate
  rw [hr] at hcached ⊢
  dsimp only at hcached ⊢
  rw [hcached, ← UInt64.toNat_inj]
  have hone : (1 : UInt64).toNat = 1 := rfl
  have hzero : (0 : UInt64).toNat = 0 := rfl
  omega

theorem EntryLedger.halved_weight_iff (hfit : SharesFit gs) {w : UInt32}
    (hw : e.allocation = .weight w) :
    entryRate gs e = max 1 (shareOf gs w.toNat / 2) ↔ w.toNat * unallocated gs ≤ uint64Max := by
  have hrate : entryRate gs e = calculateEffectiveRate gs e := by
    unfold entryRate
    rw [hw]
  rw [hrate]
  exact h.exact_iff hfit hfind hw

end Margin

theorem EntryLedger.uniformMargin_iff (h : EntryLedger gs) (hfit : SharesFit gs) :
    UniformMargin gs ↔ UnitRates gs ∧ ProductsFit gs := by
  have hnominalRate : ∀ e r, e.allocation = .rate r → nominalRate gs e = r.toNat := by
    intro e r hr
    unfold nominalRate
    rw [hr]
  have hnominalWeight : ∀ e w, e.allocation = .weight w → nominalRate gs e = shareOf gs w.toNat := by
    intro e w hw
    unfold nominalRate
    rw [hw]
    rfl
  constructor
  · intro hmargin
    constructor
    · intro id e r hfind hr
      apply (h.halved_rate_iff hfind hr).mp
      rw [← hnominalRate e r hr]
      exact hmargin.halved id e hfind
    · intro id e w hfind hw
      apply (h.halved_weight_iff hfind hfit hw).mp
      rw [← hnominalWeight e w hw]
      exact hmargin.halved id e hfind
  · intro hcond
    have hhalved : ∀ id e, groupSchedulerFindEntry gs id = some e →
        entryRate gs e = afterMargin (nominalRate gs e) := by
      intro id e hfind
      cases ha : e.allocation with
      | rate r =>
        rw [hnominalRate e r ha]
        exact (h.halved_rate_iff hfind ha).mpr (hcond.1 id e r hfind ha)
      | weight w =>
        rw [hnominalWeight e w ha]
        exact (h.halved_weight_iff hfind hfit ha).mpr (hcond.2 id e w hfind ha)
      | other =>
        have hvalid := h.valid id e hfind
        rw [ha] at hvalid
        cases hvalid
    constructor
    · exact hhalved
    · intro id e id' e' hfind hfind'
      rw [hhalved id e hfind, hhalved id' e' hfind']
      exact afterMargin_ratio _ _

/-- The margin reaches the weights and passes over the rates: a rate-based entry has half of
its nominal rate only at the rate one. -/
theorem margin_uniform_iff {numGroups binsPerGroup maxEntries : ℕ} {totalCapacity : UInt64}
    {st : GroupState α} (h : Fresh numGroups binsPerGroup totalCapacity.toNat maxEntries st)
    (calls : List (GroupCall α)) :
    let gs := (run GroupState.step st calls).gs
    (∀ id e r, groupSchedulerFindEntry gs id = some e → e.allocation = .rate r →
        (entryRate gs e = max 1 (nominalRate gs e / 2) ↔ r = 1)) ∧
      (reservedTotal gs ≤ gs.totalCapacity → weightTotal gs ≤ uint32Max →
        (UniformMargin gs ↔ UnitRates gs ∧ ProductsFit gs)) := by
  have hbooked := h.booked_run calls
  constructor
  · intro id e r hfind hr
    unfold nominalRate
    rw [hr]
    exact hbooked.ledger.halved_rate_iff hfind hr
  · intro hrates hweights
    exact hbooked.ledger.uniformMargin_iff (hbooked.sharesFit hrates hweights)

theorem margin_uniform_iff_default :
    let gs := (run GroupState.step defaultGroup twoEntryCalls).gs
    (∀ id e r, groupSchedulerFindEntry gs id = some e → e.allocation = .rate r →
        (entryRate gs e = max 1 (nominalRate gs e / 2) ↔ r = 1)) ∧
      (reservedTotal gs ≤ gs.totalCapacity → weightTotal gs ≤ uint32Max →
        (UniformMargin gs ↔ UnitRates gs ∧ ProductsFit gs)) :=
  @margin_uniform_iff _ 16 2048 2 100 _ defaultGroup_fresh twoEntryCalls

/-- Half of the capacity by rate, and the other half by weight. -/
def halfAndHalf : List (GroupCall ℕ) :=
  [.configureEntry 0 (.rate 50), .configureEntry 1 (.weight 1)]

theorem halfAndHalf_find : ∀ id < 2,
    (groupSchedulerFindEntry (run GroupState.step defaultGroup halfAndHalf).gs id).isSome =
      true := by decide +kernel

/-- Two entries with the nominal rate 50: one has the rate 50, the other 25. -/
theorem margin_not_uniform :
    let gs := (run GroupState.step defaultGroup halfAndHalf).gs
    (groupSchedulerFindEntry gs 0).map (fun e => (nominalRate gs e, entryRate gs e)) =
        some (50, 50) ∧
      (groupSchedulerFindEntry gs 1).map (fun e => (nominalRate gs e, entryRate gs e)) =
        some (50, 25) ∧ ¬ UniformMargin gs := by
  refine ⟨by decide +kernel, by decide +kernel, fun hmargin => ?_⟩
  have hhalved := hmargin.halved 0 _ (Option.some_get (halfAndHalf_find 0 (by decide))).symm
  revert hhalved
  decide +kernel

end Hwfq
