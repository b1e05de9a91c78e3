import Hwfq.GroupInvariant
import Hwfq.Scheduler

/-!
# The table of sessions in flight

The doubly linked list and the hash chains hold the same entries. A lookup through
either finds an entry of the list, and removal takes exactly that entry out of both.
-/
namespace Hwfq
open Bins

variable {s : Scheduler}

/-- The list and the chains agree and every entry is an object of its own. -/
structure FlightInv (mem : Allocator) (inFlight : List InFlightEntry)
    (inFlightHash : ℕ → List InFlightEntry) : Prop where
  addrs : (inFlight.map (·.addr)).Nodup
  old : ∀ e ∈ inFlight, e.addr < mem.next
  chains : ∀ b e, e ∈ inFlightHash b ↔ e ∈ inFlight ∧ hashUserData e.userData = b
  chainAddrs : ∀ b, ((inFlightHash b).map (·.addr)).Nodup

theorem FlightInv.empty (mem : Allocator) : FlightInv mem [] fun _ => [] where
  addrs := List.nodup_nil
  old _ he := by cases he
  chains b e := by simp
  chainAddrs _ := List.nodup_nil

theorem FlightInv.weaken {mem mem' : Allocator} {l : List InFlightEntry}
    {hash : ℕ → List InFlightEntry} (h : FlightInv mem l hash) (hmem : mem.next ≤ mem'.next) :
    FlightInv mem' l hash :=
  { h with old := fun e he => (h.old e he).trans_le hmem }

/-! ## Lookup -/

theorem inFlightLookup_some {mem : Allocator} (h : FlightInv mem s.inFlight s.inFlightHash)
    {work : Option Session} {tenantId flowId : ℕ} {found : InFlightEntry}
    (hfound : inFlightLookup s work tenantId flowId = some found) :
    found ∈ s.inFlight ∧ found.tenantId = tenantId ∧ found.flowId = flowId := by
  unfold inFlightLookup at hfound
  extract_lets userData at hfound
  split_ifs at hfound
  · have hp := List.find?_some hfound
    have hmem := ((h.chains _ found).mp (List.mem_of_find?_eq_some hfound)).1
    simp only [Bool.and_eq_true, decide_eq_true_eq] at hp
    exact ⟨hmem, hp.1.2, hp.2⟩
  · have hp := List.find?_some hfound
    simp only [Bool.and_eq_true, decide_eq_true_eq] at hp
    exact ⟨List.mem_of_find?_eq_some hfound, hp.1, hp.2⟩

/-! ## Insertion and removal -/

theorem FlightInv.insert {mem mem' : Allocator} (h : FlightInv mem s.inFlight s.inFlightHash)
    {entry : InFlightEntry} (haddr : entry.addr = mem.next) (hmem : mem'.next = mem.next + 1) :
    FlightInv mem' (inFlightInsert s entry).inFlight (inFlightInsert s entry).inFlightHash := by
  have hfresh : ∀ e ∈ s.inFlight, e.addr ≠ entry.addr := fun e he =>
    ((h.old e he).trans_eq haddr.symm).ne
  refine ⟨?_, fun e he => ?_, fun b e => ?_, fun b => ?_⟩
  · simp only [inFlightInsert, List.map_append, List.map_cons, List.map_nil]
    refine List.nodup_append'.mpr ⟨h.addrs, List.nodup_singleton _, ?_⟩
    rw [List.disjoint_singleton]
    intro hin
    obtain ⟨e, he, heq⟩ := List.mem_map.mp hin
    exact hfresh e he heq
  · rcases List.mem_append.mp he with he | he
    · rw [hmem]
      exact (h.old e he).trans (Nat.lt_succ_self _)
    · rw [List.mem_singleton.mp he, haddr, hmem]
      exact Nat.lt_succ_self _
  · simp only [inFlightInsert, List.mem_append, List.mem_singleton]
    by_cases hb : b = hashUserData entry.userData
    · subst hb
      rw [Function.update_self, List.mem_cons, h.chains]
      constructor
      · rintro (rfl | ⟨he, hh⟩)
        · exact ⟨.inr rfl, rfl⟩
        · exact ⟨.inl he, hh⟩
      · rintro ⟨he | rfl, hh⟩
        · exact .inr ⟨he, hh⟩
        · exact .inl rfl
    · rw [Function.update_of_ne hb, h.chains]
      constructor
      · rintro ⟨he, hh⟩
        exact ⟨.inl he, hh⟩
      · rintro ⟨he | rfl, hh⟩
        · exact ⟨he, hh⟩
        · exact absurd hh.symm hb
  · simp only [inFlightInsert]
    by_cases hb : b = hashUserData entry.userData
    · subst hb
      rw [Function.update_self, List.map_cons, List.nodup_cons]
      refine ⟨fun hin => ?_, h.chainAddrs _⟩
      obtain ⟨e, he, heq⟩ := List.mem_map.mp hin
      exact hfresh e ((h.chains _ e).mp he).1 heq
    · rw [Function.update_of_ne hb]
      exact h.chainAddrs b

section Remove
variable {mem : Allocator} (h : FlightInv mem s.inFlight s.inFlightHash) {entry : InFlightEntry}
  (hentry : entry ∈ s.inFlight)
include h hentry

theorem inFlightRemove_perm : s.inFlight.Perm (entry :: (inFlightRemove s entry).inFlight) :=
  eraseP_key_perm (f := InFlightEntry.addr) h.addrs hentry

theorem mem_inFlightRemove {e : InFlightEntry} :
    e ∈ (inFlightRemove s entry).inFlight ↔ e ∈ s.inFlight ∧ e ≠ entry :=
  mem_eraseP_key (f := InFlightEntry.addr) h.addrs hentry

/-- Removal closes the list up where the entry stood. -/
theorem inFlightRemove_split {kept rest : List InFlightEntry}
    (hsplit : s.inFlight = kept ++ entry :: rest) :
    (inFlightRemove s entry).inFlight = kept ++ rest := by
  have hkept : ∀ d ∈ kept, ¬ (decide (d.addr = entry.addr)) = true := by
    intro d hd heq
    have hdin : d ∈ s.inFlight := by
      rw [hsplit]
      exact List.mem_append_left _ hd
    have hsame : d = entry := List.inj_on_of_nodup_map h.addrs hdin hentry (by simpa using heq)
    subst hsame
    have hnodup := h.addrs.of_map
    rw [hsplit] at hnodup
    exact (List.nodup_append.mp hnodup).2.2 d hd d List.mem_cons_self rfl
  simp only [inFlightRemove]
  rw [hsplit, List.eraseP_append_right _ hkept, List.eraseP_cons_of_pos (by simp)]

theorem FlightInv.remove :
    FlightInv mem (inFlightRemove s entry).inFlight (inFlightRemove s entry).inFlightHash := by
  refine ⟨?_, fun e he => h.old e ((mem_inFlightRemove h hentry).mp he).1, fun b e => ?_,
    fun b => ?_⟩
  · exact h.addrs.sublist (List.eraseP_sublist.map _)
  · rw [mem_inFlightRemove h hentry]
    simp only [inFlightRemove]
    by_cases hb : b = hashUserData entry.userData
    · subst hb
      have hin : entry ∈ s.inFlightHash (hashUserData entry.userData) :=
        (h.chains _ entry).mpr ⟨hentry, rfl⟩
      rw [Function.update_self, mem_eraseP_key (f := InFlightEntry.addr) (h.chainAddrs _) hin,
        h.chains]
      tauto
    · rw [Function.update_of_ne hb, h.chains]
      constructor
      · rintro ⟨he, hh⟩
        exact ⟨⟨he, fun heq => hb (heq ▸ hh.symm)⟩, hh⟩
      · rintro ⟨⟨he, -⟩, hh⟩
        exact ⟨he, hh⟩
  · simp only [inFlightRemove]
    by_cases hb : b = hashUserData entry.userData
    · subst hb
      rw [Function.update_self]
      exact (h.chainAddrs _).sublist (List.eraseP_sublist.map _)
    · rw [Function.update_of_ne hb]
      exact h.chainAddrs b

end Remove

/-! ## The totals -/

/-- The in-flight totals are those of the list, modulo the width of their fields. -/
structure FlightTotals (s : Scheduler) : Prop where
  workSize : s.inFlightWorkSize = u64 (s.inFlight.map (·.workSize)).sum
  count : s.inFlightCount = u32 s.inFlight.length
  fits : ∀ e ∈ s.inFlight, e.workSize ≤ uint64Max

theorem u64_add (n w : ℕ) : u64 (u64 n + w) = u64 (n + w) := by
  unfold u64
  omega

theorem subU64_add {n w : ℕ} (hw : w ≤ uint64Max) : subU64 (u64 (n + w)) w = u64 n := by
  unfold uint64Max at hw
  unfold subU64 u64
  split_ifs <;> omega

theorem FlightTotals.add (h : FlightTotals s) {entry : InFlightEntry}
    (hfits : entry.workSize ≤ uint64Max) : FlightTotals (addInFlight s entry) where
  workSize := by
    simp only [addInFlight, inFlightInsert, List.map_append, List.sum_append, List.map_cons,
      List.map_nil, List.sum_singleton]
    rw [h.workSize, u64_add]
  count := by
    simp only [addInFlight, inFlightInsert, List.length_append, List.length_singleton]
    rw [h.count, u32_succ]
  fits e he := by
    rcases List.mem_append.mp he with he | he
    · exact h.fits e he
    · rwa [List.mem_singleton.mp he]

theorem FlightTotals.take {mem : Allocator} (h : FlightTotals s)
    (hinv : FlightInv mem s.inFlight s.inFlightHash) {entry : InFlightEntry}
    (hentry : entry ∈ s.inFlight) : FlightTotals (takeInFlight s entry) where
  workSize := by
    have hsum := ((inFlightRemove_perm hinv hentry).map (·.workSize)).sum_eq
    rw [List.map_cons, List.sum_cons, add_comm] at hsum
    have hfield : (takeInFlight s entry).inFlightWorkSize =
        subU64 s.inFlightWorkSize entry.workSize := rfl
    rw [hfield, h.workSize, hsum, subU64_add (h.fits entry hentry)]
    rfl
  count := by
    have hlen := (inFlightRemove_perm hinv hentry).length_eq
    have hfield : (takeInFlight s entry).inFlightCount = subU32 s.inFlightCount 1 := rfl
    rw [hfield, h.count, hlen, List.length_cons, subU32_one]
    rfl
  fits e he := h.fits e ((mem_inFlightRemove hinv hentry).mp he).1

end Hwfq
