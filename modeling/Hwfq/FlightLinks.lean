import Hwfq.InFlightTable
import Hwfq.LinkedChains

/-!
# The in-flight table in memory

The doubly linked list and the hash chains thread the same objects. The pointer
code of `in_flight_insert`, `in_flight_remove` and the sweep of
`hwfq_check_timeouts` keeps both threads in step with the lists of the model.
-/
namespace Hwfq
open LinkedChains Bins

/-- The pointers of the table and the objects, field by field. -/
structure FlightLinks where
  hashHeads : ℕ → Option Addr
  hashNext : Addr → Option Addr
  head : Option Addr
  tail : Option Addr
  listNext : Addr → Option Addr
  listPrev : Addr → Option Addr
  entry : Addr → Option InFlightEntry

/-- `in_flight_insert` of a new object. -/
def FlightLinks.insert (m : FlightLinks) (entry : InFlightEntry) : FlightLinks :=
  let bucket := hashUserData entry.userData
  let m := { m with entry := Function.update m.entry entry.addr (some entry) }
  let m := { m with hashNext := Function.update m.hashNext entry.addr (m.hashHeads bucket) }
  let m := { m with hashHeads := Function.update m.hashHeads bucket (some entry.addr) }
  let m := { m with
    listNext := Function.update m.listNext entry.addr none
    listPrev := Function.update m.listPrev entry.addr m.tail }
  let m :=
    match m.tail with
    | some last => { m with listNext := Function.update m.listNext last (some entry.addr) }
    | none => { m with head := some entry.addr }
  { m with tail := some entry.addr }

/-- One chain as a thread. -/
def FlightLinks.chain (m : FlightLinks) (bucket : ℕ) : Thread Addr :=
  ⟨m.hashHeads bucket, m.hashNext⟩

/-- The list as a doubly linked one. -/
def FlightLinks.list (m : FlightLinks) : Links Addr := ⟨⟨m.head, m.listNext⟩, ⟨m.tail, m.listPrev⟩⟩

/-- The first half of `in_flight_remove`: a walk along the chain. -/
def FlightLinks.removeFromChain (m : FlightLinks) (fuel : ℕ) (entry : InFlightEntry) :
    FlightLinks :=
  let bucket := hashUserData entry.userData
  let chain := (m.chain bucket).unlinkWalk entry.addr fuel none
  { m with
    hashHeads := Function.update m.hashHeads bucket chain.anchor
    hashNext := chain.next }

/-- The second half of `in_flight_remove`. -/
def FlightLinks.removeFromList (m : FlightLinks) (a : Addr) : FlightLinks :=
  let m :=
    match m.listPrev a with
    | some prev => { m with listNext := Function.update m.listNext prev (m.listNext a) }
    | none => { m with head := m.listNext a }
  match m.listNext a with
  | some next => { m with listPrev := Function.update m.listPrev next (m.listPrev a) }
  | none => { m with tail := m.listPrev a }

/-- `in_flight_remove`. -/
def FlightLinks.remove (m : FlightLinks) (fuel : ℕ) (entry : InFlightEntry) : FlightLinks :=
  (m.removeFromChain fuel entry).removeFromList entry.addr

/-- The loop of `hwfq_check_timeouts` from the node `a` on. A timed out object goes on
top of `timedOutList`, linked by its `hash_next`. -/
def FlightLinks.sweep (currentTimeNs bound : ℕ) :
    ℕ → Option Addr → Option Addr × FlightLinks → Option Addr × FlightLinks
  | 0, _, r => r
  | _ + 1, none, r => r
  | fuel + 1, some a, (timedOutList, m) =>
      let next := m.listNext a
      match m.entry a with
      | none => (timedOutList, m)
      | some entry =>
          if isTimedOut currentTimeNs entry then
            let m := m.remove bound entry
            sweep currentTimeNs bound fuel next
              (some a, { m with hashNext := Function.update m.hashNext a timedOutList })
          else sweep currentTimeNs bound fuel next (timedOutList, m)

/-- The pointers thread the list and every chain, and the objects are the entries. -/
structure Threads (m : FlightLinks) (inFlight : List InFlightEntry)
    (inFlightHash : ℕ → List InFlightEntry) : Prop where
  list : m.list.Holds (inFlight.map (·.addr))
  chains : ∀ b, (m.chain b).Holds ((inFlightHash b).map (·.addr))
  entries : ∀ e ∈ inFlight, m.entry e.addr = some e

variable {m : FlightLinks} {s : Scheduler} {mem : Allocator} {entry : InFlightEntry}

/-! ## Chains and objects -/

/-- The chains of two buckets have no object in common. -/
theorem FlightInv.chains_disjoint (h : FlightInv mem s.inFlight s.inFlightHash) {b c : ℕ}
    (hne : c ≠ b) {a : Addr} (ha : a ∈ (s.inFlightHash c).map (·.addr)) :
    a ∉ (s.inFlightHash b).map (·.addr) := by
  intro hb
  obtain ⟨e, he, rfl⟩ := List.mem_map.mp ha
  obtain ⟨d, hd, haddr⟩ := List.mem_map.mp hb
  obtain ⟨he, hec⟩ := (h.chains c e).mp he
  obtain ⟨hd, hdb⟩ := (h.chains b d).mp hd
  have hde : d = e := List.inj_on_of_nodup_map h.addrs hd he haddr
  subst hde
  exact hne (hec.symm.trans hdb)

theorem FlightInv.length_le (h : FlightInv mem s.inFlight s.inFlightHash) :
    s.inFlight.length ≤ mem.next := by
  have hsub : (s.inFlight.map (·.addr)).toFinset ⊆ Finset.range mem.next := by
    intro a ha
    obtain ⟨e, he, rfl⟩ := List.mem_map.mp (List.mem_toFinset.mp ha)
    exact Finset.mem_range.mpr (h.old e he)
  have hcard := Finset.card_le_card hsub
  rwa [List.toFinset_card_of_nodup h.addrs, Finset.card_range, List.length_map] at hcard

/-- A chain is no longer than the list. -/
theorem FlightInv.chain_length_le (h : FlightInv mem s.inFlight s.inFlightHash) (b : ℕ) :
    ((s.inFlightHash b).map (·.addr)).length ≤ mem.next := by
  have hsub : (s.inFlightHash b).Subperm s.inFlight := by
    apply List.subperm_of_subset (h.chainAddrs b).of_map
    intro e he
    exact ((h.chains b e).mp he).1
  rw [List.length_map]
  exact hsub.length_le.trans h.length_le

/-! ## Insertion -/

theorem FlightLinks.insert_list (m : FlightLinks) (entry : InFlightEntry) :
    (m.insert entry).list = m.list.insert entry.addr m.tail none := by
  cases htail : m.tail with
  | none => simp [FlightLinks.insert, FlightLinks.list, Links.insert, Thread.link, Thread.write, htail]
  | some last =>
    simp [FlightLinks.insert, FlightLinks.list, Links.insert, Thread.link, Thread.write, htail]

theorem FlightLinks.insert_chains (m : FlightLinks) (entry : InFlightEntry) :
    (m.insert entry).hashHeads =
        Function.update m.hashHeads (hashUserData entry.userData) (some entry.addr) ∧
      (m.insert entry).hashNext = Function.update m.hashNext entry.addr
        (m.hashHeads (hashUserData entry.userData)) ∧
      (m.insert entry).entry = Function.update m.entry entry.addr (some entry) := by
  unfold FlightLinks.insert
  dsimp only
  cases m.tail <;> exact ⟨rfl, rfl, rfl⟩

theorem Threads.insert (h : Threads m s.inFlight s.inFlightHash)
    (hinv : FlightInv mem s.inFlight s.inFlightHash)
    (hfresh : entry.addr ∉ s.inFlight.map (·.addr)) :
    Threads (m.insert entry) (inFlightInsert s entry).inFlight
      (inFlightInsert s entry).inFlightHash := by
  obtain ⟨hheads, hnext, hentry⟩ := m.insert_chains entry
  have hnot : ∀ b, entry.addr ∉ (s.inFlightHash b).map (·.addr) := by
    intro b hin
    obtain ⟨e, he, haddr⟩ := List.mem_map.mp hin
    exact hfresh (haddr ▸ List.mem_map_of_mem ((hinv.chains b e).mp he).1)
  constructor
  · have htail : m.tail = (s.inFlight.map (·.addr)).getLast? := by
      have hfirst := Path.first h.list.2
      rwa [List.head?_reverse] at hfirst
    have hlist := h.list
    rw [← List.append_nil (s.inFlight.map _)] at hlist
    have hins := hlist.insert (by simpa using hinv.addrs) (by simpa using hfresh)
    rw [m.insert_list, htail]
    simpa [inFlightInsert] using hins
  · intro b
    unfold FlightLinks.chain
    rw [hheads, hnext]
    simp only [inFlightInsert]
    by_cases hb : b = hashUserData entry.userData
    · subst hb
      rw [Function.update_self, Function.update_self, List.map_cons]
      have hold := (h.chains (hashUserData entry.userData)).write (hnot _)
        (m.hashHeads (hashUserData entry.userData))
      refine ⟨rfl, ?_⟩
      dsimp only
      rw [Function.update_self]
      exact hold
    · rw [Function.update_of_ne hb, Function.update_of_ne hb]
      exact (h.chains b).write (hnot b) (m.hashHeads (hashUserData entry.userData))
  · rw [hentry]
    intro e he
    rcases List.mem_append.mp he with he | he
    · rw [Function.update_of_ne]
      · exact h.entries e he
      · intro heq
        exact hfresh (heq ▸ List.mem_map_of_mem he)
    · rw [List.mem_singleton.mp he, Function.update_self]

/-! ## Removal -/

/-- The removal from the list lets the neighbours point to each other. -/
theorem FlightLinks.removeFromList_list {l₁ l₂ : List Addr} {a : Addr}
    (h : m.list.Holds (l₁ ++ a :: l₂)) (hnodup : (l₁ ++ a :: l₂).Nodup) :
    (m.removeFromList a).list = m.list.remove a := by
  have hne : ∀ p ∈ m.listPrev a, a ≠ p := by
    rintro p hp rfl
    have hlast : l₁.getLast? = some a := (Links.Holds.neighbours h).2.symm.trans hp
    exact (List.nodup_append.mp hnodup).2.2 a (List.mem_of_getLast? hlast) a List.mem_cons_self rfl
  cases hp : m.listPrev a with
  | none =>
    cases hn : m.listNext a with
    | none => simp [FlightLinks.removeFromList, FlightLinks.list, Links.remove, Thread.link, hp, hn]
    | some c => simp [FlightLinks.removeFromList, FlightLinks.list, Links.remove, Thread.link, hp, hn]
  | some p =>
    have hself : Function.update m.listNext p (m.listNext a) a = m.listNext a :=
      Function.update_of_ne (hne p hp) _ _
    cases hn : m.listNext a with
    | none =>
      rw [hn] at hself
      simp [FlightLinks.removeFromList, FlightLinks.list, Links.remove, Thread.link, hp, hn, hself]
    | some c =>
      rw [hn] at hself
      simp [FlightLinks.removeFromList, FlightLinks.list, Links.remove, Thread.link, hp, hn, hself]

theorem FlightLinks.removeFromList_rest (m : FlightLinks) (a : Addr) :
    (m.removeFromList a).hashHeads = m.hashHeads ∧ (m.removeFromList a).hashNext = m.hashNext ∧
      (m.removeFromList a).entry = m.entry := by
  unfold FlightLinks.removeFromList
  dsimp only
  cases m.listPrev a <;> dsimp only <;> split <;> exact ⟨rfl, rfl, rfl⟩

theorem Threads.remove (h : Threads m s.inFlight s.inFlightHash)
    (hinv : FlightInv mem s.inFlight s.inFlightHash) (hentry : entry ∈ s.inFlight) {fuel : ℕ}
    (hfuel : mem.next ≤ fuel) :
    Threads (m.remove fuel entry) (inFlightRemove s entry).inFlight
      (inFlightRemove s entry).inFlightHash := by
  obtain ⟨hheads, hnext, hobjects⟩ :=
    (m.removeFromChain fuel entry).removeFromList_rest entry.addr
  have hin : entry ∈ s.inFlightHash (hashUserData entry.userData) :=
    (hinv.chains _ entry).mpr ⟨hentry, rfl⟩
  constructor
  · obtain ⟨l₁, l₂, hsplit, herase⟩ :=
      eraseP_key_split (f := InFlightEntry.addr) hinv.addrs hentry
    have hlist : (m.removeFromChain fuel entry).list.Holds (s.inFlight.map (·.addr)) := h.list
    have hnodup := hinv.addrs
    rw [hsplit, List.map_append, List.map_cons] at hlist hnodup
    have hrem := hlist.remove hnodup
    rw [FlightLinks.remove, FlightLinks.removeFromList_list hlist hnodup]
    simp only [inFlightRemove]
    rw [herase, List.map_append]
    exact hrem
  · intro b
    obtain ⟨k₁, k₂, hsplit, herase⟩ :=
      eraseP_key_split (f := InFlightEntry.addr) (hinv.chainAddrs _) hin
    have hchain := h.chains (hashUserData entry.userData)
    have hnodup := hinv.chainAddrs (hashUserData entry.userData)
    have hlen := (hinv.chain_length_le (hashUserData entry.userData)).trans hfuel
    have hdisj : b ≠ hashUserData entry.userData →
        ∀ a ∈ (s.inFlightHash b).map (·.addr),
          a ∉ (s.inFlightHash (hashUserData entry.userData)).map (·.addr) := by
      intro hb a ha
      exact hinv.chains_disjoint hb ha
    rw [hsplit, List.map_append, List.map_cons] at hchain hnodup hlen
    unfold FlightLinks.chain FlightLinks.remove
    rw [hheads, hnext]
    simp only [FlightLinks.removeFromChain, inFlightRemove]
    by_cases hb : b = hashUserData entry.userData
    · subst hb
      rw [Function.update_self, Function.update_self, herase, List.map_append]
      exact hchain.unlinkWalk hnodup hlen
    · rw [Function.update_of_ne hb, Function.update_of_ne hb]
      apply Path.congr (h.chains b)
      intro a ha
      rw [hsplit, List.map_append, List.map_cons] at hdisj
      exact hchain.unlinkWalk_next hnodup hlen (hdisj hb a ha)
  · intro e he
    have hold : (m.remove fuel entry).entry = m.entry := hobjects
    rw [hold]
    exact h.entries e ((mem_inFlightRemove hinv hentry).mp he).1

/-! ## The sweep -/

/-- The object on top of the stack of timed out ones belongs to no chain any more. -/
theorem Threads.pushTimedOut {list : List InFlightEntry} {hash : ℕ → List InFlightEntry}
    (h : Threads m list hash) {a : Addr} (ha : ∀ b, a ∉ (hash b).map (·.addr))
    (timedOutList : Option Addr) :
    Threads { m with hashNext := Function.update m.hashNext a timedOutList } list hash :=
  ⟨h.list, fun b => (h.chains b).write (ha b) timedOutList, h.entries⟩

/-- The step of the scan of the model. -/
def scanStep (now : ℕ) (r : List InFlightEntry × Scheduler) (entry : InFlightEntry) :
    List InFlightEntry × Scheduler :=
  if isTimedOut now entry then (entry :: r.1, takeInFlight r.2 entry) else r

theorem scanTimeouts_eq (s : Scheduler) (now : ℕ) :
    scanTimeouts s now = s.inFlight.foldl (scanStep now) ([], s) := rfl

/-- The sweep along a part `l` of the list, with `kept` before it. -/
theorem Threads.sweep {now bound fuel : ℕ} {kept l : List InFlightEntry}
    (h : Threads m s.inFlight s.inFlightHash) (hinv : FlightInv mem s.inFlight s.inFlightHash)
    (hbound : mem.next ≤ bound) (hlist : s.inFlight = kept ++ l) (hfuel : l.length ≤ fuel)
    (timedOutList : Option Addr) (found : List InFlightEntry) :
    let r := l.foldl (scanStep now) (found, s)
    Threads (FlightLinks.sweep now bound fuel (l.map (·.addr)).head? (timedOutList, m)).2
      r.2.inFlight r.2.inFlightHash := by
  induction l generalizing s m kept fuel timedOutList found with
  | nil => cases fuel <;> exact h
  | cons e l ih =>
    obtain ⟨n, rfl⟩ : ∃ n, fuel = n + 1 := ⟨fuel - 1, by simp at hfuel; omega⟩
    have hin : e ∈ s.inFlight := by
      rw [hlist]
      exact List.mem_append_right kept List.mem_cons_self
    have hnext : m.listNext e.addr = (l.map (·.addr)).head? := by
      have hold := h.list
      rw [hlist, List.map_append, List.map_cons] at hold
      exact (Links.Holds.neighbours hold).1
    rw [List.map_cons, List.head?_cons, FlightLinks.sweep, h.entries e hin, List.foldl_cons]
    dsimp only
    rw [hnext]
    by_cases hout : isTimedOut now e = true
    · rw [if_pos hout, scanStep, if_pos hout]
      have hinv' := hinv.remove hin
      have hgone : ∀ b, e.addr ∉ ((takeInFlight s e).inFlightHash b).map (·.addr) := by
        intro b hb
        obtain ⟨d, hd, haddr⟩ := List.mem_map.mp hb
        obtain ⟨hd, hne⟩ := (mem_inFlightRemove hinv hin).mp ((hinv'.chains b d).mp hd).1
        exact hne (List.inj_on_of_nodup_map hinv.addrs hd hin haddr)
      have hrest : (takeInFlight s e).inFlight = kept ++ l := inFlightRemove_split hinv hin hlist
      have hrem : Threads (m.remove bound e) (takeInFlight s e).inFlight
          (takeInFlight s e).inFlightHash := h.remove hinv hin hbound
      exact ih (hrem.pushTimedOut hgone timedOutList) hinv' hrest (by simpa using hfuel) _ _
    · rw [if_neg hout, scanStep, if_neg hout]
      have hsplit : s.inFlight = (kept ++ [e]) ++ l := by
        rw [hlist, List.append_assoc, List.singleton_append]
      exact ih h hinv hsplit (by simpa using hfuel) _ _

end Hwfq
