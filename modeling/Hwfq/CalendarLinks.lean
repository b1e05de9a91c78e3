import Hwfq.LinkedChains
import Hwfq.SessionRemoval

/-!
# The bin lists in memory

`bin_heads`, `bin_next` and `bin_prev` as pointers, with the pointer code of
`bin_list_insert`, `bin_list_remove` and the rebase run next to the model. In every
state the pointers of a bin thread its list in both directions and the objects
carry the time stamps of the sessions. Every walk is bounded by the number of
objects allocated so far, which no list exceeds.
-/
namespace Hwfq
open GuardedRuns LinkedChains MinSearch Bins

variable {α : Type*} {gs : GroupScheduler α} {s : SessionState α}

/-- What the bin lists use of the session objects, field by field. -/
structure BinLinks where
  binHeads : ℕ → Option Addr
  binNext : Addr → Option Addr
  binPrev : Addr → Option Addr
  startTime : Addr → ℕ
  finishTime : Addr → ℕ

/-- `session_less` on two objects. -/
def BinLinks.sessionLess (m : BinLinks) (a b : Addr) : Bool :=
  if m.finishTime a ≠ m.finishTime b then m.finishTime a < m.finishTime b
  else m.startTime a < m.startTime b

/-- Fill in the time stamps of a new object. -/
def BinLinks.create (m : BinLinks) (s : SessionState α) : BinLinks :=
  { m with
    startTime := Function.update m.startTime s.addr s.startTime
    finishTime := Function.update m.finishTime s.addr s.finishTime }

/-- Both link fields of an object set to NULL. -/
def BinLinks.clear (m : BinLinks) (session : Addr) : BinLinks :=
  { m with
    binNext := Function.update m.binNext session none
    binPrev := Function.update m.binPrev session none }

/-- `bin_list_insert`. -/
def BinLinks.insert (m : BinLinks) (fuel binIndex : ℕ) (session : Addr) : BinLinks :=
  let m := m.clear session
  match m.binHeads binIndex with
  | none => { m with binHeads := Function.update m.binHeads binIndex (some session) }
  | some head =>
      match findPlace m.binNext (m.sessionLess · session) fuel none (some head) with
      | (none, _) =>
          { m with
            binNext := Function.update m.binNext session (some head)
            binPrev := Function.update m.binPrev head (some session)
            binHeads := Function.update m.binHeads binIndex (some session) }
      | (some prev, current) =>
          let m := { m with
            binPrev := Function.update m.binPrev session (some prev)
            binNext := Function.update (Function.update m.binNext session current) prev
              (some session) }
          match current with
          | none => m
          | some c => { m with binPrev := Function.update m.binPrev c (some session) }

/-- `bin_list_remove`. -/
def BinLinks.remove (m : BinLinks) (binIndex : ℕ) (session : Addr) : BinLinks :=
  let m :=
    match m.binPrev session with
    | some prev => { m with binNext := Function.update m.binNext prev (m.binNext session) }
    | none => { m with binHeads := Function.update m.binHeads binIndex (m.binNext session) }
  let m :=
    match m.binNext session with
    | some next => { m with binPrev := Function.update m.binPrev next (m.binPrev session) }
    | none => m
  m.clear session

/-- Move the time stamps of one object. -/
def BinLinks.rebaseSession (rebaseOffset : ℕ) (m : BinLinks) (a : Addr) : BinLinks :=
  { m with
    startTime := Function.update m.startTime a (rebaseTime rebaseOffset (m.startTime a))
    finishTime := Function.update m.finishTime a (rebaseTime rebaseOffset (m.finishTime a)) }

/-- The inner loop of the rebase, along one list. -/
def BinLinks.rebaseList (rebaseOffset : ℕ) : ℕ → Option Addr → BinLinks → BinLinks
  | 0, _, m => m
  | _ + 1, none, m => m
  | fuel + 1, some a, m => rebaseList rebaseOffset fuel (m.binNext a) (m.rebaseSession rebaseOffset a)

/-- The outer loop of the rebase, over all bins. -/
def BinLinks.rebase (m : BinLinks) (fuel rebaseOffset numBins : ℕ) : BinLinks :=
  (List.range numBins).foldl (fun m bin => m.rebaseList rebaseOffset fuel (m.binHeads bin)) m

/-- The pointers of one bin, the last node of its list closing the backward thread. -/
def BinLinks.bin (m : BinLinks) (b : ℕ) (last : Option Addr) : Links Addr :=
  ⟨⟨m.binHeads b, m.binNext⟩, ⟨last, m.binPrev⟩⟩

/-- The pointers thread a list of objects in bin `b`. -/
def BinLinks.Holds (m : BinLinks) (b : ℕ) (l : List Addr) : Prop := (m.bin b l.getLast?).Holds l

/-! ## Insertion and removal -/

section
variable {m : BinLinks} {b fuel : ℕ} {l l₁ l₂ : List Addr} {x : Addr}

/-- A list whose nodes keep their fields, and the head of whose bin stays, is still threaded. -/
theorem BinLinks.Holds.frame {m' : BinLinks} (h : m.Holds b l)
    (hhead : m'.binHeads b = m.binHeads b) (hnext : ∀ a ∈ l, m'.binNext a = m.binNext a)
    (hprev : ∀ a ∈ l, m'.binPrev a = m.binPrev a) : m'.Holds b l := by
  constructor
  · have hpath : Path m'.binNext (m.binHeads b) l none := Path.congr h.1 hnext
    rw [← hhead] at hpath
    exact hpath
  · apply Path.congr h.2
    intro a ha
    exact hprev a (List.mem_reverse.mp ha)

theorem BinLinks.Holds.clear (h : m.Holds b l) (hx : x ∉ l) : (m.clear x).Holds b l := by
  have hne : ∀ a ∈ l, a ≠ x := by
    rintro a ha rfl
    exact hx ha
  refine BinLinks.Holds.frame h rfl ?_ ?_
  · intro a ha
    exact Function.update_of_ne (hne a ha) _ _
  · intro a ha
    exact Function.update_of_ne (hne a ha) _ _

/-- The loop of the insertion splits the list where the order says. -/
theorem BinLinks.Holds.findPlace (h : m.Holds b l) (less : Addr → Bool) (hfuel : l.length ≤ fuel) :
    findPlace m.binNext less fuel none (m.binHeads b) =
      ((l.takeWhile less).getLast?, (l.dropWhile less).head?) := by
  have hplace := findPlace_eq less h.1 none hfuel
  rw [Option.or_none] at hplace
  exact hplace

/-- The code of the insertion links the object in between two nodes of the list. -/
theorem BinLinks.insert_bin (h : m.Holds b l) (hx : x ∉ l) (hfuel : l.length ≤ fuel)
    (last : Option Addr) :
    let before := (l.takeWhile (m.sessionLess · x)).getLast?
    let behind := (l.dropWhile (m.sessionLess · x)).head?
    ((m.insert fuel b x).binHeads = Function.update m.binHeads b
        (((m.bin b last).insert x before behind).forward.anchor)) ∧
      (m.insert fuel b x).binNext = ((m.bin b last).insert x before behind).forward.next ∧
      (m.insert fuel b x).binPrev = ((m.bin b last).insert x before behind).backward.next := by
  dsimp only
  have hplace := (h.clear hx).findPlace (m.sessionLess · x) hfuel
  have hheads : (m.clear x).binHeads = m.binHeads := rfl
  have hless : (m.clear x).sessionLess = m.sessionLess := rfl
  have hnext : (m.clear x).binNext = Function.update m.binNext x none := rfl
  have hprev : (m.clear x).binPrev = Function.update m.binPrev x none := rfl
  unfold BinLinks.insert
  dsimp only
  rw [hheads] at hplace ⊢
  cases hhead : m.binHeads b with
  | none =>
    have hl : l = [] := by
      have hfirst := Path.first h.1
      have hnone : l.head? = none := hfirst.symm.trans hhead
      exact List.head?_eq_none_iff.mp hnone
    subst hl
    simp [BinLinks.bin, Links.insert, Thread.link, Thread.write, hnext, hprev]
  | some head =>
    rw [hhead] at hplace
    have hfirst : l.head? = some head := (Path.first h.1).symm.trans hhead
    obtain ⟨l', rfl⟩ : ∃ l', l = head :: l' := by
      cases l with
      | nil => cases hfirst
      | cons a l' =>
        rw [List.head?_cons, Option.some.injEq] at hfirst
        exact ⟨l', by rw [hfirst]⟩
    simp only [hless, hplace]
    cases hbefore : ((head :: l').takeWhile (m.sessionLess · x)).getLast? with
    | none =>
      have hbehind : ((head :: l').dropWhile (m.sessionLess · x)).head? = some head := by
        by_cases hlt : m.sessionLess head x = true
        · simp [hlt, List.getLast?_cons] at hbefore
        · simp [hlt]
      simp [BinLinks.bin, Links.insert, Thread.link, Thread.write, hbehind, hnext, hprev]
    | some prev =>
      have hsame : Function.update m.binHeads b (some head) = m.binHeads := by
        rw [← hhead, Function.update_eq_self]
      cases hbehind : ((head :: l').dropWhile (m.sessionLess · x)).head? with
      | none => simp [BinLinks.bin, Links.insert, Thread.link, Thread.write, hhead, hsame, hnext, hprev]
      | some c => simp [BinLinks.bin, Links.insert, Thread.link, Thread.write, hhead, hsame, hnext, hprev]

/-- The object stands in the list of its bin where the order says. -/
theorem BinLinks.Holds.insert (h : m.Holds b l) (hnodup : l.Nodup) (hx : x ∉ l)
    (hfuel : l.length ≤ fuel) :
    (m.insert fuel b x).Holds b
      (l.takeWhile (m.sessionLess · x) ++ x :: l.dropWhile (m.sessionLess · x)) := by
  obtain ⟨hheads, hnext, hprev⟩ := insert_bin h hx hfuel l.getLast?
  have hsplit : l.takeWhile (m.sessionLess · x) ++ l.dropWhile (m.sessionLess · x) = l :=
    List.takeWhile_append_dropWhile
  have hlinks : (m.bin b l.getLast?).Holds
      (l.takeWhile (m.sessionLess · x) ++ l.dropWhile (m.sessionLess · x)) := by
    rw [hsplit]
    exact h
  have hins := hlinks.insert (by rwa [hsplit]) (by rwa [hsplit])
  constructor
  · have hforward := hins.1
    rw [Thread.Holds, ← hnext] at hforward
    have hhead : (m.insert fuel b x).binHeads b = _ :=
      (congrFun hheads b).trans (Function.update_self _ _ _)
    rw [← hhead] at hforward
    exact hforward
  · have hbackward := hins.2
    have hlast := Path.first hbackward
    rw [List.head?_reverse] at hlast
    rw [Thread.Holds, ← hprev, hlast] at hbackward
    exact hbackward

/-- Another bin does not notice the insertion. -/
theorem BinLinks.Holds.insert_other (h : m.Holds b l) (hx : x ∉ l) (hfuel : l.length ≤ fuel)
    {c : ℕ} (hc : c ≠ b) {k : List Addr} (hk : m.Holds c k) (hxk : x ∉ k)
    (hdisj : ∀ a ∈ k, a ∉ l) : (m.insert fuel b x).Holds c k := by
  obtain ⟨hheads, hnext, hprev⟩ := insert_bin h hx hfuel l.getLast?
  have hne : ∀ a ∈ k, a ≠ x := by
    rintro a ha rfl
    exact hxk ha
  refine hk.frame ?_ ?_ ?_
  · rw [hheads]
    exact Function.update_of_ne hc _ _
  · intro a ha
    rw [hnext]
    refine (Thread.link_next ?_ _).trans (Thread.write_next (hne a ha) _)
    rintro c' hc' rfl
    exact hdisj c' ha ((List.takeWhile_subset _) (List.mem_of_getLast? hc'))
  · intro a ha
    rw [hprev]
    refine (Thread.link_next ?_ _).trans (Thread.write_next (hne a ha) _)
    rintro c' hc' rfl
    exact hdisj c' ha ((List.dropWhile_subset _) (List.mem_of_head? hc'))

/-- The code of the removal lets the neighbours point to each other. -/
theorem BinLinks.remove_bin (h : m.Holds b (l₁ ++ x :: l₂)) (hnodup : (l₁ ++ x :: l₂).Nodup)
    (last : Option Addr) :
    (m.remove b x).binHeads =
        Function.update m.binHeads b ((m.bin b last).remove x).forward.anchor ∧
      (m.remove b x).binNext =
        Function.update ((m.bin b last).remove x).forward.next x none ∧
      (m.remove b x).binPrev =
        Function.update ((m.bin b last).remove x).backward.next x none := by
  obtain ⟨hnext, hprev⟩ := Links.Holds.neighbours h
  have hne : ∀ p ∈ m.binPrev x, x ≠ p := by
    rintro p hp rfl
    have hlast : l₁.getLast? = some x := hprev.symm.trans hp
    exact (List.nodup_append.mp hnodup).2.2 x (List.mem_of_getLast? hlast) x List.mem_cons_self rfl
  cases hp : m.binPrev x with
  | none =>
    cases hn : m.binNext x with
    | none => simp [BinLinks.remove, BinLinks.clear, BinLinks.bin, Links.remove, Thread.link, hp, hn]
    | some c => simp [BinLinks.remove, BinLinks.clear, BinLinks.bin, Links.remove, Thread.link, hp, hn]
  | some p =>
    have hself : Function.update m.binNext p (m.binNext x) x = m.binNext x :=
      Function.update_of_ne (hne p hp) _ _
    cases hn : m.binNext x with
    | none =>
      rw [hn] at hself
      simp [BinLinks.remove, BinLinks.clear, BinLinks.bin, Links.remove, Thread.link, hp, hn, hself]
    | some c =>
      rw [hn] at hself
      simp [BinLinks.remove, BinLinks.clear, BinLinks.bin, Links.remove, Thread.link, hp, hn, hself]

theorem BinLinks.Holds.remove (h : m.Holds b (l₁ ++ x :: l₂)) (hnodup : (l₁ ++ x :: l₂).Nodup) :
    (m.remove b x).Holds b (l₁ ++ l₂) := by
  obtain ⟨hheads, hnext, hprev⟩ := remove_bin h hnodup (l₁ ++ x :: l₂).getLast?
  have hrem := Links.Holds.remove h hnodup
  have hx : x ∉ l₁ ++ l₂ := (List.nodup_middle.mp hnodup).notMem
  constructor
  · have hforward := hrem.1.write hx none
    have hhead : (m.remove b x).binHeads b = _ :=
      (congrFun hheads b).trans (Function.update_self _ _ _)
    rw [Thread.Holds, Thread.write, ← hnext, ← hhead] at hforward
    exact hforward
  · have hbackward := hrem.2.write (mt List.mem_reverse.mp hx) none
    have hlast := Path.first hbackward
    rw [List.head?_reverse] at hlast
    rw [Thread.Holds, hlast, Thread.write, ← hprev] at hbackward
    exact hbackward

theorem BinLinks.Holds.remove_other (h : m.Holds b (l₁ ++ x :: l₂))
    (hnodup : (l₁ ++ x :: l₂).Nodup) {c : ℕ} (hc : c ≠ b) {k : List Addr} (hk : m.Holds c k)
    (hdisj : ∀ a ∈ k, a ∉ l₁ ++ x :: l₂) : (m.remove b x).Holds c k := by
  obtain ⟨hheads, hnext, hprev⟩ := remove_bin h hnodup (l₁ ++ x :: l₂).getLast?
  obtain ⟨hnext', hprev'⟩ := Links.Holds.neighbours h
  have hne : ∀ a ∈ k, a ≠ x := by
    rintro a ha rfl
    exact hdisj a ha (by simp)
  refine hk.frame ?_ ?_ ?_
  · rw [hheads]
    exact Function.update_of_ne hc _ _
  · intro a ha
    rw [hnext, Function.update_of_ne (hne a ha)]
    apply Thread.link_next
    rintro p hp rfl
    rw [hprev'] at hp
    exact hdisj p ha (List.mem_append_left _ (List.mem_of_getLast? hp))
  · intro a ha
    rw [hprev, Function.update_of_ne (hne a ha)]
    apply Thread.link_next
    rintro p hp rfl
    rw [hnext'] at hp
    exact hdisj p ha (List.mem_append_right _ (List.mem_cons_of_mem x (List.mem_of_head? hp)))

end

end Hwfq
