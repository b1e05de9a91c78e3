import Mathlib.Data.List.Nodup
import Mathlib.Logic.Function.Basic

/-!
# Lists threaded through memory

A thread is an anchor and a `next` field in every node. It holds a list when it
leads from the anchor through exactly the nodes of the list to the end. A doubly
linked list is two threads, the second holding the reversed list. An insertion or
a removal rewrites one pointer in each direction: the field of the node before the
place, or the anchor when there is none.
-/
namespace Hwfq.LinkedChains

variable {ν : Type*}

/-- `next` leads from `p` through the nodes of a list and on to `q`. -/
def Path (next : ν → Option ν) : Option ν → List ν → Option ν → Prop
  | p, [], q => p = q
  | p, a :: l, q => p = some a ∧ Path next (next a) l q

variable {next next' : ν → Option ν} {p q : Option ν} {l l₁ l₂ : List ν} {x : ν}

theorem path_append :
    Path next p (l₁ ++ l₂) q ↔ ∃ r, Path next p l₁ r ∧ Path next r l₂ q := by
  induction l₁ generalizing p with
  | nil =>
    constructor
    · intro h
      exact ⟨p, rfl, h⟩
    · rintro ⟨r, rfl, h⟩
      exact h
  | cons a l ih =>
    constructor
    · rintro ⟨ha, h⟩
      obtain ⟨r, h₁, h₂⟩ := ih.mp h
      exact ⟨r, ⟨ha, h₁⟩, h₂⟩
    · rintro ⟨r, ⟨ha, h₁⟩, h₂⟩
      exact ⟨ha, ih.mpr ⟨r, h₁, h₂⟩⟩

/-- A path reads the fields of its own nodes only. -/
theorem Path.congr (h : Path next p l q) (hsame : ∀ a ∈ l, next' a = next a) :
    Path next' p l q := by
  induction l generalizing p with
  | nil => exact h
  | cons a l ih =>
    refine ⟨h.1, ?_⟩
    rw [hsame a List.mem_cons_self]
    apply ih h.2
    intro b hb
    exact hsame b (List.mem_cons_of_mem a hb)

theorem Path.first (h : Path next p l none) : p = l.head? := by
  cases l with
  | nil => exact h
  | cons a l => exact h.1

/-! ## Threads -/

/-- An anchor outside the nodes and a field in each of them. -/
structure Thread (ν : Type*) where
  anchor : Option ν
  next : ν → Option ν

def Thread.Holds (t : Thread ν) (l : List ν) : Prop := Path t.next t.anchor l none

variable [DecidableEq ν] {t : Thread ν}

/-- Let the node `before` point to `target`, or the anchor when there is no such node. -/
def Thread.link (t : Thread ν) (before target : Option ν) : Thread ν :=
  match before with
  | none => { t with anchor := target }
  | some b => { t with next := Function.update t.next b target }

/-- Write the field of a node. -/
def Thread.write (t : Thread ν) (x : ν) (target : Option ν) : Thread ν :=
  { t with next := Function.update t.next x target }

theorem Thread.Holds.write (h : t.Holds l) (hx : x ∉ l) (target : Option ν) :
    (t.write x target).Holds l := by
  apply Path.congr h
  intro a ha
  apply Function.update_of_ne
  rintro rfl
  exact hx ha

theorem Thread.link_next {before : Option ν} {a : ν} (h : ∀ b ∈ before, b ≠ a)
    (target : Option ν) : (t.link before target).next a = t.next a := by
  cases before with
  | none => rfl
  | some b => exact Function.update_of_ne (h b rfl).symm _ _

theorem Thread.write_next {a : ν} (h : a ≠ x) (target : Option ν) :
    (t.write x target).next a = t.next a := Function.update_of_ne h _ _

/-- Redirect the pointer at the seam of two parts to a list that starts elsewhere. -/
theorem Thread.Holds.relink (h : t.Holds (l₁ ++ l₂)) (hnodup : l₁.Nodup) {l : List ν}
    {target : Option ν} (hl : Path t.next target l none) (hdisj : ∀ a ∈ l₁, a ∉ l) :
    (t.link l₁.getLast? target).Holds (l₁ ++ l) := by
  rcases List.eq_nil_or_concat l₁ with rfl | ⟨l₁, b, rfl⟩
  · exact hl
  · rw [List.concat_eq_append] at *
    obtain ⟨r, hfront, -⟩ := path_append.mp h
    obtain ⟨r', hbefore, hb⟩ := path_append.mp hfront
    have hnot : b ∉ l₁ := by
      intro hin
      exact (List.nodup_append.mp hnodup).2.2 b hin b List.mem_cons_self rfl
    rw [List.getLast?_append, List.getLast?_singleton]
    refine path_append.mpr ⟨target, path_append.mpr ⟨r', ?_, hb.1, ?_⟩, ?_⟩
    · apply Path.congr hbefore
      intro a ha
      apply Function.update_of_ne
      rintro rfl
      exact hnot ha
    · have hself : (t.link (some b) target).next b = target := by simp [Thread.link]
      exact hself
    · apply Path.congr hl
      intro a ha
      apply Function.update_of_ne
      rintro rfl
      exact hdisj a (by simp) ha

/-- Insert `x` at the seam of two parts. -/
theorem Thread.Holds.insert (h : t.Holds (l₁ ++ l₂)) (hnodup : (l₁ ++ l₂).Nodup)
    (hx : x ∉ l₁ ++ l₂) :
    ((t.write x l₂.head?).link l₁.getLast? (some x)).Holds (l₁ ++ x :: l₂) := by
  have hwrite := h.write hx l₂.head?
  obtain ⟨h₁, h₂, hdisj⟩ := List.nodup_append.mp hnodup
  apply hwrite.relink h₁
  · refine ⟨rfl, ?_⟩
    have hx' : (t.write x l₂.head?).next x = l₂.head? := by simp [Thread.write]
    rw [hx']
    obtain ⟨r, -, hback⟩ := path_append.mp hwrite
    rwa [hback.first] at hback
  · intro a ha hin
    rcases List.mem_cons.mp hin with rfl | hin
    · exact hx (List.mem_append_left l₂ ha)
    · exact hdisj a ha a hin rfl

/-- Take `x` out from between two parts. -/
theorem Thread.Holds.remove (h : t.Holds (l₁ ++ x :: l₂)) (hnodup : (l₁ ++ x :: l₂).Nodup) :
    (t.link l₁.getLast? (t.next x)).Holds (l₁ ++ l₂) := by
  obtain ⟨h₁, -, hdisj⟩ := List.nodup_append.mp hnodup
  obtain ⟨r, -, hback⟩ := path_append.mp h
  apply h.relink h₁ hback.2
  intro a ha hin
  exact hdisj a ha a (List.mem_cons_of_mem x hin) rfl

/-! ## Walks -/

/-- The pointer to which the node `before`, or the anchor, leads. -/
def Thread.target (t : Thread ν) : Option ν → Option ν
  | none => t.anchor
  | some b => t.next b

/-- Walk from pointer to pointer until one leads to `x` and redirect that one. -/
def Thread.unlinkWalk (t : Thread ν) (x : ν) : ℕ → Option ν → Thread ν
  | 0, _ => t
  | fuel + 1, before =>
      match t.target before with
      | none => t
      | some a => if a = x then t.link before (t.next x) else t.unlinkWalk x fuel (some a)

/-- The walk finds the pointer before `x`. -/
theorem Thread.unlinkWalk_eq {before : Option ν} (hpath : Path t.next (t.target before) l₁ (some x))
    (hx : x ∉ l₁) {fuel : ℕ} (hfuel : l₁.length < fuel) :
    t.unlinkWalk x fuel before = t.link (l₁.getLast?.or before) (t.next x) := by
  induction l₁ generalizing before fuel with
  | nil =>
    have htarget : t.target before = some x := hpath
    obtain ⟨n, rfl⟩ := Nat.exists_eq_add_of_lt hfuel
    simp [unlinkWalk, htarget]
  | cons a l ih =>
    obtain ⟨n, rfl⟩ : ∃ n, fuel = n + 1 := ⟨fuel - 1, by simp at hfuel; omega⟩
    have hne : a ≠ x := fun heq => hx (heq ▸ List.mem_cons_self)
    rw [unlinkWalk, hpath.1]
    dsimp only
    have hrest : Path t.next (t.target (some a)) l (some x) := hpath.2
    rw [if_neg hne, ih hrest (fun hin => hx (List.mem_cons_of_mem a hin))
      (by simpa using hfuel), List.getLast?_cons]
    cases l.getLast? <;> rfl

/-- The walk from the anchor redirects the pointer before `x`. -/
theorem Thread.Holds.unlinkWalk_eq (h : t.Holds (l₁ ++ x :: l₂)) (hnodup : (l₁ ++ x :: l₂).Nodup)
    {fuel : ℕ} (hfuel : (l₁ ++ x :: l₂).length ≤ fuel) :
    t.unlinkWalk x fuel none = t.link l₁.getLast? (t.next x) := by
  obtain ⟨r, hfront, hback⟩ := path_append.mp h
  have hx : x ∉ l₁ := by
    intro hin
    exact (List.nodup_append.mp hnodup).2.2 x hin x List.mem_cons_self rfl
  have hlen : l₁.length < fuel := by
    simp at hfuel
    omega
  have hpath : Path t.next (t.target none) l₁ (some x) := hback.1 ▸ hfront
  rw [Thread.unlinkWalk_eq hpath hx hlen, Option.or_none]

theorem Thread.Holds.unlinkWalk (h : t.Holds (l₁ ++ x :: l₂)) (hnodup : (l₁ ++ x :: l₂).Nodup)
    {fuel : ℕ} (hfuel : (l₁ ++ x :: l₂).length ≤ fuel) :
    (t.unlinkWalk x fuel none).Holds (l₁ ++ l₂) := by
  rw [h.unlinkWalk_eq hnodup hfuel]
  exact h.remove hnodup

/-- The walk leaves the fields of all nodes outside its list. -/
theorem Thread.Holds.unlinkWalk_next (h : t.Holds (l₁ ++ x :: l₂))
    (hnodup : (l₁ ++ x :: l₂).Nodup) {fuel : ℕ} (hfuel : (l₁ ++ x :: l₂).length ≤ fuel) {a : ν}
    (ha : a ∉ l₁ ++ x :: l₂) : (t.unlinkWalk x fuel none).next a = t.next a := by
  rw [h.unlinkWalk_eq hnodup hfuel]
  apply Thread.link_next
  rintro b hb rfl
  exact ha (List.mem_append_left _ (List.mem_of_getLast? hb))

/-- The loop of a sorted insertion: the nodes before and at the first place whose
node is not less than the new one. -/
def findPlace (next : ν → Option ν) (less : ν → Bool) :
    ℕ → Option ν → Option ν → Option ν × Option ν
  | 0, before, current => (before, current)
  | fuel + 1, before, current =>
      match current with
      | none => (before, none)
      | some c =>
          if less c then findPlace next less fuel (some c) (next c) else (before, some c)

omit [DecidableEq ν] in
theorem findPlace_eq (less : ν → Bool) (h : Path next p l none) (before : Option ν) {fuel : ℕ}
    (hfuel : l.length ≤ fuel) :
    findPlace next less fuel before p =
      ((l.takeWhile less).getLast?.or before, (l.dropWhile less).head?) := by
  induction l generalizing p before fuel with
  | nil =>
    have hp : p = none := h
    subst hp
    cases fuel <;> rfl
  | cons a l ih =>
    obtain ⟨n, rfl⟩ : ∃ n, fuel = n + 1 := ⟨fuel - 1, by simp at hfuel; omega⟩
    rw [h.1, findPlace]
    by_cases hless : less a = true
    · rw [if_pos hless, ih h.2 (some a) (by simpa using hfuel), List.takeWhile_cons_of_pos hless,
        List.dropWhile_cons_of_pos hless, List.getLast?_cons]
      cases (l.takeWhile less).getLast? <;> rfl
    · rw [if_neg hless, List.takeWhile_cons_of_neg hless, List.dropWhile_cons_of_neg hless]
      rfl

/-! ## Doubly linked lists -/

/-- A list threaded in both directions. -/
structure Links (ν : Type*) where
  forward : Thread ν
  backward : Thread ν

def Links.Holds (d : Links ν) (l : List ν) : Prop :=
  d.forward.Holds l ∧ d.backward.Holds l.reverse

/-- Link `x` in between the nodes `before` and `behind`. -/
def Links.insert (d : Links ν) (x : ν) (before behind : Option ν) : Links ν where
  forward := (d.forward.write x behind).link before (some x)
  backward := (d.backward.write x before).link behind (some x)

/-- Let the neighbours of `x` point to each other. -/
def Links.remove (d : Links ν) (x : ν) : Links ν where
  forward := d.forward.link (d.backward.next x) (d.forward.next x)
  backward := d.backward.link (d.forward.next x) (d.backward.next x)

variable {d : Links ν}

theorem Links.Holds.insert (h : d.Holds (l₁ ++ l₂)) (hnodup : (l₁ ++ l₂).Nodup)
    (hx : x ∉ l₁ ++ l₂) : (d.insert x l₁.getLast? l₂.head?).Holds (l₁ ++ x :: l₂) := by
  constructor
  · exact h.1.insert hnodup hx
  · have hback := h.2
    rw [List.reverse_append] at hback
    have hrev : (l₁ ++ x :: l₂).reverse = l₂.reverse ++ x :: l₁.reverse := by simp
    have hins := hback.insert (by rw [← List.reverse_append]; exact List.nodup_reverse.mpr hnodup)
      (show x ∉ l₂.reverse ++ l₁.reverse by simpa [or_comm] using hx)
    rw [List.getLast?_reverse, List.head?_reverse] at hins
    rw [hrev]
    exact hins

omit [DecidableEq ν] in
/-- The fields of a node of a doubly linked list name its neighbours. -/
theorem Links.Holds.neighbours (h : d.Holds (l₁ ++ x :: l₂)) :
    d.forward.next x = l₂.head? ∧ d.backward.next x = l₁.getLast? := by
  constructor
  · obtain ⟨r, -, hback⟩ := path_append.mp h.1
    exact hback.2.first
  · have hback := h.2
    rw [show (l₁ ++ x :: l₂).reverse = l₂.reverse ++ x :: l₁.reverse by simp] at hback
    obtain ⟨r, -, hfront⟩ := path_append.mp hback
    rw [hfront.2.first, List.head?_reverse]

theorem Links.Holds.remove (h : d.Holds (l₁ ++ x :: l₂)) (hnodup : (l₁ ++ x :: l₂).Nodup) :
    (d.remove x).Holds (l₁ ++ l₂) := by
  obtain ⟨hnext, hprev⟩ := h.neighbours
  constructor
  · have hrem := h.1.remove hnodup
    rwa [← hprev] at hrem
  · have hback := h.2
    have hrev : (l₁ ++ x :: l₂).reverse = l₂.reverse ++ x :: l₁.reverse := by simp
    rw [hrev] at hback
    have hrem := hback.remove (hrev ▸ List.nodup_reverse.mpr hnodup)
    rw [List.getLast?_reverse, ← hnext] at hrem
    rw [List.reverse_append]
    exact hrem

end Hwfq.LinkedChains
