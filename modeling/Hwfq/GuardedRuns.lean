import Mathlib.Data.List.Basic

/-!
# Runs of a deterministic machine

A machine is a step function on states and inputs. `Along C s is` says that
every step of the run from `s` on the inputs `is` meets the condition `C` of
the state before the step and its input. An invariant that one such step keeps
holds in every state of the run.
-/
namespace Hwfq.GuardedRuns

variable {σ ι ο : Type*}

def run (step : σ → ι → σ) (s : σ) : List ι → σ
  | [] => s
  | i :: is => run step (step s i) is

/-- The outputs of the steps, first step first. -/
def outputs (step : σ → ι → σ) (out : σ → ι → ο) (s : σ) : List ι → List ο
  | [] => []
  | i :: is => out s i :: outputs step out (step s i) is

def Along (step : σ → ι → σ) (C : σ → ι → Prop) (s : σ) : List ι → Prop
  | [] => True
  | i :: is => C s i ∧ Along step C (step s i) is

instance decidableAlong {step : σ → ι → σ} {C : σ → ι → Prop} [∀ s i, Decidable (C s i)] :
    ∀ s is, Decidable (Along step C s is)
  | _, [] => isTrue trivial
  | s, i :: is => @instDecidableAnd _ _ inferInstance (decidableAlong (step s i) is)

variable {step : σ → ι → σ} {C D : σ → ι → Prop}

@[simp] theorem run_nil (s : σ) : run step s [] = s := rfl

@[simp] theorem run_cons (s : σ) (i : ι) (is : List ι) :
    run step s (i :: is) = run step (step s i) is := rfl

@[simp] theorem outputs_nil (out : σ → ι → ο) (s : σ) : outputs step out s [] = [] := rfl

@[simp] theorem outputs_cons (out : σ → ι → ο) (s : σ) (i : ι) (is : List ι) :
    outputs step out s (i :: is) = out s i :: outputs step out (step s i) is := rfl

@[simp] theorem along_nil (s : σ) : Along step C s [] := trivial

@[simp] theorem along_cons (s : σ) (i : ι) (is : List ι) :
    Along step C s (i :: is) ↔ C s i ∧ Along step C (step s i) is := Iff.rfl

theorem run_append (s : σ) (is js : List ι) : run step s (is ++ js) = run step (run step s is) js := by
  induction is generalizing s with
  | nil => rfl
  | cons i is ih => exact ih (step s i)

theorem along_append (s : σ) (is js : List ι) :
    Along step C s (is ++ js) ↔ Along step C s is ∧ Along step C (run step s is) js := by
  induction is generalizing s with
  | nil => simp
  | cons i is ih => simp [ih, and_assoc]

/-- Two conditions that agree where an invariant holds. -/
theorem along_iff {I : σ → Prop} (hstep : ∀ s i, I s → I (step s i))
    (hiff : ∀ s i, I s → (C s i ↔ D s i)) {s : σ} (hs : I s) (is : List ι) :
    Along step C s is ↔ Along step D s is := by
  induction is generalizing s with
  | nil => exact Iff.rfl
  | cons i is ih => exact and_congr (hiff s i hs) (ih (hstep s i hs))

/-- One condition implies another where an invariant holds. -/
theorem along_imp {I : σ → Prop} (hstep : ∀ s i, I s → I (step s i))
    (himp : ∀ s i, I s → C s i → D s i) {s : σ} (hs : I s) {is : List ι}
    (h : Along step C s is) : Along step D s is := by
  induction is generalizing s with
  | nil => trivial
  | cons i is ih => exact ⟨himp s i hs h.1, ih (hstep s i hs) h.2⟩

theorem along_of_forall (h : ∀ s i, C s i) (s : σ) (is : List ι) : Along step C s is := by
  induction is generalizing s with
  | nil => trivial
  | cons i is ih => exact ⟨h s i, ih (step s i)⟩

/-- The invariant rule: one guarded step keeps `I`, so a guarded run does. -/
theorem run_invariant {I : σ → Prop} (hstep : ∀ s i, I s → C s i → I (step s i))
    {s : σ} (hs : I s) {is : List ι} (hC : Along step C s is) : I (run step s is) := by
  induction is generalizing s with
  | nil => exact hs
  | cons i is ih => exact ih (hstep s i hs hC.1) hC.2

/-- The invariant rule for a machine whose every step keeps `I`. -/
theorem run_invariant_all {I : σ → Prop} (hstep : ∀ s i, I s → I (step s i))
    {s : σ} (hs : I s) (is : List ι) : I (run step s is) :=
  run_invariant (C := fun _ _ => True) (fun s i h _ => hstep s i h) hs
    (along_of_forall (fun _ _ => trivial) s is)

/-- A condition that is exact for one step is exact for runs: all steps meet it just when `P`
holds in every state on the way. -/
theorem along_iff_states {I P : σ → Prop} (hstep : ∀ s i, I s → I (step s i))
    (hiff : ∀ s i, I s → P s → (C s i ↔ P (step s i))) {s : σ} (hs : I s) (hP : P s)
    (is : List ι) : Along step C s is ↔ ∀ js, js <+: is → P (run step s js) := by
  induction is generalizing s with
  | nil =>
    constructor
    · intro _ js hjs
      rw [List.prefix_nil.mp hjs]
      exact hP
    · exact fun _ => trivial
  | cons i is ih =>
    have hfirst := hiff s i hs hP
    constructor
    · rintro ⟨hC, hrest⟩ js hjs
      cases js with
      | nil => exact hP
      | cons j js =>
        obtain ⟨rfl, htail⟩ := List.cons_prefix_cons.mp hjs
        exact (ih (hstep s j hs) (hfirst.mp hC)).mp hrest js htail
    · intro hall
      have hnext : P (step s i) := hall [i] (List.cons_prefix_cons.mpr ⟨rfl, List.nil_prefix⟩)
      refine ⟨hfirst.mpr hnext, (ih (hstep s i hs) hnext).mpr ?_⟩
      intro js hjs
      exact hall (i :: js) (List.cons_prefix_cons.mpr ⟨rfl, hjs⟩)

/-! ## A machine that carries its history -/

section Projection
variable {τ : Type*} {step' : τ → ι → τ} {proj : τ → σ}

/-- What a machine keeps beside the state of another does not change the run of that one. -/
theorem run_project (hproj : ∀ t i, proj (step' t i) = step (proj t) i) (t : τ) (is : List ι) :
    proj (run step' t is) = run step (proj t) is := by
  induction is generalizing t with
  | nil => rfl
  | cons i is ih => rw [run_cons, run_cons, ih, hproj]

theorem along_project (hproj : ∀ t i, proj (step' t i) = step (proj t) i) {t : τ} {is : List ι}
    (h : Along step C (proj t) is) : Along step' (fun t i => C (proj t) i) t is := by
  induction is generalizing t with
  | nil => trivial
  | cons i is ih =>
    refine ⟨h.1, ih ?_⟩
    rw [hproj]
    exact h.2

end Projection

/-- Two machines that answer alike on related states and stay related answer alike
on every run. -/
theorem outputs_related {τ : Type*} {step' : τ → ι → τ} {out : σ → ι → ο} {out' : τ → ι → ο}
    {R : σ → τ → Prop}
    (hstep : ∀ s t i, R s t → out' t i = out s i ∧ R (step s i) (step' t i))
    {s : σ} {t : τ} (h : R s t) (is : List ι) :
    outputs step' out' t is = outputs step out s is := by
  induction is generalizing s t with
  | nil => rfl
  | cons i is ih =>
    obtain ⟨hout, hnext⟩ := hstep s t i h
    rw [outputs_cons, outputs_cons, hout, ih hnext]

/-- First in, first out over a run: when every step takes its outputs off the front of a
line and puts its inputs at the end, what came out is what went in, in that order. -/
theorem line_history {κ : Type*} {entering leaving : σ → ι → List κ} {H : σ → List κ → Prop}
    (hstep : ∀ s i l, H s l → C s i → ∃ l', H (step s i) l' ∧ leaving s i ++ l' = l ++ entering s i)
    {s : σ} {l : List κ} (h : H s l) {is : List ι} (hC : Along step C s is) :
    ∃ l', H (run step s is) l' ∧
      (outputs step leaving s is).flatten ++ l' = l ++ (outputs step entering s is).flatten := by
  induction is generalizing s l with
  | nil => exact ⟨l, h, by simp⟩
  | cons i is ih =>
    obtain ⟨m, hm, hhead⟩ := hstep s i l h hC.1
    obtain ⟨l', hl', htail⟩ := ih hm hC.2
    refine ⟨l', hl', ?_⟩
    simp only [outputs_cons, List.flatten_cons]
    rw [List.append_assoc, htail, ← List.append_assoc, hhead, List.append_assoc]

end Hwfq.GuardedRuns
