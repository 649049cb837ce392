import Mathlib.Logic.Basic

/-!
# Runs of a step function

A system is given by what each action does at a state, if it can happen there. A run is the list of
its actions. `Always P` says that every step of a run satisfies `P`; `always_iff` reduces this to a
condition on the states the steps start from, by an invariant that the condition keeps.
-/

namespace Concurrency

variable {State Action : Type} (step : Action → State → Option State)

/-- Perform a list of actions in order. -/
def runSteps : List Action → State → Option State
  | [], s => some s
  | a :: as, s => (step a s).bind (runSteps as)

/-- Every step of the run satisfies `P`. -/
def Always (P : State → Action → State → Prop) : List Action → State → Prop
  | [], _ => True
  | a :: as, s => ∀ s', step a s = some s' → P s a s' ∧ Always P as s'

variable {step} {P Q : State → Action → State → Prop} {I : State → Prop}

/-- An invariant that the steps with `P` keep, along a run of such steps. -/
theorem Always.of_invariant (hstep : ∀ s a s', I s → step a s = some s' → P s a s' →
    Q s a s' ∧ I s') {as : List Action} {s : State} (hI : I s) (h : Always step P as s) :
    Always step Q as s := by
  induction as generalizing s with
  | nil => trivial
  | cons a as ih =>
    intro s' hs
    obtain ⟨hP, hrest⟩ := h s' hs
    obtain ⟨hQ, hI'⟩ := hstep s a s' hI hs hP
    exact ⟨hQ, ih hI' hrest⟩

/-- If steps with `C` keep `I` and have `P`, and only they have `P`, then `C` is exactly when a run
has `P`. -/
theorem always_iff {C : State → Action → Prop}
    (hkeep : ∀ s a s', I s → step a s = some s' → C s a → P s a s' ∧ I s')
    (hexact : ∀ s a s', step a s = some s' → P s a s' → C s a)
    (as : List Action) {s : State} (hI : I s) :
    Always step P as s ↔ Always step (fun s a _ => C s a) as s := by
  constructor
  · intro h
    refine h.of_invariant (I := fun _ => True) (fun s a s' _ hs hP => ?_) trivial
    exact ⟨hexact s a s' hs hP, trivial⟩
  · exact fun h => h.of_invariant hkeep hI

theorem runSteps_concat {as : List Action} {a : Action} {s s' : State} :
    runSteps step (as ++ [a]) s = some s' ↔
      ∃ s₁, runSteps step as s = some s₁ ∧ step a s₁ = some s' := by
  induction as generalizing s with
  | nil => simp [runSteps]
  | cons b as ih =>
    simp only [List.cons_append, runSteps, Option.bind_eq_some_iff, ih]
    constructor
    · rintro ⟨s₂, hb, s₁, hrest, hlast⟩
      exact ⟨s₁, ⟨s₂, hb, hrest⟩, hlast⟩
    · rintro ⟨s₁, ⟨s₂, hb, hrest⟩, hlast⟩
      exact ⟨s₂, hb, s₁, hrest, hlast⟩

theorem Always.last {as : List Action} {a : Action} {s s₁ s' : State}
    (h : Always step P (as ++ [a]) s) (hrun : runSteps step as s = some s₁)
    (hlast : step a s₁ = some s') : P s₁ a s' := by
  induction as generalizing s with
  | nil =>
    cases hrun
    exact (h s' hlast).1
  | cons b as ih =>
    obtain ⟨s₂, hs, hrest⟩ := Option.bind_eq_some_iff.1 hrun
    exact ih (h s₂ hs).2 hrest

end Concurrency
