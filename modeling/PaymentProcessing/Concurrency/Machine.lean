import Mathlib.Logic.Function.Basic
import PaymentProcessing.Concurrency.Program

/-!
# Programs interleaved on a shared state

A `Machine` gives every operation a meaning on a shared state, and a program to every kind of
process. A configuration (`Sys`) is the shared state with the processes started so far; each
process keeps the rest of its program. One action starts a process, lets one process perform its
next operation, kills a process, or lets the environment act. `Steps A` relates configurations
joined by any number of actions that all satisfy `A`, which is how an assumption on the
interleavings (which processes are started, who keeps a deadline) enters.

An operation is resolved by a choice: what the environment decided about it (a failure, a random
value). An operation that cannot proceed yet (it waits for a lock) has no result, and its process
does not move.
-/

namespace Concurrency

/-- The meaning of the operations `Op` on the shared states `State`, and how a process of each kind
starts. -/
structure Machine {Op : Type} (Res : Op → Type) (Err State Choice Kind Env Reply : Type) where
  /-- What operation `op` of process `i` answers and leaves behind, if it can proceed. -/
  exec : Nat → (op : Op) → Choice → State → Option (Except Err (Res op) × State)
  /-- The environment's own action, if it can happen. -/
  env : Env → State → Option State
  /-- The state in which process `i` of kind `k` starts and the program it runs, if it can start. -/
  start : Nat → Kind → State → Option (State × Prog Res Err Reply)
  /-- What is left behind when process `i` is killed. -/
  halt : Nat → State → State

/-- A process: not started, running the rest of its program (a program that has returned or raised
runs no further), or killed. -/
inductive Proc {Op : Type} (Res : Op → Type) (Err Kind Reply : Type) where
  | idle
  | running (k : Kind) (p : Prog Res Err Reply)
  | killed (k : Kind)

/-- A configuration: the shared state and every process. -/
structure Sys {Op : Type} (Res : Op → Type) (Err State Kind Reply : Type) where
  state : State
  procs : Nat → Proc Res Err Kind Reply

/-- The actions of a machine. -/
inductive Action (Choice Kind Env : Type) where
  | spawn (i : Nat) (k : Kind)
  | run (i : Nat) (c : Choice)
  | kill (i : Nat)
  | env (e : Env)

namespace Machine

variable {Op : Type} {Res : Op → Type} {Err State Choice Kind Env Reply : Type}
  (M : Machine Res Err State Choice Kind Env Reply)

/-- Operation `op` of process `i` can answer `r` at `s` and leave `s'`. -/
def Does (i : Nat) (op : Op) (r : Except Err (Res op)) (s s' : State) : Prop :=
  ∃ c, M.exec i op c s = some (r, s')

/-- One action. -/
def step (a : Action Choice Kind Env) (y : Sys Res Err State Kind Reply) :
    Option (Sys Res Err State Kind Reply) :=
  match a with
  | .spawn i k =>
    match y.procs i with
    | .idle => (M.start i k y.state).map fun sp =>
        ⟨sp.1, Function.update y.procs i (.running k sp.2)⟩
    | _ => none
  | .run i c =>
    match y.procs i with
    | .running k (.call op p) => (M.exec i op c y.state).map fun rs =>
        ⟨rs.2, Function.update y.procs i (.running k (p rs.1))⟩
    | _ => none
  | .kill i =>
    match y.procs i with
    | .running k _ => some ⟨M.halt i y.state, Function.update y.procs i (.killed k)⟩
    | _ => none
  | .env e => (M.env e y.state).map fun s => ⟨s, y.procs⟩

/-- What one action does: the four kinds of steps, each with everything it needs. -/
inductive StepCases (a : Action Choice Kind Env) (y y' : Sys Res Err State Kind Reply) : Prop where
  | spawn (i : Nat) (k : Kind) (s : State) (p : Prog Res Err Reply) (ha : a = .spawn i k)
      (hi : y.procs i = .idle) (hs : M.start i k y.state = some (s, p))
      (hy : y' = ⟨s, Function.update y.procs i (.running k p)⟩)
  | run (i : Nat) (c : Choice) (k : Kind) (op : Op)
      (p : Except Err (Res op) → Prog Res Err Reply) (r : Except Err (Res op)) (s : State)
      (ha : a = .run i c) (hi : y.procs i = .running k (.call op p))
      (hs : M.exec i op c y.state = some (r, s))
      (hy : y' = ⟨s, Function.update y.procs i (.running k (p r))⟩)
  | kill (i : Nat) (k : Kind) (p : Prog Res Err Reply) (ha : a = .kill i)
      (hi : y.procs i = .running k p)
      (hy : y' = ⟨M.halt i y.state, Function.update y.procs i (.killed k)⟩)
  | env (e : Env) (s : State) (ha : a = .env e) (hs : M.env e y.state = some s)
      (hy : y' = ⟨s, y.procs⟩)

theorem step_cases {a : Action Choice Kind Env} {y y' : Sys Res Err State Kind Reply}
    (h : M.step a y = some y') : M.StepCases a y y' := by
  cases a with
  | spawn i k =>
    simp only [step] at h
    split at h
    · rename_i hi
      obtain ⟨⟨s, p⟩, hs, rfl⟩ := Option.map_eq_some_iff.1 h
      exact .spawn i k s p rfl hi hs rfl
    · cases h
  | run i c =>
    simp only [step] at h
    split at h
    · rename_i k op p hi
      obtain ⟨⟨r, s⟩, hs, rfl⟩ := Option.map_eq_some_iff.1 h
      exact .run i c k op p r s rfl hi hs rfl
    · cases h
  | kill i =>
    simp only [step] at h
    split at h
    · rename_i k p hi
      cases h
      exact .kill i k p rfl hi rfl
    · cases h
  | env e =>
    obtain ⟨s, hs, rfl⟩ := Option.map_eq_some_iff.1 h
    exact .env e s rfl hs rfl

/-- Configurations joined by actions that all satisfy `A`. -/
inductive Steps (A : Sys Res Err State Kind Reply → Action Choice Kind Env → Prop)
    (y₀ : Sys Res Err State Kind Reply) : Sys Res Err State Kind Reply → Prop where
  | refl : Steps A y₀ y₀
  | step {y y' : Sys Res Err State Kind Reply} (a : Action Choice Kind Env) :
      Steps A y₀ y → A y a → M.step a y = some y' → Steps A y₀ y'

variable {M}
variable {A B : Sys Res Err State Kind Reply → Action Choice Kind Env → Prop}
  {y₀ y₁ y₂ : Sys Res Err State Kind Reply}

theorem Steps.trans (h₁ : M.Steps A y₀ y₁) (h₂ : M.Steps A y₁ y₂) : M.Steps A y₀ y₂ := by
  induction h₂ with
  | refl => exact h₁
  | step a _ ha hs ih => exact .step a ih ha hs

theorem Steps.mono (hAB : ∀ y a, A y a → B y a) (h : M.Steps A y₀ y₁) : M.Steps B y₀ y₁ := by
  induction h with
  | refl => exact .refl
  | step a _ ha hs ih => exact .step a ih (hAB _ _ ha) hs

/-- An invariant of the configurations: it holds at first and every allowed action keeps it. -/
theorem Steps.invariant {P : Sys Res Err State Kind Reply → Prop} (h : M.Steps A y₀ y₁)
    (h₀ : P y₀) (hstep : ∀ y y' a, M.Steps A y₀ y → P y → A y a → M.step a y = some y' → P y') :
    P y₁ := by
  induction h with
  | refl => exact h₀
  | step a hy ha hs ih => exact hstep _ _ a hy ih ha hs

variable (M)

/-- Perform a list of actions in order. -/
def runActions : List (Action Choice Kind Env) → Sys Res Err State Kind Reply →
    Option (Sys Res Err State Kind Reply)
  | [], y => some y
  | a :: as, y => (M.step a y).bind (runActions as)

/-- What the actions of a run show, in their order. -/
def trace {β : Type} (shows : Sys Res Err State Kind Reply → Action Choice Kind Env → List β) :
    List (Action Choice Kind Env) → Sys Res Err State Kind Reply → List β
  | [], _ => []
  | a :: as, y => shows y a ++ ((M.step a y).map (trace shows as)).getD []

/-- The list of actions satisfies `A`, each at the configuration it acts on. -/
def AllowedActions (A : Sys Res Err State Kind Reply → Action Choice Kind Env → Prop) :
    List (Action Choice Kind Env) → Sys Res Err State Kind Reply → Prop
  | [], _ => True
  | a :: as, y => A y a ∧ ∀ y', M.step a y = some y' → AllowedActions A as y'

instance [∀ y a, Decidable (A y a)] (as : List (Action Choice Kind Env))
    (y : Sys Res Err State Kind Reply) : Decidable (M.AllowedActions A as y) :=
  match as with
  | [] => isTrue trivial
  | a :: as =>
    have : ∀ y, Decidable (M.AllowedActions A as y) := fun y => instDecidableAllowedActions as y
    match hs : M.step a y with
    | none => decidable_of_iff (A y a) (by simp [AllowedActions, hs])
    | some y' => decidable_of_iff (A y a ∧ M.AllowedActions A as y') (by simp [AllowedActions, hs])

variable {M}

theorem AllowedActions.mono (hAB : ∀ y a, A y a → B y a) {as : List (Action Choice Kind Env)} :
    ∀ {y : Sys Res Err State Kind Reply}, M.AllowedActions A as y → M.AllowedActions B as y := by
  induction as with
  | nil => exact fun _ => trivial
  | cons a as ih => exact fun h => ⟨hAB _ _ h.1, fun y' hs => ih (h.2 y' hs)⟩

theorem AllowedActions.any (hA : ∀ y a, A y a) (as : List (Action Choice Kind Env)) :
    ∀ y : Sys Res Err State Kind Reply, M.AllowedActions A as y := by
  induction as with
  | nil => exact fun _ => trivial
  | cons a as ih => exact fun y => ⟨hA y a, fun y' _ => ih y'⟩

theorem runActions_append {as bs : List (Action Choice Kind Env)} :
    ∀ {y : Sys Res Err State Kind Reply},
      M.runActions (as ++ bs) y = (M.runActions as y).bind (M.runActions bs) := by
  induction as with
  | nil => exact fun {_} => rfl
  | cons a as ih =>
    intro y
    simp only [List.cons_append, runActions]
    cases M.step a y with
    | none => rfl
    | some y₁ => exact ih

theorem AllowedActions.append {as bs : List (Action Choice Kind Env)} :
    ∀ {y y' : Sys Res Err State Kind Reply}, M.AllowedActions A (as ++ bs) y →
      M.runActions as y = some y' → M.AllowedActions A as y ∧ M.AllowedActions A bs y' := by
  induction as with
  | nil =>
    intro y y' h hr
    cases hr
    exact ⟨trivial, h⟩
  | cons a as ih =>
    intro y y' h hr
    obtain ⟨y₁, hs, hr⟩ := Option.bind_eq_some_iff.1 hr
    have hrest := ih (h.2 y₁ hs) hr
    refine ⟨⟨h.1, fun y₂ hs₂ => ?_⟩, hrest.2⟩
    rw [hs] at hs₂
    cases hs₂
    exact hrest.1

/-- An executed list of allowed actions is a run. -/
theorem steps_of_runActions {as : List (Action Choice Kind Env)} :
    ∀ {y y' : Sys Res Err State Kind Reply}, M.AllowedActions A as y →
      M.runActions as y = some y' → M.Steps A y y' := by
  induction as with
  | nil =>
    intro y y' _ h
    cases h
    exact .refl
  | cons a as ih =>
    intro y y' hA h
    obtain ⟨y₁, hs, hr⟩ := Option.bind_eq_some_iff.1 h
    exact (Steps.step a .refl hA.1 hs).trans (ih (hA.2 _ hs) hr)

end Machine

end Concurrency
