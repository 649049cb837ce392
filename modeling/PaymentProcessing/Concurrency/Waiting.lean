import Mathlib.Logic.Relation
import PaymentProcessing.Concurrency.Machine

/-!
# Waiting

An operation that cannot proceed waits. `Comes φ i G` says that process `i`, by itself and whatever
it is answered, comes to a state with `G` and can always proceed until then. Programs are finite, so
this follows from what holds of one configuration (`comes_of_proceeds`). Where nobody waits for a
process that waits, there is no cycle of processes that wait for each other.
-/

namespace Concurrency

namespace Machine

variable {Op : Type} {Res : Op → Type} {Err State Choice Kind Env Reply : Type}
  (M : Machine Res Err State Choice Kind Env Reply)

/-- The next operation of process `i` can proceed, however it is resolved by choices with `φ`. -/
def Proceeds (φ : Op → Choice → State → Prop) (i : Nat) (y : Sys Res Err State Kind Reply) : Prop :=
  ∃ k op f, y.procs i = .running k (.call op f) ∧
    ∀ c, φ op c y.state → (M.exec i op c y.state).isSome = true

/-- Process `i` comes to `G` by itself. -/
inductive Comes (φ : Op → Choice → State → Prop) (i : Nat) (G : State → Prop) :
    Sys Res Err State Kind Reply → Prop where
  | there {y : Sys Res Err State Kind Reply} (hG : G y.state) : Comes φ i G y
  | next {y : Sys Res Err State Kind Reply} (hp : M.Proceeds φ i y)
      (hn : ∀ c y', M.step (.run i c) y = some y' → Comes φ i G y') : Comes φ i G y

variable {M}
variable {φ : Op → Choice → State → Prop} {i : Nat} {G : State → Prop}

/-- **A process that proceeds until it is there comes there**: its program is finite. -/
theorem comes_of_proceeds {R : Sys Res Err State Kind Reply → Prop}
    (hstep : ∀ y c y', R y → M.step (.run i c) y = some y' → R y')
    (hproceeds : ∀ y k p, R y → y.procs i = .running k p → G y.state ∨ M.Proceeds φ i y)
    {y : Sys Res Err State Kind Reply} {k : Kind} {p : Prog Res Err Reply} (hy : R y)
    (hi : y.procs i = .running k p) : M.Comes φ i G y := by
  induction p generalizing y with
  | ret a | raise e =>
    refine (hproceeds y k _ hy hi).elim .there ?_
    intro hp
    obtain ⟨_, _, _, hcall, -⟩ := hp
    rw [hi] at hcall
    cases hcall
  | call op f ih =>
    refine (hproceeds y k _ hy hi).elim .there fun hp => .next hp ?_
    intro c y' hs
    have hs' := hs
    simp only [Machine.step, hi] at hs'
    obtain ⟨⟨r, s⟩, -, rfl⟩ := Option.map_eq_some_iff.1 hs'
    exact ih r (hstep y c _ hy hs) (Function.update_self ..)

end Machine

/-- Where nobody waits for one who waits, nobody waits for himself. -/
theorem no_cycle {α : Type} {waits : α → α → Prop}
    (hw : ∀ i j, waits i j → ∀ m, ¬ waits m i) (i : α) : ¬ Relation.TransGen waits i i := by
  intro hcycle
  obtain ⟨j, hij, -⟩ := Relation.TransGen.head'_iff.1 hcycle
  obtain ⟨m, -, hmi⟩ := Relation.TransGen.tail'_iff.1 hcycle
  exact hw i j hij m hmi

end Concurrency
