import Mathlib.Algebra.Order.BigOperators.Group.List
import Mathlib.Algebra.Order.Ring.Nat
import Mathlib.Data.List.Perm.Basic
import PaymentProcessing.Concurrency.Machine

/-!
# Accounting over a run

A run has a price: what its actions cost together (`total`). If a potential of the configurations
never grows by more than what the action costs and a counter of the run gains, then it is bounded by
the price of the run and the counter (`total_bound`). The lemmas on lists are for potentials that
are sums over a queue or a log.
-/

namespace Concurrency

/-! ## Sums -/

section Sums

variable {α : Type}

/-- What a queue weighs without the element that is taken. -/
theorem sum_eraseIdx (f : α → Nat) {l : List α} {n : Nat} {x : α} (h : l[n]? = some x) :
    f x + ((l.eraseIdx n).map f).sum = (l.map f).sum := by
  obtain ⟨hn, rfl⟩ := List.getElem?_eq_some_iff.1 h
  have hperm := (List.getElem_cons_eraseIdx_perm hn).map f
  rw [← hperm.sum_nat, List.map_cons, List.sum_cons]

/-- What is paid for one element is missing from the sum. -/
theorem sum_add_le {f g : α → Nat} {l : List α} {c : Nat} {x : α} (hx : x ∈ l)
    (h : ∀ z ∈ l, f z ≤ g z) (hc : f x + c ≤ g x) : (l.map f).sum + c ≤ (l.map g).sum := by
  induction l with
  | nil => cases hx
  | cons z l ih =>
    have hz := h z (List.mem_cons_self ..)
    have hrest : ∀ w ∈ l, f w ≤ g w := fun w hw => h w (List.mem_cons_of_mem _ hw)
    simp only [List.map_cons, List.sum_cons]
    rcases List.mem_cons.1 hx with rfl | hx
    · have hsum := List.sum_le_sum hrest
      omega
    · have hsum := ih hx hrest
      omega

/-- What holds of the sums over the parts of a list holds of the sums over the list. -/
theorem sum_le_of_parts (key : α → Nat) {f g : α → Nat} (n : Nat) : ∀ l : List α, l.length ≤ n →
    (∀ i, ((l.filter fun x => key x = i).map f).sum ≤ ((l.filter fun x => key x = i).map g).sum) →
      (l.map f).sum ≤ (l.map g).sum := by
  induction n with
  | zero =>
    intro l hl _
    rw [List.length_eq_zero_iff.1 (Nat.le_zero.1 hl)]
    exact Nat.le_refl _
  | succ n ih =>
    intro l hl hparts
    cases l with
    | nil => exact Nat.le_refl _
    | cons x t =>
      -- the part of the first element, and the others
      have hsplit : ∀ f : α → Nat, ((x :: t).map f).sum =
          (((x :: t).filter fun z => key z = key x).map f).sum +
            (((x :: t).filter fun z => !decide (key z = key x)).map f).sum := by
        intro f
        have hperm := (List.filter_append_perm (fun z => decide (key z = key x)) (x :: t)).map f
        rw [← hperm.sum_nat, List.map_append, List.sum_append_nat]
      have hshort : ((x :: t).filter fun z => !decide (key z = key x)).length ≤ n := by
        have hlt : ((x :: t).filter fun z => !decide (key z = key x)).length < (x :: t).length :=
          List.length_filter_lt_length_iff_exists.2 ⟨x, List.mem_cons_self .., by simp⟩
        omega
      rw [hsplit f, hsplit g]
      refine Nat.add_le_add (hparts (key x)) (ih _ hshort ?_)
      intro i
      rw [List.filter_filter]
      by_cases hi : i = key x
      · subst hi
        simp
      · have hsame : ((x :: t).filter fun z => decide (key z = i) && !decide (key z = key x)) =
            (x :: t).filter fun z => decide (key z = i) := by
          refine List.filter_congr ?_
          intro z _
          by_cases hz : key z = i
          · simp [hz, hi]
          · simp [hz]
        rw [hsame]
        exact hparts i

end Sums

/-! ## Runs -/

namespace Machine

variable {Op : Type} {Res : Op → Type} {Err State Choice Kind Env Reply : Type}
  (M : Machine Res Err State Choice Kind Env Reply)

/-- What the actions of a run cost together. -/
def total (cost : Sys Res Err State Kind Reply → Action Choice Kind Env → Nat) :
    List (Action Choice Kind Env) → Sys Res Err State Kind Reply → Nat
  | [], _ => 0
  | a :: as, y => cost y a + ((M.step a y).map (total cost as)).getD 0

variable {M} {A : Sys Res Err State Kind Reply → Action Choice Kind Env → Prop}
  {cost : Sys Res Err State Kind Reply → Action Choice Kind Env → Nat}
  {I : Sys Res Err State Kind Reply → Prop}

theorem total_mul (n : Nat) (as : List (Action Choice Kind Env))
    (y : Sys Res Err State Kind Reply) :
    M.total (fun y a => n * cost y a) as y = n * M.total cost as y := by
  induction as generalizing y with
  | nil => rfl
  | cons a as ih =>
    rw [total, total, Nat.mul_add]
    cases M.step a y with
    | none => rfl
    | some y₁ => exact congrArg _ (ih y₁)

/-- **A potential is bounded by what the run costs** and what the counter gains. -/
theorem total_bound (potential counter : Sys Res Err State Kind Reply → Nat)
    (hstep : ∀ y y' a, I y → A y a → M.step a y = some y' → I y' ∧
      potential y' + counter y ≤ potential y + counter y' + cost y a)
    {as : List (Action Choice Kind Env)} {y y' : Sys Res Err State Kind Reply} (hI : I y)
    (hA : M.AllowedActions A as y) (h : M.runActions as y = some y') :
    potential y' + counter y ≤ potential y + counter y' + M.total cost as y := by
  induction as generalizing y with
  | nil =>
    cases h
    exact Nat.le_refl _
  | cons a as ih =>
    obtain ⟨y₁, hs, hr⟩ := Option.bind_eq_some_iff.1 h
    obtain ⟨hI₁, hone⟩ := hstep y y₁ a hI hA.1 hs
    have hrest := ih hI₁ (hA.2 y₁ hs) hr
    have htotal : M.total cost (a :: as) y = cost y a + M.total cost as y₁ := by
      rw [total, hs]
      rfl
    rw [htotal]
    omega

end Machine

end Concurrency
