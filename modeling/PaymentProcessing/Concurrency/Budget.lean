import PaymentProcessing.Concurrency.History

/-!
# Programs within a budget

`p.Within ψ Q n`: as long as its operations answer with `ψ`, the program performs at most `n` of
them before it ends with `Q`, whatever they answer. A part of a program takes from the budget what
it may need, and the rest is for what comes after it.
-/

namespace Concurrency

variable {Op : Type} {Res : Op → Type} {Err α β : Type}

namespace Prog

/-- The program performs at most `n` operations and ends with `Q`. -/
def Within (ψ : (op : Op) → Except Err (Res op) → Prop) (Q : Except Err α → Prop) :
    Prog Res Err α → Nat → Prop
  | .ret a, _ => Q (.ok a)
  | .raise e, _ => Q (.error e)
  | .call op k, n => 0 < n ∧ ∀ r, ψ op r → Within ψ Q (k r) (n - 1)

variable {ψ : (op : Op) → Except Err (Res op) → Prop} {Q Q' : Except Err α → Prop}
  {R : Except Err β → Prop} {p : Prog Res Err α} {n m : Nat}

theorem Within.mono (hp : p.Within ψ Q n) (hn : n ≤ m) (hQ : ∀ r, Q r → Q' r) :
    p.Within ψ Q' m := by
  induction p generalizing n m with
  | ret a => exact hQ _ hp
  | raise e => exact hQ _ hp
  | call op k ih =>
    obtain ⟨hpos, hk⟩ := hp
    refine ⟨by omega, ?_⟩
    intro r hr
    exact ih r (hk r hr) (by omega)

theorem within_ofExcept {r : Except Err α} (hr : Q r) : (ofExcept r).Within ψ Q n := by
  cases r <;> exact hr

theorem within_perform {op : Op} {Q : Except Err (Res op) → Prop} (hn : 0 < n)
    (hQ : ∀ r, ψ op r → Q r) : (perform op).Within ψ Q n := by
  refine ⟨hn, ?_⟩
  intro r hr
  exact within_ofExcept (hQ r hr)

/-- **Sequencing** leaves the second program what the first may not need. -/
theorem Within.bind {f : α → Prog Res Err β} (hp : p.Within ψ Q n) (hn : n ≤ m)
    (hf : ∀ a, Q (.ok a) → (f a).Within ψ R (m - n))
    (herr : ∀ e, Q (.error e) → R (.error e)) : (p.bind f).Within ψ R m := by
  induction p generalizing n m with
  | ret a => exact (hf a hp).mono (by omega) fun _ h => h
  | raise e => exact herr e hp
  | call op k ih =>
    obtain ⟨hpos, hk⟩ := hp
    refine ⟨by omega, ?_⟩
    intro r hr
    have hrest : m - 1 - (n - 1) = m - n := by omega
    refine ih r (hk r hr) (by omega) ?_
    rw [hrest]
    exact hf

theorem Within.tryCatch {f : Err → Prog Res Err α} (hp : p.Within ψ Q n) (hn : n ≤ m)
    (hok : ∀ a, Q (.ok a) → Q' (.ok a))
    (herr : ∀ e, Q (.error e) → (f e).Within ψ Q' (m - n)) : (p.tryCatch f).Within ψ Q' m := by
  induction p generalizing n m with
  | ret a => exact hok a hp
  | raise e => exact (herr e hp).mono (by omega) fun _ h => h
  | call op k ih =>
    obtain ⟨hpos, hk⟩ := hp
    refine ⟨by omega, ?_⟩
    intro r hr
    have hrest : m - 1 - (n - 1) = m - n := by omega
    refine ih r (hk r hr) (by omega) ?_
    rw [hrest]
    exact herr

/-- A program with a handler, and what comes after it: only one of the two needs the rest. -/
theorem Within.tryCatch_bind {h : Err → Prog Res Err α} {f : α → Prog Res Err β}
    (hp : p.Within ψ Q n) (hn : n ≤ m) (hf : ∀ a, Q (.ok a) → (f a).Within ψ R (m - n))
    (hh : ∀ e, Q (.error e) → ((h e).bind f).Within ψ R (m - n)) :
    ((p.tryCatch h).bind f).Within ψ R m := by
  induction p generalizing n m with
  | ret a => exact (hf a hp).mono (by omega) fun _ h => h
  | raise e => exact (hh e hp).mono (by omega) fun _ h => h
  | call op k ih =>
    obtain ⟨hpos, hk⟩ := hp
    refine ⟨by omega, ?_⟩
    intro r hr
    have hrest : m - 1 - (n - 1) = m - n := by omega
    refine ih r (hk r hr) (by omega) ?_ ?_
    · rw [hrest]
      exact hf
    · rw [hrest]
      exact hh

/-- A program that closes on both ways out needs what closing needs once. -/
theorem Within.tryFinally {q : Prog Res Err Unit} (hp : p.Within ψ (fun _ => True) n) (hn : n ≤ m)
    (hq : q.Within ψ (fun _ => True) (m - n)) : (p.tryFinally q).Within ψ (fun _ => True) m := by
  refine Within.tryCatch_bind hp hn ?_ ?_
  · intro a _
    refine Within.bind hq (Nat.le_refl _) ?_ fun _ _ => trivial
    intro _ _
    trivial
  · intro e _
    refine Within.bind (Q := fun r => ∃ e, r = .error e) ?_ (Nat.le_refl _) ?_ fun _ _ => trivial
    · refine Within.bind hq (Nat.le_refl _) ?_ ?_
      · intro _ _
        exact ⟨e, rfl⟩
      · intro e' _
        exact ⟨e', rfl⟩
    · rintro a ⟨e', he⟩
      cases he

/-- Along a run, the history stays as short as the budget says. -/
theorem Within.along {N : Nat} {h : List (Performed Res Err)} (hp : p.Within ψ Q n)
    (hN : h.length + n ≤ N) :
    p.Along (fun _ => ψ) (fun h _ => h.length < N) (fun h _ => h.length ≤ N) h := by
  induction p generalizing n h with
  | ret a =>
    show h.length ≤ N
    omega
  | raise e =>
    show h.length ≤ N
    omega
  | call op k ih =>
    obtain ⟨hpos, hk⟩ := hp
    refine ⟨by omega, ?_⟩
    intro r hr
    refine ih r (hk r hr) ?_
    rw [List.length_cons]
    omega

end Prog

theorem Obeyed.length_le {ψ : List (Performed Res Err) → (op : Op) → Except Err (Res op) → Prop}
    {N : Nat} {h : List (Performed Res Err)} (ho : Obeyed ψ (fun h _ => h.length < N) h) :
    h.length ≤ N := by
  cases h with
  | nil => exact Nat.zero_le N
  | cons x h =>
    have hlt : h.length < N := ho.1
    rw [List.length_cons]
    omega

end Concurrency
