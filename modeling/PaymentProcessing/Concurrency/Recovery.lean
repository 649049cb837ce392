import PaymentProcessing.Concurrency.Alone

/-!
# What is still possible

From any configuration of a run the processes can be started over: only finitely many have started,
so all of them can be killed (`crash`), and a process that is alone after that comes to its end, if
its operations can always proceed (`ends_of_only`). `Ends.restrict` is for a process of which more is
known than has to be chosen.
-/

namespace Concurrency

namespace Machine

variable {Op : Type} {Res : Op → Type} {Err State Choice Kind Env Reply α : Type}
  {M : Machine Res Err State Choice Kind Env Reply}
  {A B : Sys Res Err State Kind Reply → Action Choice Kind Env → Prop}
  {y y₀ y₁ : Sys Res Err State Kind Reply} {n : Nat}

/-! ## Crashing -/

/-- The processes from `n` on have not started. -/
def Unstarted (n : Nat) (y : Sys Res Err State Kind Reply) : Prop :=
  ∀ i, n ≤ i → y.procs i = .idle

/-- No process runs. -/
def Halted (y : Sys Res Err State Kind Reply) : Prop := ∀ i k p, y.procs i ≠ .running k p

/-- A run by actions with `B`, which the actions with `A` have along it. -/
theorem Steps.restrict (h : M.Steps A y₀ y₁)
    (hAB : ∀ y a, M.Steps A y₀ y → A y a → B y a) : M.Steps B y₀ y₁ := by
  induction h with
  | refl => exact .refl
  | step a hy ha hs ih => exact .step a ih (hAB _ _ hy ha) hs

theorem step_started {a : Action Choice Kind Env} {y' : Sys Res Err State Kind Reply}
    (hs : M.step a y = some y') (h : Unstarted n y) : ∃ m, Unstarted m y' := by
  have hupdate : ∀ i q, ∃ m, ∀ j, m ≤ j → Function.update y.procs i q j = .idle := by
    intro i q
    refine ⟨max n (i + 1), fun j hj => ?_⟩
    rw [Function.update_of_ne (by omega)]
    exact h j (by omega)
  cases M.step_cases hs with
  | spawn i k s p ha hi hst hy => subst hy; exact hupdate i _
  | run i c k op f r s ha hi hex hy => subst hy; exact hupdate i _
  | kill i k p ha hi hy => subst hy; exact hupdate i _
  | env e s ha hst hy => subst hy; exact ⟨n, h⟩

/-- **Only finitely many processes have started.** -/
theorem Steps.unstarted (h : M.Steps A y₀ y₁) (h₀ : ∃ n, Unstarted n y₀) :
    ∃ n, Unstarted n y₁ := by
  refine h.invariant (P := fun y => ∃ n, Unstarted n y) h₀ ?_
  intro y y' a _ ⟨n, hn⟩ _ hs
  exact step_started hs hn

/-- **A crash**: every process that runs is killed. -/
theorem crash {R : State → State → Prop} (hrefl : ∀ s, R s s)
    (htrans : ∀ s₁ s₂ s₃, R s₁ s₂ → R s₂ s₃ → R s₁ s₃) (hhalt : ∀ i s, R s (M.halt i s))
    (hA : ∀ y i, A y (.kill i)) (hn : Unstarted n y) :
    ∃ y', M.Steps A y y' ∧ Halted y' ∧ Unstarted n y' ∧ R y.state y'.state := by
  have hfirst : ∀ m, ∃ y', M.Steps A y y' ∧ (∀ i < m, ∀ k p, y'.procs i ≠ .running k p) ∧
      Unstarted n y' ∧ R y.state y'.state := by
    intro m
    induction m with
    | zero => exact ⟨y, .refl, (fun i hi => by omega), hn, hrefl _⟩
    | succ m ih =>
      obtain ⟨y', hs, hhalted, hn', hR⟩ := ih
      by_cases hm : ∃ k p, y'.procs m = .running k p
      · obtain ⟨k, p, hm⟩ := hm
        have hstep : M.step (.kill m) y' =
            some ⟨M.halt m y'.state, Function.update y'.procs m (.killed k)⟩ := by
          simp only [Machine.step, hm]
        have hothers : ∀ i, i ≠ m → Function.update y'.procs m (.killed k) i = y'.procs i :=
          fun i him => Function.update_of_ne him _ _
        refine ⟨_, hs.step _ (hA y' m) hstep, ?_, ?_, htrans _ _ _ hR (hhalt m _)⟩
        · intro i hi k' p' hp
          by_cases him : i = m
          · subst him
            cases (Function.update_self i _ _).symm.trans hp
          · exact hhalted i (by omega) k' p' ((hothers i him).symm.trans hp)
        · intro i hi
          have him : i ≠ m := by
            rintro rfl
            rw [hn' i hi] at hm
            cases hm
          exact (hothers i him).trans (hn' i hi)
      · refine ⟨y', hs, fun i hi k p hp => ?_, hn', hR⟩
        by_cases him : i = m
        · subst him
          exact hm ⟨k, p, hp⟩
        · exact hhalted i (by omega) k p hp
  obtain ⟨y', hs, hhalted, hn', hR⟩ := hfirst n
  refine ⟨y', hs, fun i k p hp => ?_, hn', hR⟩
  by_cases hi : i < n
  · exact hhalted i hi k p hp
  · rw [hn' i (by omega)] at hp
    cases hp

/-! ## Alone -/

variable {i : Nat} {φ χ : Op → Choice → Prop} {s : State} {p : Prog Res Err α}
  {Q : Except Err α → State → Prop}

/-- A process that ends with `Q` for all choices with `φ` does so for fewer ones. -/
theorem Ends.restrict (h : M.Ends i φ Q p s) (hχ : ∀ op c, χ op c → φ op c)
    (hcan : ∀ op c r s s', φ op c → M.exec i op c s = some (r, s') →
      ∃ c' r' s', χ op c' ∧ M.exec i op c' s = some (r', s')) : M.Ends i χ Q p s := by
  induction p generalizing s with
  | ret a => exact h
  | raise e => exact h
  | call op k ih =>
    obtain ⟨⟨c, r, s', hc, he⟩, hk⟩ := h
    exact ⟨hcan op c r s s' hc he, fun c r s' hc he => ih r (hk c r s' (hχ op c hc) he)⟩

/-- **A program whose operations can always proceed** comes to its end, and keeps what they keep. -/
theorem ends_of_only {I : State → Prop} {φ : Op → Prop} (hp : p.Only φ)
    (hI : I s) (hcan : ∀ op s, I s → φ op → ∃ c r s', χ op c ∧ M.exec i op c s = some (r, s'))
    (hkeep : ∀ op c r s s', I s → φ op → χ op c → M.exec i op c s = some (r, s') → I s') :
    M.Ends i χ (fun _ s' => I s') p s := by
  induction p generalizing s with
  | ret a => exact hI
  | raise e => exact hI
  | call op k ih =>
    refine ⟨hcan op s hI hp.1, fun c r s' hc he => ?_⟩
    exact ih r (hp.2 r) (hkeep op c r s s' hI hp.1 hc he)

end Machine

end Concurrency
