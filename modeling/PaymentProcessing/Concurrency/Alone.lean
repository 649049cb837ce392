import PaymentProcessing.Concurrency.Machine

/-!
# One process alone

While the others rest, what a process comes to depends only on how its own operations are resolved.
`Ends i φ Q p s` says that process `i`, running `p` from `s` by itself with choices that have `φ`,
can always proceed and ends with `Q`. It is proved along the program with a rule for each way to
put programs together; `Ends.comes` and `Ends.ended` give it for the runs of a machine.
-/

namespace Concurrency

namespace Machine

variable {Op : Type} {Res : Op → Type} {Err State Choice Kind Env Reply α β : Type}
  (M : Machine Res Err State Choice Kind Env Reply)

/-- By itself, process `i` running `p` from `s` ends with `Q`. -/
def Ends (i : Nat) (φ : Op → Choice → Prop) (Q : Except Err α → State → Prop) :
    Prog Res Err α → State → Prop
  | .ret a, s => Q (.ok a) s
  | .raise e, s => Q (.error e) s
  | .call op k, s => (∃ c r s', φ op c ∧ M.exec i op c s = some (r, s')) ∧
      ∀ c r s', φ op c → M.exec i op c s = some (r, s') → Ends i φ Q (k r) s'

/-- The action performs the next operation of process `i` with a choice that has `φ`. -/
def Alone (i : Nat) (φ : Op → Choice → Prop) (y : Sys Res Err State Kind Reply)
    (a : Action Choice Kind Env) : Prop :=
  ∃ k op f c, a = .run i c ∧ y.procs i = .running k (.call op f) ∧ φ op c

variable {M}
variable {i : Nat} {φ : Op → Choice → Prop} {s : State} {p : Prog Res Err α}
  {Q Q' : Except Err α → State → Prop}

/-! ## Rules -/

theorem Ends.mono (h : M.Ends i φ Q p s) (hQ : ∀ r s, Q r s → Q' r s) : M.Ends i φ Q' p s := by
  induction p generalizing s with
  | ret a => exact hQ _ _ h
  | raise e => exact hQ _ _ h
  | call op k ih => exact ⟨h.1, fun c r s' hc he => ih r (h.2 c r s' hc he)⟩

theorem ends_ofExcept {r : Except Err α} (h : Q r s) : M.Ends i φ Q (.ofExcept r) s := by
  cases r <;> exact h

theorem Ends.bind {f : α → Prog Res Err β} {R : Except Err β → State → Prop}
    (h : M.Ends i φ Q p s) (hok : ∀ a s, Q (.ok a) s → M.Ends i φ R (f a) s)
    (herr : ∀ e s, Q (.error e) s → R (.error e) s) : M.Ends i φ R (p.bind f) s := by
  induction p generalizing s with
  | ret a => exact hok a s h
  | raise e => exact herr e s h
  | call op k ih => exact ⟨h.1, fun c r s' hc he => ih r (h.2 c r s' hc he)⟩

theorem Ends.tryCatch {f : Err → Prog Res Err α} {R : Except Err α → State → Prop}
    (h : M.Ends i φ Q p s) (hok : ∀ a s, Q (.ok a) s → R (.ok a) s)
    (herr : ∀ e s, Q (.error e) s → M.Ends i φ R (f e) s) : M.Ends i φ R (p.tryCatch f) s := by
  induction p generalizing s with
  | ret a => exact hok a s h
  | raise e => exact herr e s h
  | call op k ih => exact ⟨h.1, fun c r s' hc he => ih r (h.2 c r s' hc he)⟩

/-- **One operation** that can proceed and, however it is resolved, comes to `Q`. -/
theorem ends_perform {op : Op} {Q : Except Err (Res op) → State → Prop}
    (hcan : ∃ c r s', φ op c ∧ M.exec i op c s = some (r, s'))
    (hdo : ∀ c r s', φ op c → M.exec i op c s = some (r, s') → Q r s') :
    M.Ends i φ Q (.perform op) s :=
  ⟨hcan, fun c r s' hc he => ends_ofExcept (hdo c r s' hc he)⟩

/-- What every operation of process `i` that is resolved so keeps, a program keeps. -/
theorem Ends.tracks {R : State → State → Prop} (hrefl : ∀ s, R s s)
    (htrans : ∀ s₁ s₂ s₃, R s₁ s₂ → R s₂ s₃ → R s₁ s₃)
    (hexec : ∀ op c r s s', φ op c → M.exec i op c s = some (r, s') → R s s')
    (h : M.Ends i φ Q p s) : M.Ends i φ (fun r s' => Q r s' ∧ R s s') p s := by
  induction p generalizing s with
  | ret a => exact ⟨h, hrefl s⟩
  | raise e => exact ⟨h, hrefl s⟩
  | call op k ih =>
    refine ⟨h.1, fun c r s₁ hc he => ?_⟩
    have hrest := ih r (h.2 c r s₁ hc he)
    exact hrest.mono fun r s₂ h₂ => ⟨h₂.1, htrans _ _ _ (hexec op c _ _ _ hc he) h₂.2⟩

/-- What every operation keeps, a program keeps. -/
theorem Ends.keeps {R : State → State → Prop} (hrefl : ∀ s, R s s)
    (htrans : ∀ s₁ s₂ s₃, R s₁ s₂ → R s₂ s₃ → R s₁ s₃)
    (hexec : ∀ op c r s s', M.exec i op c s = some (r, s') → R s s')
    (h : M.Ends i φ Q p s) : M.Ends i φ (fun r s' => Q r s' ∧ R s s') p s :=
  h.tracks hrefl htrans fun op c r s s' _ he => hexec op c r s s' he

/-! ## Runs -/

variable {k : Kind} {y y' : Sys Res Err State Kind Reply} {p : Prog Res Err Reply}
  {Q : Except Err Reply → State → Prop}

theorem Alone.step {a : Action Choice Kind Env} (h : Alone i φ y a) (hs : M.step a y = some y')
    (hp : y.procs i = .running k p) : ∃ op f c r, p = .call op f ∧ φ op c ∧
      M.exec i op c y.state = some (r, y'.state) ∧ y'.procs i = .running k (f r) ∧
      ∀ j, j ≠ i → y'.procs j = y.procs j := by
  obtain ⟨k', op, f, c, rfl, hcall, hc⟩ := h
  rw [hp] at hcall
  cases hcall
  simp only [Machine.step, hp] at hs
  obtain ⟨⟨r, s⟩, hexec, rfl⟩ := Option.map_eq_some_iff.1 hs
  exact ⟨op, f, c, r, rfl, hc, hexec, Function.update_self ..,
    fun j hj => Function.update_of_ne hj _ _⟩

/-- What a process comes to by itself, it comes to from wherever it is. -/
theorem Ends.steps (h : M.Ends i φ Q p y.state) (hp : y.procs i = .running k p)
    (hs : M.Steps (Alone i φ) y y') :
    ∃ p', y'.procs i = .running k p' ∧ M.Ends i φ Q p' y'.state := by
  induction hs with
  | refl => exact ⟨p, hp, h⟩
  | step a _ ha hst ih =>
    obtain ⟨p₁, hp₁, h₁⟩ := ih
    obtain ⟨op, f, c, r, rfl, hc, hexec, hp₂, -⟩ := ha.step hst hp₁
    exact ⟨f r, hp₂, h₁.2 c r _ hc hexec⟩

/-- **It ends with `Q`.** -/
theorem Ends.ended (h : M.Ends i φ Q p y.state) (hp : y.procs i = .running k p)
    (hs : M.Steps (Alone i φ) y y') {r : Except Err Reply}
    (hr : y'.procs i = .running k (.ofExcept r)) : Q r y'.state := by
  obtain ⟨p', hp', h'⟩ := h.steps hp hs
  rw [hr] at hp'
  cases hp'
  cases r <;> exact h'

/-- **It comes to an end.** -/
theorem Ends.comes (h : M.Ends i φ Q p y.state) (hp : y.procs i = .running k p) :
    ∃ y' r, M.Steps (Alone i φ) y y' ∧ y'.procs i = .running k (.ofExcept r) := by
  induction p generalizing y with
  | ret a => exact ⟨y, .ok a, .refl, hp⟩
  | raise e => exact ⟨y, .error e, .refl, hp⟩
  | call op f ih =>
    obtain ⟨⟨c, r, s', hc, hexec⟩, hk⟩ := h
    have hstep : M.step (.run i c) y = some ⟨s', Function.update y.procs i (.running k (f r))⟩ := by
      simp only [Machine.step, hp, hexec, Option.map_some]
    obtain ⟨y', r', hs, hr⟩ := ih r (y := ⟨s', Function.update y.procs i (.running k (f r))⟩)
      (hk c r s' hc hexec) (Function.update_self ..)
    exact ⟨y', r', (Steps.step _ .refl ⟨k, op, f, c, rfl, hp, hc⟩ hstep).trans hs, hr⟩

theorem Alone.running (hp : y.procs i = .running k p) (hs : M.Steps (Alone i φ) y y') :
    ∃ p', y'.procs i = .running k p' := by
  induction hs with
  | refl => exact ⟨p, hp⟩
  | step a _ ha hst ih =>
    obtain ⟨p₁, hp₁⟩ := ih
    obtain ⟨op, f, c, r, -, -, -, hp₂, -⟩ := ha.step hst hp₁
    exact ⟨f r, hp₂⟩

theorem Alone.others {j : Nat} (hj : j ≠ i) (hs : M.Steps (Alone i φ) y y') :
    y'.procs j = y.procs j := by
  refine hs.invariant (P := fun y' => y'.procs j = y.procs j) rfl ?_
  intro y₁ y₂ a _ hP ha hst
  obtain ⟨k, op, f, c, -, hp, -⟩ := id ha
  obtain ⟨-, -, -, -, -, -, -, -, hothers⟩ := ha.step hst hp
  rw [hothers j hj, hP]

end Machine

end Concurrency
