import PaymentProcessing.Concurrency.Machine

/-!
# Rely and guarantee for interleaved programs

A `Discipline` says what a process may count on. `inv` holds of every shared state; `rely i` is
what the others can do to the state between two operations of process `i`; `evolves` is what
nobody undoes, process `i` included; `req i op` is what process `i` has to know when it performs
`op`. `Sound` collects what the operations themselves must satisfy, each under its `req`.

`Safe i Q p s`: whatever the others do, process `i` running `p` from `s` performs every operation
with its `req` and ends with `Q`. It is proved program by program with the rules for `Triple`
(sequencing, exceptions, one operation, framing of persistent facts), and `Sound.good` then gives
it for all processes of a configuration at once. `Legit` is what that says about one action: the
operation performed met its `req`, the process started was idle.
-/

namespace Concurrency

variable {Op : Type} {Res : Op → Type} {Err State Choice Kind Env Reply α β : Type}

/-- What processes promise each other about the shared state of a machine. -/
structure Discipline (M : Machine Res Err State Choice Kind Env Reply) where
  inv : State → Prop
  evolves : State → State → Prop
  rely : Nat → State → State → Prop
  req : Nat → Op → State → Prop
  /-- Process `i` has not left anything behind yet. -/
  idle : Nat → State → Prop

namespace Discipline

variable {M : Machine Res Err State Choice Kind Env Reply} (D : Discipline M)

/-- The operations, starts, kills and environment actions keep the discipline. -/
structure Sound : Prop where
  evolves_refl : ∀ s, D.evolves s s
  evolves_trans : ∀ s₁ s₂ s₃, D.evolves s₁ s₂ → D.evolves s₂ s₃ → D.evolves s₁ s₃
  rely_refl : ∀ i s, D.rely i s s
  rely_trans : ∀ i s₁ s₂ s₃, D.rely i s₁ s₂ → D.rely i s₂ s₃ → D.rely i s₁ s₃
  rely_evolves : ∀ i s s', D.rely i s s' → D.evolves s s'
  idle_rely : ∀ i s s', D.idle i s → D.rely i s s' → D.idle i s'
  exec_inv : ∀ i op r s s', D.inv s → D.req i op s → M.Does i op r s s' → D.inv s'
  exec_evolves : ∀ i op r s s', D.inv s → D.req i op s → M.Does i op r s s' → D.evolves s s'
  exec_rely : ∀ i j op r s s', D.inv s → D.req i op s → M.Does i op r s s' → j ≠ i →
    D.rely j s s'
  start_inv : ∀ i k s s' p, D.inv s → D.idle i s → M.start i k s = some (s', p) → D.inv s'
  start_rely : ∀ i j k s s' p, D.inv s → D.idle i s → M.start i k s = some (s', p) → j ≠ i →
    D.rely j s s'
  halt_inv : ∀ i s, D.inv s → D.inv (M.halt i s)
  halt_rely : ∀ i j s, D.inv s → j ≠ i → D.rely j s (M.halt i s)
  env_inv : ∀ e s s', D.inv s → M.env e s = some s' → D.inv s'
  env_rely : ∀ e j s s', D.inv s → M.env e s = some s' → D.rely j s s'

/-- Process `i` may run `p` from `s`: every operation it comes to perform meets its `req`, and it
ends with `Q`, whatever the others do in between. -/
def Safe (i : Nat) (Q : Except Err α → State → Prop) : Prog Res Err α → State → Prop
  | .ret a, s => ∀ s', D.rely i s s' → D.inv s' → Q (.ok a) s'
  | .raise e, s => ∀ s', D.rely i s s' → D.inv s' → Q (.error e) s'
  | .call op k, s => ∀ s', D.rely i s s' → D.inv s' →
      D.req i op s' ∧ ∀ r s'', M.Does i op r s' s'' → Safe i Q (k r) s''

/-- From every state with `P`, process `i` may run `p` and ends with `Q`. -/
def Triple (i : Nat) (P : State → Prop) (p : Prog Res Err α) (Q : Except Err α → State → Prop) :
    Prop :=
  ∀ s, D.inv s → P s → D.Safe i Q p s

/-- The others keep `P`. -/
class Stable (i : Nat) (P : State → Prop) : Prop where
  stable : ∀ s s', D.inv s → D.inv s' → D.rely i s s' → P s → P s'

/-- Nobody undoes `P`. -/
class Persistent (P : State → Prop) : Prop where
  persistent : ∀ s s', D.evolves s s' → P s → P s'

variable {D}
variable {i : Nat} {P P' F : State → Prop} {p : Prog Res Err α}
  {Q Q' : Except Err α → State → Prop}

/-! ## Stable and persistent facts -/

instance Stable.and [h₁ : D.Stable i P] [h₂ : D.Stable i P'] : D.Stable i fun s => P s ∧ P' s :=
  ⟨fun s s' hi hi' hr h =>
    ⟨h₁.stable s s' hi hi' hr h.1, h₂.stable s s' hi hi' hr h.2⟩⟩

instance Stable.or [h₁ : D.Stable i P] [h₂ : D.Stable i P'] : D.Stable i fun s => P s ∨ P' s :=
  ⟨fun s s' hi hi' hr h =>
    h.imp (h₁.stable s s' hi hi' hr) (h₂.stable s s' hi hi' hr)⟩

instance Stable.exists {ι : Type} {R : ι → State → Prop} [h : ∀ x, D.Stable i (R x)] :
    D.Stable i fun s => ∃ x, R x s :=
  ⟨fun s s' hi hi' hr ⟨x, hx⟩ => ⟨x, (h x).stable s s' hi hi' hr hx⟩⟩

instance Stable.forall {ι : Type} {R : ι → State → Prop} [h : ∀ x, D.Stable i (R x)] :
    D.Stable i fun s => ∀ x, R x s :=
  ⟨fun s s' hi hi' hr hR x => (h x).stable s s' hi hi' hr (hR x)⟩

instance Stable.imp {φ : Prop} [h : D.Stable i P] : D.Stable i fun s => φ → P s :=
  ⟨fun s s' hi hi' hr hP hφ => h.stable s s' hi hi' hr (hP hφ)⟩

instance Persistent.const (φ : Prop) : D.Persistent fun _ => φ := ⟨fun _ _ _ h => h⟩

instance Persistent.and [h₁ : D.Persistent P] [h₂ : D.Persistent P'] :
    D.Persistent fun s => P s ∧ P' s :=
  ⟨fun s s' he h => ⟨h₁.persistent s s' he h.1, h₂.persistent s s' he h.2⟩⟩

instance Persistent.or [h₁ : D.Persistent P] [h₂ : D.Persistent P'] :
    D.Persistent fun s => P s ∨ P' s :=
  ⟨fun s s' he h => h.imp (h₁.persistent s s' he) (h₂.persistent s s' he)⟩

instance Persistent.exists {ι : Type} {R : ι → State → Prop} [h : ∀ x, D.Persistent (R x)] :
    D.Persistent fun s => ∃ x, R x s :=
  ⟨fun s s' he ⟨x, hx⟩ => ⟨x, (h x).persistent s s' he hx⟩⟩

instance Persistent.forall {ι : Type} {R : ι → State → Prop} [h : ∀ x, D.Persistent (R x)] :
    D.Persistent fun s => ∀ x, R x s :=
  ⟨fun s s' he hR x => (h x).persistent s s' he (hR x)⟩

instance Persistent.imp {φ : Prop} [h : D.Persistent P] : D.Persistent fun s => φ → P s :=
  ⟨fun s s' he hP hφ => h.persistent s s' he (hP hφ)⟩

/-- What nobody undoes, the others keep. -/
theorem Sound.stable_of_persistent (hD : D.Sound) [h : D.Persistent P] : D.Stable i P :=
  ⟨fun s s' _ _ hr hP => h.persistent s s' (hD.rely_evolves i s s' hr) hP⟩

/-! ## Rules -/

/-- What is safe stays safe while the others move. -/
theorem Sound.safe_rely (hD : D.Sound) {s s' : State} (hr : D.rely i s s')
    (h : D.Safe i Q p s) : D.Safe i Q p s' := by
  cases p with
  | ret a => exact fun s'' hr' hi => h s'' (hD.rely_trans i s s' s'' hr hr') hi
  | raise e => exact fun s'' hr' hi => h s'' (hD.rely_trans i s s' s'' hr hr') hi
  | call op k => exact fun s'' hr' hi => h s'' (hD.rely_trans i s s' s'' hr hr') hi

theorem Safe.mono {s : State} (hQ : ∀ r s', D.inv s' → Q r s' → Q' r s')
    (h : D.Safe i Q p s) : D.Safe i Q' p s := by
  induction p generalizing s with
  | ret a => exact fun s' hr hi => hQ _ _ hi (h s' hr hi)
  | raise e => exact fun s' hr hi => hQ _ _ hi (h s' hr hi)
  | call op k ih =>
    intro s' hr hi
    obtain ⟨hreq, hk⟩ := h s' hr hi
    exact ⟨hreq, fun r s'' hd => ih r (hk r s'' hd)⟩

theorem Triple.conseq (h : D.Triple i P p Q) (hP : ∀ s, D.inv s → P' s → P s)
    (hQ : ∀ r s, D.inv s → Q r s → Q' r s) : D.Triple i P' p Q' :=
  fun s hi hP' => (h s hi (hP s hi hP')).mono hQ

theorem Triple.pre (h : D.Triple i P p Q) (hP : ∀ s, D.inv s → P' s → P s) :
    D.Triple i P' p Q :=
  fun s hi hP' => h s hi (hP s hi hP')

theorem Triple.post (h : D.Triple i P p Q) (hQ : ∀ r s, D.inv s → Q r s → Q' r s) :
    D.Triple i P p Q' :=
  fun s hi hP => (h s hi hP).mono hQ

theorem Triple.of_pure {φ : Prop} (h : φ → D.Triple i P p Q) :
    D.Triple i (fun s => P s ∧ φ) p Q :=
  fun s hi hP => h hP.2 s hi hP.1

theorem Triple.of_exists {ι : Type} {R : ι → State → Prop} (h : ∀ x, D.Triple i (R x) p Q) :
    D.Triple i (fun s => ∃ x, R x s) p Q :=
  fun s hi ⟨x, hx⟩ => h x s hi hx

theorem Triple.ret {a : α} [hs : D.Stable i P] (h : ∀ s, D.inv s → P s → Q (.ok a) s) :
    D.Triple i P (.ret a) Q :=
  fun s hi hP s' hr hi' => h s' hi' (hs.stable s s' hi hi' hr hP)

theorem Triple.raise {e : Err} [hs : D.Stable i P] (h : ∀ s, D.inv s → P s → Q (.error e) s) :
    D.Triple i P (.raise e) Q :=
  fun s hi hP s' hr hi' => h s' hi' (hs.stable s s' hi hi' hr hP)

theorem Sound.safe_bind (hD : D.Sound) {f : α → Prog Res Err β}
    {R : Except Err β → State → Prop} {s : State} (hi : D.inv s) (h : D.Safe i Q p s)
    (hok : ∀ a s', D.inv s' → Q (.ok a) s' → D.Safe i R (f a) s')
    (herr : ∀ e s', D.inv s' → Q (.error e) s' → R (.error e) s') :
    D.Safe i R (p.bind f) s := by
  induction p generalizing s with
  | ret a => exact hok a s hi (h s (hD.rely_refl i s) hi)
  | raise e => exact fun s' hr hi' => herr e s' hi' (h s' hr hi')
  | call op k ih =>
    intro s' hr hi'
    obtain ⟨hreq, hk⟩ := h s' hr hi'
    exact ⟨hreq, fun r s'' hd => ih r (hD.exec_inv i op r s' s'' hi' hreq hd) (hk r s'' hd)⟩

/-- **Sequencing.** -/
theorem Sound.bind (hD : D.Sound) {f : α → Prog Res Err β} {R : Except Err β → State → Prop}
    (h : D.Triple i P p Q) (hok : ∀ a, D.Triple i (Q (.ok a)) (f a) R)
    (herr : ∀ e s, D.inv s → Q (.error e) s → R (.error e) s) :
    D.Triple i P (p.bind f) R :=
  fun s hi hP => hD.safe_bind hi (h s hi hP) (fun a s' hi' hQ => hok a s' hi' hQ) herr

theorem Sound.safe_tryCatch (hD : D.Sound) {f : Err → Prog Res Err α}
    {R : Except Err α → State → Prop} {s : State} (hi : D.inv s) (h : D.Safe i Q p s)
    (hok : ∀ a s', D.inv s' → Q (.ok a) s' → R (.ok a) s')
    (herr : ∀ e s', D.inv s' → Q (.error e) s' → D.Safe i R (f e) s') :
    D.Safe i R (p.tryCatch f) s := by
  induction p generalizing s with
  | ret a => exact fun s' hr hi' => hok a s' hi' (h s' hr hi')
  | raise e => exact herr e s hi (h s (hD.rely_refl i s) hi)
  | call op k ih =>
    intro s' hr hi'
    obtain ⟨hreq, hk⟩ := h s' hr hi'
    exact ⟨hreq, fun r s'' hd => ih r (hD.exec_inv i op r s' s'' hi' hreq hd) (hk r s'' hd)⟩

/-- **Exceptions.** -/
theorem Sound.tryCatch (hD : D.Sound) {f : Err → Prog Res Err α}
    {R : Except Err α → State → Prop} (h : D.Triple i P p Q)
    (hok : ∀ a s, D.inv s → Q (.ok a) s → R (.ok a) s)
    (herr : ∀ e, D.Triple i (Q (.error e)) (f e) R) :
    D.Triple i P (p.tryCatch f) R :=
  fun s hi hP => hD.safe_tryCatch hi (h s hi hP) hok fun e s' hi' hQ => herr e s' hi' hQ

/-- **One operation.** -/
theorem Triple.perform {op : Op} {Q : Except Err (Res op) → State → Prop} [hP : D.Stable i P]
    [hQ : ∀ r, D.Stable i (Q r)] (hD : D.Sound) (hreq : ∀ s, D.inv s → P s → D.req i op s)
    (hdo : ∀ r s s', D.inv s → P s → M.Does i op r s s' → D.inv s' → Q r s') :
    D.Triple i P (Prog.perform op) Q := by
  intro s hi hPs s' hr hi'
  have hPs' : P s' := hP.stable s s' hi hi' hr hPs
  refine ⟨hreq s' hi' hPs', fun r s'' hd => ?_⟩
  have hi'' : D.inv s'' := hD.exec_inv i op r s' s'' hi' (hreq s' hi' hPs') hd
  have hQs : Q r s'' := hdo r s' s'' hi' hPs' hd hi''
  cases r with
  | ok a => exact fun t hrt hit => (hQ _).stable s'' t hi'' hit hrt hQs
  | error e => exact fun t hrt hit => (hQ _).stable s'' t hi'' hit hrt hQs

theorem Sound.safe_frame (hD : D.Sound) [hF : D.Persistent F] {s : State} (hi : D.inv s)
    (hFs : F s) (h : D.Safe i Q p s) : D.Safe i (fun r s' => Q r s' ∧ F s') p s := by
  induction p generalizing s with
  | ret a =>
    exact fun s' hr hi' =>
      ⟨h s' hr hi', hF.persistent s s' (hD.rely_evolves i s s' hr) hFs⟩
  | raise e =>
    exact fun s' hr hi' =>
      ⟨h s' hr hi', hF.persistent s s' (hD.rely_evolves i s s' hr) hFs⟩
  | call op k ih =>
    intro s' hr hi'
    obtain ⟨hreq, hk⟩ := h s' hr hi'
    refine ⟨hreq, fun r s'' hd => ?_⟩
    have hFs' : F s' := hF.persistent s s' (hD.rely_evolves i s s' hr) hFs
    exact ih r (hD.exec_inv i op r s' s'' hi' hreq hd)
      (hF.persistent s' s'' (hD.exec_evolves i op r s' s'' hi' hreq hd) hFs') (hk r s'' hd)

/-- **Framing.** A persistent fact holds after a program if it held before. -/
theorem Sound.frame (hD : D.Sound) [hF : D.Persistent F] (h : D.Triple i P p Q) :
    D.Triple i (fun s => P s ∧ F s) p fun r s => Q r s ∧ F s :=
  fun s hi hP => hD.safe_frame hi hP.2 (h s hi hP.1)

theorem Sound.safe_frame_only (hD : D.Sound) [hF : D.Stable i F] {φ : Op → Prop}
    (hdo : ∀ op r s s', φ op → D.inv s → D.req i op s → M.Does i op r s s' → F s → F s')
    (hp : p.Only φ) {s : State} (hi : D.inv s) (hFs : F s) (h : D.Safe i Q p s) :
    D.Safe i (fun r s' => Q r s' ∧ F s') p s := by
  induction p generalizing s with
  | ret a => exact fun s' hr hi' => ⟨h s' hr hi', hF.stable s s' hi hi' hr hFs⟩
  | raise e => exact fun s' hr hi' => ⟨h s' hr hi', hF.stable s s' hi hi' hr hFs⟩
  | call op k ih =>
    intro s' hr hi'
    obtain ⟨hreq, hk⟩ := h s' hr hi'
    refine ⟨hreq, fun r s'' hd => ?_⟩
    have hFs' : F s' := hF.stable s s' hi hi' hr hFs
    exact ih r (hp.2 r) (hD.exec_inv i op r s' s'' hi' hreq hd)
      (hdo op r s' s'' hp.1 hi' hreq hd hFs') (hk r s'' hd)

/-- **Framing by operations.** A fact that the operations of a program keep holds after it. -/
theorem Sound.frame_only (hD : D.Sound) [hF : D.Stable i F] {φ : Op → Prop}
    (hdo : ∀ op r s s', φ op → D.inv s → D.req i op s → M.Does i op r s s' → F s → F s')
    (hp : p.Only φ) (h : D.Triple i P p Q) :
    D.Triple i (fun s => P s ∧ F s) p fun r s => Q r s ∧ F s :=
  fun s hi hP => hD.safe_frame_only hdo hp hi hP.2 (h s hi hP.1)

/-! ## What a program has performed -/

section Histories

variable {history : State → List (Performed Res Err)} {H : List (Performed Res Err) → Prop}

/-- Since a history with `H`, the program has performed a run that ends with `r`. -/
def Since (history : State → List (Performed Res Err)) (H : List (Performed Res Err) → Prop)
    (p : Prog Res Err α) (r : Except Err α) (s : State) : Prop :=
  ∃ run before, p.Ran r run ∧ H before ∧ history s = run.reverse ++ before

theorem Sound.safe_ran (hD : D.Sound)
    (hexec : ∀ op r s s', M.Does i op r s s' → history s' = ⟨op, r⟩ :: history s)
    (hrely : ∀ s s', D.rely i s s' → history s' = history s) {s : State} (hi : D.inv s)
    {before : List (Performed Res Err)} (hH : H before) (done : List (Performed Res Err))
    {p₀ : Prog Res Err α} (hrun : ∀ r l, p.Ran r l → p₀.Ran r (done ++ l))
    (hs : history s = done.reverse ++ before) (h : D.Safe i Q p s) :
    D.Safe i (fun r s' => Q r s' ∧ Since history H p₀ r s') p s := by
  -- `done` is what `p₀` has performed so far, and `p` is the rest of it
  induction p generalizing s done with
  | ret a =>
    intro s' hr hi'
    refine ⟨h s' hr hi', done, before, ?_, hH, (hrely s s' hr).trans hs⟩
    have hdone := hrun (.ok a) [] ⟨rfl, rfl⟩
    rwa [List.append_nil] at hdone
  | raise e =>
    intro s' hr hi'
    refine ⟨h s' hr hi', done, before, ?_, hH, (hrely s s' hr).trans hs⟩
    have hdone := hrun (.error e) [] ⟨rfl, rfl⟩
    rwa [List.append_nil] at hdone
  | call op k ih =>
    intro s' hr hi'
    obtain ⟨hreq, hk⟩ := h s' hr hi'
    refine ⟨hreq, fun x s'' hd => ?_⟩
    refine ih x (hD.exec_inv i op x s' s'' hi' hreq hd) (done ++ [⟨op, x⟩]) ?_ ?_ (hk x s'' hd)
    · intro r l hl
      rw [List.append_assoc]
      exact hrun r (⟨op, x⟩ :: l) ⟨x, l, rfl, hl⟩
    · rw [hexec op x s' s'' hd, hrely s s' hr, hs, List.reverse_append]
      rfl

/-- **What a program has performed** when it ends is one of its runs, after the history before. -/
theorem Sound.ran (hD : D.Sound)
    (hexec : ∀ op r s s', M.Does i op r s s' → history s' = ⟨op, r⟩ :: history s)
    (hrely : ∀ s s', D.rely i s s' → history s' = history s) (h : D.Triple i P p Q) :
    D.Triple i (fun s => P s ∧ H (history s)) p fun r s => Q r s ∧ Since history H p r s :=
  fun s hi hP => hD.safe_ran hexec hrely hi hP.2 [] (fun _ _ hl => hl) rfl (h s hi hP.1)

end Histories

/-! ## All processes of a configuration -/

section Processes

variable (D)

/-- The invariant holds, what has not started has left nothing behind, and what runs is safe. -/
structure Good (Q : Nat → Kind → Except Err Reply → State → Prop)
    (y : Sys Res Err State Kind Reply) : Prop where
  inv : D.inv y.state
  idle : ∀ i, y.procs i = .idle → D.idle i y.state
  safe : ∀ i k p, y.procs i = .running k p → D.Safe i (Q i k) p y.state

/-- One action with what the discipline says about it. -/
inductive Legit (a : Action Choice Kind Env) (y y' : Sys Res Err State Kind Reply) : Prop where
  | spawn (i : Nat) (k : Kind) (s : State) (p : Prog Res Err Reply) (ha : a = .spawn i k)
      (hi : y.procs i = .idle) (hidle : D.idle i y.state)
      (hs : M.start i k y.state = some (s, p))
      (hy : y' = ⟨s, Function.update y.procs i (.running k p)⟩)
  | run (i : Nat) (c : Choice) (k : Kind) (op : Op)
      (p : Except Err (Res op) → Prog Res Err Reply) (r : Except Err (Res op)) (s : State)
      (ha : a = .run i c) (hi : y.procs i = .running k (.call op p)) (hreq : D.req i op y.state)
      (hs : M.exec i op c y.state = some (r, s))
      (hy : y' = ⟨s, Function.update y.procs i (.running k (p r))⟩)
  | kill (i : Nat) (k : Kind) (p : Prog Res Err Reply) (ha : a = .kill i)
      (hi : y.procs i = .running k p)
      (hy : y' = ⟨M.halt i y.state, Function.update y.procs i (.killed k)⟩)
  | env (e : Env) (s : State) (ha : a = .env e) (hs : M.env e y.state = some s)
      (hy : y' = ⟨s, y.procs⟩)

variable {D}
variable {A : Sys Res Err State Kind Reply → Action Choice Kind Env → Prop}
  {Q : Nat → Kind → Except Err Reply → State → Prop}
  {y y' y₀ y₁ : Sys Res Err State Kind Reply} {a : Action Choice Kind Env}

/-- The programs that `A` lets start are safe when they start. -/
def CodeSafe (D : Discipline M)
    (A : Sys Res Err State Kind Reply → Action Choice Kind Env → Prop)
    (Q : Nat → Kind → Except Err Reply → State → Prop) : Prop :=
  ∀ i k y s p, A y (.spawn i k) → D.inv y.state → D.idle i y.state →
    M.start i k y.state = some (s, p) → D.Safe i (Q i k) p s

theorem Good.legit (h : D.Good Q y) (hD : D.Sound) (hs : M.step a y = some y') :
    D.Legit a y y' := by
  cases M.step_cases hs with
  | spawn i k s p ha hi hst hy => exact .spawn i k s p ha hi (h.idle i hi) hst hy
  | run i c k op p r s ha hi hst hy =>
    have hsafe := h.safe i k _ hi y.state (hD.rely_refl i _) h.inv
    exact .run i c k op p r s ha hi hsafe.1 hst hy
  | kill i k p ha hi hy => exact .kill i k p ha hi hy
  | env e s ha hst hy => exact .env e s ha hst hy

theorem Legit.inv (h : D.Legit a y y') (hD : D.Sound) (hi : D.inv y.state) : D.inv y'.state := by
  cases h with
  | spawn i k s p _ _ hidle hs hy => subst hy; exact hD.start_inv i k _ _ _ hi hidle hs
  | run i c k op p r s _ _ hreq hs hy => subst hy; exact hD.exec_inv i op r _ _ hi hreq ⟨c, hs⟩
  | kill i k p _ _ hy => subst hy; exact hD.halt_inv i _ hi
  | env e s _ hs hy => subst hy; exact hD.env_inv e _ _ hi hs

/-- Process `j` sees a legitimate action of the others as `rely j`, and is then as it was. -/
theorem Legit.rely (h : D.Legit a y y') (hD : D.Sound) (hi : D.inv y.state) {j : Nat}
    (hj : ∀ k, a ≠ .spawn j k) (hj' : ∀ c, a ≠ .run j c) (hj'' : a ≠ .kill j) :
    D.rely j y.state y'.state ∧ y'.procs j = y.procs j := by
  cases h with
  | spawn i k s p ha _ hidle hs hy =>
    subst hy
    have hne : j ≠ i := fun e => hj k (e ▸ ha)
    exact ⟨hD.start_rely i j k _ _ _ hi hidle hs hne, Function.update_of_ne hne _ _⟩
  | run i c k op p r s ha _ hreq hs hy =>
    subst hy
    have hne : j ≠ i := fun e => hj' c (e ▸ ha)
    exact ⟨hD.exec_rely i j op r _ _ hi hreq ⟨c, hs⟩ hne, Function.update_of_ne hne _ _⟩
  | kill i k p ha _ hy =>
    subst hy
    have hne : j ≠ i := fun e => hj'' (e ▸ ha)
    exact ⟨hD.halt_rely i j _ hi hne, Function.update_of_ne hne _ _⟩
  | env e s _ hs hy => subst hy; exact ⟨hD.env_rely e j _ _ hi hs, rfl⟩

theorem Legit.evolves (h : D.Legit a y y') (hD : D.Sound) (hi : D.inv y.state) :
    D.evolves y.state y'.state := by
  cases h with
  | spawn i k s p _ _ hidle hs hy =>
    subst hy
    exact hD.rely_evolves (i + 1) _ _ (hD.start_rely i (i + 1) k _ _ _ hi hidle hs (by omega))
  | run i c k op p r s _ _ hreq hs hy =>
    subst hy
    exact hD.exec_evolves i op r _ _ hi hreq ⟨c, hs⟩
  | kill i k p _ _ hy =>
    subst hy
    exact hD.rely_evolves (i + 1) _ _ (hD.halt_rely i (i + 1) _ hi (by omega))
  | env e s _ hs hy => subst hy; exact hD.rely_evolves 0 _ _ (hD.env_rely e 0 _ _ hi hs)

/-- **One action keeps a configuration good.** -/
theorem Good.step (h : D.Good Q y) (hD : D.Sound) (hcode : D.CodeSafe A Q) (ha : A y a)
    (hs : M.step a y = some y') : D.Good Q y' := by
  have hlegit := h.legit hD hs
  have hinv := hlegit.inv hD h.inv
  -- whoever the action is not about is carried over by `rely`
  have hother : ∀ j, (∀ k, a ≠ .spawn j k) → (∀ c, a ≠ .run j c) → a ≠ .kill j →
      (y'.procs j = .idle → D.idle j y'.state) ∧
      ∀ k p, y'.procs j = .running k p → D.Safe j (Q j k) p y'.state := by
    intro j h₁ h₂ h₃
    obtain ⟨hr, hp⟩ := hlegit.rely hD h.inv h₁ h₂ h₃
    rw [hp]
    exact ⟨fun hj => hD.idle_rely j _ _ (h.idle j hj) hr,
      fun k p hj => hD.safe_rely hr (h.safe j k p hj)⟩
  have key : ∀ j, (y'.procs j = .idle → D.idle j y'.state) ∧
      ∀ k p, y'.procs j = .running k p → D.Safe j (Q j k) p y'.state := by
    intro j
    cases hlegit with
    | spawn i k s p e hi hidle hst hy =>
      by_cases hj : j = i
      · subst hj hy e
        simp only [Function.update_self]
        refine ⟨fun hc => ?_, fun k' p' hc => ?_⟩
        · cases hc
        cases hc
        exact hcode j k y s p ha h.inv hidle hst
      · exact hother j (by rw [e]; intro _ hc; cases hc; exact hj rfl) (by simp [e]) (by simp [e])
    | run i c k op p r s e hi hreq hst hy =>
      by_cases hj : j = i
      · subst hj hy
        simp only [Function.update_self]
        refine ⟨fun hc => ?_, fun k' p' hc => ?_⟩
        · cases hc
        cases hc
        exact (h.safe j k _ hi y.state (hD.rely_refl j _) h.inv).2 r s ⟨c, hst⟩
      · exact hother j (by simp [e]) (by rw [e]; intro _ hc; cases hc; exact hj rfl) (by simp [e])
    | kill i k p e hi hy =>
      by_cases hj : j = i
      · subst hj hy
        simp only [Function.update_self]
        refine ⟨fun hc => ?_, fun k' p' hc => ?_⟩
        · cases hc
        · cases hc
      · exact hother j (by simp [e]) (by simp [e]) (by rw [e]; intro hc; cases hc; exact hj rfl)
    | env ev s e hst hy => exact hother j (by simp [e]) (by simp [e]) (by simp [e])
  exact ⟨hinv, fun j => (key j).1, fun j => (key j).2⟩

/-- **Soundness.** Every configuration of a run is good. -/
theorem Good.steps (h₀ : D.Good Q y₀) (hD : D.Sound) (hcode : D.CodeSafe A Q)
    (h : M.Steps A y₀ y) : D.Good Q y :=
  h.invariant h₀ fun _ _ _ _ hg ha hs => hg.step hD hcode ha hs

/-- An invariant of the configurations that uses the discipline: every action it has to survive is
legitimate, between good configurations. -/
theorem Good.invariant {P : Sys Res Err State Kind Reply → Prop} (h₀ : D.Good Q y₀)
    (hD : D.Sound) (hcode : D.CodeSafe A Q) (hP : P y₀)
    (hstep : ∀ y y' a, D.Good Q y → D.Good Q y' → P y → A y a → D.Legit a y y' → P y')
    (h : M.Steps A y₀ y) : P y := by
  have hboth : D.Good Q y ∧ P y := by
    refine h.invariant (P := fun y => D.Good Q y ∧ P y) ⟨h₀, hP⟩ ?_
    intro y y' a _ hy ha hs
    have hg' := hy.1.step hD hcode ha hs
    exact ⟨hg', hstep y y' a hy.1 hg' hy.2 ha (hy.1.legit hD hs)⟩
  exact hboth.2

/-- A process that is safe for `R` now is safe for `R` in every later configuration in which it
still runs. -/
theorem Good.safe_later {i : Nat} {k : Kind} {p : Prog Res Err Reply}
    {R : Except Err Reply → State → Prop} (h₀ : D.Good Q y₀) (hD : D.Sound)
    (hcode : D.CodeSafe A Q) (hi : y₀.procs i = .running k p) (hR : D.Safe i R p y₀.state)
    (h : M.Steps A y₀ y) :
    y.procs i = .killed k ∨ ∃ p', y.procs i = .running k p' ∧ D.Safe i R p' y.state := by
  refine h₀.invariant hD hcode
    (P := fun y => y.procs i = .killed k ∨ ∃ p', y.procs i = .running k p' ∧ D.Safe i R p' y.state)
    (.inr ⟨p, hi, hR⟩) ?_ h
  intro y y' a hg _ hy _ hl
  by_cases hrun : ∃ c, a = .run i c
  · obtain ⟨c, rfl⟩ := hrun
    cases hl with
    | run j c' k' op p' r s e hj hreq hst hy' =>
      cases e
      rcases hy with hy | ⟨q, hq, hsafe⟩
      · rw [hy] at hj; cases hj
      · rw [hq] at hj
        cases hj
        subst hy'
        have hnext := (hsafe y.state (hD.rely_refl i _) hg.inv).2 r s ⟨c, hst⟩
        exact .inr ⟨p' r, Function.update_self .., hnext⟩
    | spawn _ _ _ _ e | kill _ _ _ e | env _ _ e => cases e
  · by_cases hkill : a = .kill i
    · subst hkill
      cases hl with
      | kill j k' p' e hj hy' =>
        cases e
        subst hy'
        rcases hy with hy | ⟨q, hq, -⟩
        · rw [hy] at hj; cases hj
        · rw [hq] at hj
          cases hj
          exact .inl (Function.update_self ..)
      | spawn _ _ _ _ e | run _ _ _ _ _ _ _ e | env _ _ e => cases e
    · by_cases hsp : ∃ k', a = .spawn i k'
      · obtain ⟨k', rfl⟩ := hsp
        cases hl with
        | spawn j k'' s p e hj =>
          cases e
          rcases hy with hy | ⟨q, hq, -⟩
          · rw [hy] at hj; cases hj
          · rw [hq] at hj; cases hj
        | run _ _ _ _ _ _ _ e | kill _ _ _ e | env _ _ e => cases e
      · obtain ⟨hr, hp⟩ := hl.rely hD hg.inv (j := i) (fun k' e => hsp ⟨k', e⟩)
          (fun c e => hrun ⟨c, e⟩) hkill
        rw [hp]
        exact hy.imp id fun ⟨q, hq, hsafe⟩ => ⟨q, hq, hD.safe_rely hr hsafe⟩

end Processes

end Discipline

end Concurrency
