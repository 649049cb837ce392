import PaymentProcessing.Protocol.Operations

/-!
# Rules for transactions

`Runs` is about a program that is entered and left without an open transaction, which is every
function of the program but the bodies of units of work. It has a rule for each way programs are
put together, and one for a unit of work: what its body leaves behind survives its end if nobody
undoes it.
-/

namespace PaymentProcessing

open Python Relational Concurrency World

variable {py : Platform} {i : Nat} {α β : Type} {P P' F : World → Prop}
  {A A' : α → World → Prop} {B : β → World → Prop} {E E' : Exc → World → Prop}

/-- What holds at the end of a program: `A` of what it returns, `E` of what it raises. -/
def Ends (A : α → World → Prop) (E : Exc → World → Prop) : Except Exc α → World → Prop
  | .ok a => A a
  | .error e => E e

instance [hA : ∀ a, (discipline py).Persistent (A a)] [hE : ∀ e, (discipline py).Persistent (E e)]
    (r : Except Exc α) : (discipline py).Persistent (Ends A E r) := by
  cases r with
  | ok a => exact hA a
  | error e => exact hE e

instance [hA : ∀ a, (discipline py).Stable i (A a)] [hE : ∀ e, (discipline py).Stable i (E e)]
    (r : Except Exc α) : (discipline py).Stable i (Ends A E r) := by
  cases r with
  | ok a => exact hA a
  | error e => exact hE e

/-! ## Inside a transaction -/

namespace Spec

theorem weaken {p : App α} (h : Spec py i P p (Ends A E)) (hP : ∀ s, Inv s → P' s → P s)
    (hA : ∀ a s, Inv s → A a s → A' a s) (hE : ∀ e s, Inv s → E e s → E' e s) :
    Spec py i P' p (Ends A' E') :=
  Discipline.Triple.conseq h hP fun r s hi hr => by
    cases r with
    | ok a => exact hA a s hi hr
    | error e => exact hE e s hi hr

theorem ret {a : α} [hP : (discipline py).Stable i P] (h : ∀ s, Inv s → P s → A a s) :
    Spec py i P (pure a) (Ends A E) :=
  Discipline.Triple.ret h

theorem raise {e : Exc} [hP : (discipline py).Stable i P] (h : ∀ s, Inv s → P s → E e s) :
    Spec py i P (throw e : App α) (Ends A E) :=
  Discipline.Triple.raise h

theorem bind {p : App α} {f : α → App β} (h : Spec py i P p (Ends A E))
    (h' : ∀ a, Spec py i (A a) (f a) (Ends B E)) : Spec py i P (p >>= f) (Ends B E) :=
  (sound py).bind h (fun a => h' a) fun _ _ _ he => he

theorem tryCatch {p : App α} {g : Exc → App α} (h : Spec py i P p (Ends A E))
    (h' : ∀ e, Spec py i (E e) (g e) (Ends A E')) :
    Spec py i P (MonadExcept.tryCatch p g) (Ends A E') :=
  (sound py).tryCatch h (fun _ _ _ ha => ha) fun e => h' e

theorem orRaise {r : Except Exc α} [hP : (discipline py).Stable i P]
    (hok : ∀ a s, r = .ok a → Inv s → P s → A a s)
    (herr : ∀ e s, r = .error e → Inv s → P s → E e s) :
    Spec py i P (orRaise r) (Ends A E) := by
  cases r with
  | ok a => exact ret fun s hi hp => hok a s rfl hi hp
  | error e => exact raise fun s hi hp => herr e s rfl hi hp

theorem frame {p : App α} [hF : (discipline py).Persistent F] (h : Spec py i P p (Ends A E)) :
    Spec py i (fun s => P s ∧ F s) p (Ends (fun a s => A a s ∧ F s) fun e s => E e s ∧ F s) :=
  Discipline.Triple.conseq ((sound py).frame (F := F) h) (fun _ _ hp => hp) fun r s _ hr => by
    cases r with
    | ok a => exact hr
    | error e => exact hr

theorem of_pure {p : App α} {φ : Prop} (h : φ → Spec py i P p (Ends A E)) :
    Spec py i (fun s => P s ∧ φ) p (Ends A E) :=
  Discipline.Triple.of_pure h

theorem of_exists {ι : Type} {R : ι → World → Prop} {p : App α}
    (h : ∀ x, Spec py i (R x) p (Ends A E)) : Spec py i (fun s => ∃ x, R x s) p (Ends A E) :=
  Discipline.Triple.of_exists h

/-- One operation. -/
theorem call {op : Op} {A : Res op → World → Prop} [hP : (discipline py).Stable i P]
    [hA : ∀ a, (discipline py).Stable i (A a)] [hE : ∀ e, (discipline py).Stable i (E e)]
    (hreq : ∀ s, Inv s → P s → Req py i op s)
    (hok : ∀ a c s s', Inv s → P s → World.exec i op c s = some (.ok a, s') → Inv s' → A a s')
    (herr : ∀ e c s s', Inv s → P s → World.exec i op c s = some (.error e, s') → Inv s' →
      E e s') :
    Spec py i P (call op) (Ends A E) := by
  refine Discipline.Triple.perform (Q := Ends A E) (sound py) hreq ?_
  rintro r s s' hi hp ⟨c, hd⟩ hi'
  cases r with
  | ok a => exact hok a c s s' hi hp hd hi'
  | error e => exact herr e c s s' hi hp hd hi'

theorem read {op : Op} {C : Res op → World → Prop} [hP : Steady py i P]
    [∀ a, (discipline py).Persistent (C a)] (hop : op.isRead = true)
    (hfault : ∀ f s, E (Fault.toExc f) s) (hreq : ∀ s, Inv s → P s → Req py i op s)
    (hans : ∀ a c s s₁, Inv s → P s → s.effect i c op = some (.ok a, s₁) → C a s) :
    Spec py i P (PaymentProcessing.call op)
      (Ends (fun a s => P s ∧ s.Did i op (.ok a) ∧ C a s) E) :=
  Discipline.Triple.conseq (call_read (A := C) hop hreq hans) (fun _ _ hp => hp) fun r s _ hr => by
    cases r with
    | ok a => exact ⟨hr.1, hr.2.1, hr.2.2.1 a rfl⟩
    | error e =>
      obtain ⟨f, rfl⟩ := hr.2.2.2 e rfl
      exact hfault f s

theorem skip {op : Op} [hP : Steady py i P] (hop : op.isRead = true)
    (hfault : ∀ f s, E (Fault.toExc f) s) (hreq : ∀ s, Inv s → P s → Req py i op s) :
    Spec py i P (PaymentProcessing.call op) (Ends (fun _ => P) E) :=
  weaken (read (C := fun _ _ => True) hop hfault hreq fun _ _ _ _ _ _ _ => trivial)
    (fun _ _ h => h) (fun _ _ _ h => h.1) fun _ _ _ h => h

end Spec

/-! ## Between transactions -/

/-- The program runs between transactions. -/
def Runs (py : Platform) (i : Nat) (P : World → Prop) (p : App α) (A : α → World → Prop)
    (E : Exc → World → Prop) : Prop :=
  Spec py i (fun s => P s ∧ s.staged i = []) p fun r s => Ends A E r s ∧ s.staged i = []

/-- Nothing is said about the exceptions. -/
abbrev anyExc : Exc → World → Prop := fun _ _ => True

theorem anyExc_fault (f : Fault) (s : World) : anyExc f.toExc s := trivial

namespace Runs

theorem weaken {p : App α} (h : Runs py i P p A E) (hP : ∀ s, Inv s → P' s → P s)
    (hA : ∀ a s, Inv s → A a s → A' a s) (hE : ∀ e s, Inv s → E e s → E' e s) :
    Runs py i P' p A' E' :=
  Discipline.Triple.conseq h (fun s hi hp => ⟨hP s hi hp.1, hp.2⟩) fun r s hi hr => by
    cases r with
    | ok a => exact ⟨hA a s hi hr.1, hr.2⟩
    | error e => exact ⟨hE e s hi hr.1, hr.2⟩

theorem pre {p : App α} (h : Runs py i P p A E) (hP : ∀ s, Inv s → P' s → P s) :
    Runs py i P' p A E :=
  h.weaken hP (fun _ _ _ h => h) fun _ _ _ h => h

theorem post {p : App α} (h : Runs py i P p A E) (hA : ∀ a s, Inv s → A a s → A' a s)
    (hE : ∀ e s, Inv s → E e s → E' e s) : Runs py i P p A' E' :=
  h.weaken (fun _ _ h => h) hA hE

theorem post_ok {p : App α} (h : Runs py i P p A E) (hA : ∀ a s, Inv s → A a s → A' a s) :
    Runs py i P p A' E :=
  h.post hA fun _ _ _ h => h

theorem ret {a : α} [hP : (discipline py).Stable i P] (h : ∀ s, Inv s → P s → A a s) :
    Runs py i P (pure a) A E :=
  Discipline.Triple.ret (P := fun s => P s ∧ s.staged i = []) fun s hi hp => ⟨h s hi hp.1, hp.2⟩

theorem raise {e : Exc} [hP : (discipline py).Stable i P] (h : ∀ s, Inv s → P s → E e s) :
    Runs py i P (throw e) A E :=
  Discipline.Triple.raise (P := fun s => P s ∧ s.staged i = []) fun s hi hp => ⟨h s hi hp.1, hp.2⟩

theorem bind {p : App α} {f : α → App β} (h : Runs py i P p A E)
    (h' : ∀ a, Runs py i (A a) (f a) B E) : Runs py i P (p >>= f) B E :=
  (sound py).bind h (fun a => h' a) fun _ _ _ he => he

theorem tryCatch {p : App α} {g : Exc → App α} (h : Runs py i P p A E)
    (h' : ∀ e, Runs py i (E e) (g e) A E') :
    Runs py i P (MonadExcept.tryCatch p g) A E' :=
  (sound py).tryCatch h (fun _ _ _ ha => ha) fun e => h' e

theorem orRaise {r : Except Exc α} [hP : (discipline py).Stable i P]
    (hok : ∀ a s, r = .ok a → Inv s → P s → A a s)
    (herr : ∀ e s, r = .error e → Inv s → P s → E e s) : Runs py i P (orRaise r) A E := by
  cases r with
  | ok a => exact ret fun s hi hp => hok a s rfl hi hp
  | error e => exact raise fun s hi hp => herr e s rfl hi hp

theorem frame {p : App α} [hF : (discipline py).Persistent F] (h : Runs py i P p A E) :
    Runs py i (fun s => P s ∧ F s) p (fun a s => A a s ∧ F s) fun e s => E e s ∧ F s :=
  Discipline.Triple.conseq ((sound py).frame (F := F) h) (fun s _ hp => ⟨⟨hp.1.1, hp.2⟩, hp.1.2⟩)
    fun r s _ hr => by
      cases r with
      | ok a => exact ⟨⟨hr.1.1, hr.2⟩, hr.1.2⟩
      | error e => exact ⟨⟨hr.1.1, hr.2⟩, hr.1.2⟩

theorem frameOnly {p : App α} [hF : (discipline py).Stable i F] {φ : Op → Prop}
    (hdo : ∀ op r c s s', φ op → Inv s → Req py i op s → World.exec i op c s = some (r, s') →
      F s → F s') (hp : p.Only φ) (h : Runs py i P p A E) :
    Runs py i (fun s => P s ∧ F s) p (fun a s => A a s ∧ F s) fun e s => E e s ∧ F s :=
  Discipline.Triple.conseq ((sound py).frame_only (F := F)
    (fun op r s s' hφ hi hreq ⟨c, hd⟩ hf => hdo op r c s s' hφ hi hreq hd hf) hp h)
    (fun s _ hp => ⟨⟨hp.1.1, hp.2⟩, hp.1.2⟩)
    fun r s _ hr => by
      cases r with
      | ok a => exact ⟨⟨hr.1.1, hr.2⟩, hr.1.2⟩
      | error e => exact ⟨⟨hr.1.1, hr.2⟩, hr.1.2⟩

/-- What the program has performed is a run of it, after the history before. -/
theorem since {p : App α} {H : History → Prop} (h : Runs py i P p A E) :
    Runs py i (fun s => P s ∧ H (s.history i)) p
      (fun a s => A a s ∧ Discipline.Since (history i) H p (.ok a) s)
      fun e s => E e s ∧ Discipline.Since (history i) H p (.error e) s := by
  have hran := (sound py).ran (H := H) (fun _ _ _ _ ⟨_, hd⟩ => exec_history hd)
    (fun _ _ hr => history_of_own_eq hr.own) h
  refine Discipline.Triple.conseq hran (fun s _ hp => ⟨⟨hp.1.1, hp.2⟩, hp.1.2⟩) fun r s _ hr => ?_
  cases r with
  | ok a => exact ⟨⟨hr.1.1, hr.2⟩, hr.1.2⟩
  | error e => exact ⟨⟨hr.1.1, hr.2⟩, hr.1.2⟩

/-- What a `finally` needs holds however the body ends. -/
theorem tryFinally {p : App α} {q : App Unit} [hF : (discipline py).Persistent F]
    (h : Runs py i (fun s => P s ∧ F s) p A E) (hq : Runs py i F q (fun _ _ => True) anyExc) :
    Runs py i (fun s => P s ∧ F s) (Prog.tryFinally p q) (fun _ _ => True) anyExc := by
  refine Runs.bind (A := fun _ s => F s) (Runs.tryCatch (E := fun _ s => F s) ?_ fun e => ?_)
    fun a => ?_
  · exact Runs.weaken (Runs.frame (F := F) h) (fun _ _ h => ⟨h, h.2⟩) (fun _ _ _ h => h.2)
      fun _ _ _ h => h.2
  · exact Runs.bind hq fun _ => Runs.raise fun _ _ _ => trivial
  · exact Runs.bind hq fun _ => Runs.ret fun _ _ _ => trivial

theorem of_pure {p : App α} {φ : Prop} (h : φ → Runs py i P p A E) :
    Runs py i (fun s => P s ∧ φ) p A E :=
  fun s hi hp => h hp.1.2 s hi ⟨hp.1.1, hp.2⟩

theorem of_exists {ι : Type} {R : ι → World → Prop} {p : App α}
    (h : ∀ x, Runs py i (R x) p A E) : Runs py i (fun s => ∃ x, R x s) p A E :=
  fun s hi ⟨⟨x, hx⟩, hs⟩ => h x s hi ⟨hx, hs⟩

theorem read {op : Op} {C : Res op → World → Prop} [hP : Steady py i P]
    [∀ a, (discipline py).Persistent (C a)] (hop : op.isRead = true)
    (hfault : ∀ f s, E (Fault.toExc f) s) (hreq : ∀ s, Inv s → P s → Req py i op s)
    (hans : ∀ a c s s₁, Inv s → P s → s.staged i = [] → s.effect i c op = some (.ok a, s₁) →
      C a s) :
    Runs py i P (call op) (fun a s => P s ∧ s.Did i op (.ok a) ∧ C a s) E :=
  Discipline.Triple.conseq
    (call_read (P := fun s => P s ∧ s.staged i = []) (A := C) hop (fun s hi hp => hreq s hi hp.1)
      fun a c s s₁ hi hp he => hans a c s s₁ hi hp.1 hp.2 he)
    (fun _ _ hp => hp) fun r s _ hr => by
      cases r with
      | ok a => exact ⟨⟨hr.1.1, hr.2.1, hr.2.2.1 a rfl⟩, hr.1.2⟩
      | error e =>
        obtain ⟨f, rfl⟩ := hr.2.2.2 e rfl
        exact ⟨hfault f s, hr.1.2⟩

theorem skip {op : Op} [hP : Steady py i P] (hop : op.isRead = true)
    (hfault : ∀ f s, E (Fault.toExc f) s) (hreq : ∀ s, Inv s → P s → Req py i op s) :
    Runs py i P (call op) (fun _ => P) E :=
  post (read (C := fun _ _ => True) hop hfault hreq fun _ _ _ _ _ _ _ _ => trivial)
    (fun _ _ _ h => h.1) fun _ _ _ h => h

end Runs

/-! ## Operations that are not performed -/

instance (φ : Op → Prop) : (discipline py).Stable i (DidOnly φ i) where
  stable _ _ _ _ hr h op r hd := h op r (logged_of_own_eq hr.own hd rfl)

theorem exec_logged {op : Op} {r : Except Exc (Res op)} {c : Choice} {s s' : World} {e : Entry}
    (hd : World.exec i op c s = some (r, s')) (he : s'.Logged e) :
    e = .did i op r ∨ (op = .commit ∧ e = .committed i (s.staged i)) ∨ s.Logged e := by
  by_cases hc : op = .commit
  · subst hc
    rcases exec_commit hd with rfl | ⟨-, rfl⟩
    · rcases List.mem_cons.1 he with rfl | he
      · exact .inl rfl
      · exact (List.mem_cons.1 he).elim (fun he => .inr (.inl ⟨rfl, he⟩)) fun he => .inr (.inr he)
    · exact (List.mem_cons.1 he).imp id .inr
  · obtain ⟨s₁, hf, rfl⟩ := exec_frame hc hd
    rcases List.mem_cons.1 he with rfl | he
    · exact .inl rfl
    · exact .inr (.inr (by rw [hf.log] at he; exact he))

theorem didOnly_exec {φ : Op → Prop} {op : Op} {r : Except Exc (Res op)} {c : Choice}
    {s s' : World} (hop : φ op) (hd : World.exec i op c s = some (r, s')) (h : s.DidOnly φ i) :
    s'.DidOnly φ i := by
  intro op' r' hd'
  rcases exec_logged hd hd' with he | ⟨-, he⟩ | he
  · cases he
    exact hop
  · cases he
  · exact h op' r' he

theorem Runs.frameRead {p : App α} [hF : Steady py i F] (hp : p.Only fun op => op.isRead = true)
    (h : Runs py i P p A E) :
    Runs py i (fun s => P s ∧ F s) p (fun a s => A a s ∧ F s) fun e s => E e s ∧ F s :=
  h.frameOnly (fun _ _ _ s s' hop _ _ hd hf => hF.same s s' (exec_read hop hd).1 hf) hp

theorem Runs.didOnly {p : App α} {φ : Op → Prop} (hp : p.Only φ) (h : Runs py i P p A E) :
    Runs py i (fun s => P s ∧ s.DidOnly φ i) p (fun a s => A a s ∧ s.DidOnly φ i)
      fun e s => E e s ∧ s.DidOnly φ i :=
  h.frameOnly (fun _ _ _ _ _ hop _ _ hd hn => didOnly_exec hop hd hn) hp

section Only

variable {φ : Op → Prop} {body : App α}

theorem only_call {op : Op} (h : φ op) : (call op).Only φ := Prog.only_perform.2 h

theorem only_withUow (hrollback : φ .rollback) (hclose : φ .close) (h : body.Only φ) :
    (withUow body).Only φ :=
  .bind (.tryCatch h fun _ => .bind (Prog.only_perform.2 hrollback) fun _ =>
    .bind (Prog.only_perform.2 hclose) fun _ => trivial) fun _ =>
      .bind (Prog.only_perform.2 hclose) fun _ => trivial

/-- If it is an exception, it is one with `X`. -/
def RaisesOnly (X : Exc → Prop) (r : Except Exc α) : Prop := ∀ e, r = .error e → X e

/-- The exceptions of the program are those its operations answer with. -/
abbrev PassesOn (X : Exc → Prop) (φ : Op → Prop) (p : App α) : Prop :=
  p.Given (fun _ => RaisesOnly X) φ (RaisesOnly X)

theorem passesOn_call {X : Exc → Prop} {op : Op} (hop : φ op) : PassesOn X φ (call op) :=
  Prog.given_perform hop fun _ hr => hr

theorem PassesOn.bind {X : Exc → Prop} {p : App α} {f : α → App β} (hp : PassesOn X φ p)
    (hf : ∀ a, PassesOn X φ (f a)) : PassesOn X φ (p >>= f) :=
  Prog.Given.bind hp (fun a _ => hf a) fun e he _ h => he _ (by cases h; rfl)

theorem passesOn_withUow {X : Exc → Prop} (hrollback : φ .rollback) (hclose : φ .close)
    (h : PassesOn X φ body) : PassesOn X φ (withUow body) := by
  refine PassesOn.bind (Prog.Given.tryCatch h (fun _ ha => ha) fun e he => ?_) fun a => ?_
  · exact (passesOn_call hrollback).bind fun _ => (passesOn_call hclose).bind fun _ => he
  · exact (passesOn_call hclose).bind fun _ => fun _ he => by cases he

theorem only_withSession (hclose : φ .close) (h : body.Only φ) : (withSession body).Only φ :=
  .tryFinally h (Prog.only_perform.2 hclose)

theorem only_withBegin (hcommit : φ .commit) (hrollback : φ .rollback) (h : body.Only φ) :
    (withBegin body).Only φ :=
  .bind (.tryCatch h fun _ => .bind (Prog.only_perform.2 hrollback) fun _ => trivial) fun _ =>
    .bind (.tryCatch (Prog.only_perform.2 hcommit) fun _ =>
      .bind (Prog.only_perform.2 hrollback) fun _ => trivial) fun _ => trivial

end Only

/-! ## The end of a transaction -/

/-- `rollback` and `close` end the transaction, whatever happens. -/
theorem call_end {op : Op} (hop : op = .rollback ∨ op = .close)
    [hF : (discipline py).Persistent F] (hst : ∀ s, F s → s.Started i) :
    Spec py i F (call op) fun r s =>
      (F s ∧ s.staged i = []) ∧ ∀ e, r = .error e → ∃ f, e = Fault.toExc f := by
  have : (discipline py).Stable i F := (sound py).stable_of_persistent
  have hwork : op.isWork = false := by rcases hop with rfl | rfl <;> rfl
  have hne : op ≠ .commit := by rcases hop with rfl | rfl <;> simp
  refine Discipline.Triple.perform (Q := fun r s =>
    (F s ∧ s.staged i = []) ∧ ∀ e, r = .error e → ∃ f, e = Fault.toExc f)
    (sound py) (fun s _ hF' => ?_) ?_
  · refine ⟨hst s hF', fun hw => ?_, ?_⟩
    · rw [hwork] at hw
      cases hw
    · rcases hop with rfl | rfl <;> trivial
  · rintro r s s' hi hFs ⟨c, hd⟩ -
    refine ⟨⟨hF.persistent s s' (exec_quiet hne hd).evolves hFs, ?_⟩, fun e he => ?_⟩
    · have hend : ∀ {s₁ : World} {e}, s₁ = s.endTx i → (s₁.note e).staged i = [] := by
        rintro s₁ e rfl
        exact Function.update_self ..
      have heff : ∀ {r₁ s₁}, s.effect i c op = some (r₁, s₁) → s₁ = s.endTx i := by
        intro r₁ s₁ he
        rcases hop with rfl | rfl <;> (cases he; rfl)
      have hfail : s.fail i op = s.endTx i := by rcases hop with rfl | rfl <;> rfl
      rcases World.exec_cases hd with ⟨s₁, he, rfl⟩ | ⟨f, r₁, s₁, he, -, -, rfl⟩ | ⟨f, -, -, rfl⟩
      · exact hend (heff he)
      · exact hend (heff he)
      · exact hend hfail
    · rcases World.exec_cases hd with ⟨s₁, h₁, -⟩ | ⟨f, r₁, s₁, -, hr, -, -⟩ | ⟨f, hr, -, -⟩
      · rcases hop with rfl | rfl <;> (cases h₁; cases he)
      · exact ⟨f, by rw [he] at hr; exact Except.error.inj hr⟩
      · exact ⟨f, by rw [he] at hr; exact Except.error.inj hr⟩

/-- Ending the transaction on the way out. -/
theorem Runs.closing {op : Op} (hop : op = .rollback ∨ op = .close) {next : App β}
    [hF : (discipline py).Persistent F] (hst : ∀ s, F s → s.Started i)
    (hE : ∀ f s, F s → E (Fault.toExc f) s) (hnext : Runs py i F next B E) :
    Spec py i F (call op >>= fun _ => next) fun r s => Ends B E r s ∧ s.staged i = [] := by
  refine (sound py).bind (call_end hop hst) (fun a => ?_) fun e s _ he => ?_
  · exact Discipline.Triple.pre hnext fun s _ h => h.1
  · obtain ⟨f, rfl⟩ := he.2 e rfl
    exact ⟨hE f s he.1.1, he.1.2⟩

/-- What the body leaves behind when it does not need its transaction any more. -/
theorem spec_started {body : App α} (hst : ∀ s, P s → s.Started i)
    (h : Spec py i (fun s => P s ∧ s.staged i = []) body (Ends A E)) :
    Spec py i (fun s => P s ∧ s.staged i = []) body fun r s => Ends A E r s ∧ s.Started i :=
  Discipline.Triple.pre ((sound py).frame (F := Started i) h) fun s _ hp => ⟨hp, hst s hp.1⟩

section Blocks

variable [hA : ∀ a, (discipline py).Persistent (A a)] [hE : ∀ e, (discipline py).Persistent (E e)]

/-- Ending the transaction after an exception, and raising it again. -/
theorem Runs.rethrow {e : Exc} (hfault : ∀ f s, E (Fault.toExc f) s) {op : Op}
    (hop : op = .rollback ∨ op = .close) {next : App α}
    (hnext : Runs py i (fun s => E e s ∧ s.Started i) next (fun _ _ => False) E) :
    Runs py i (fun s => E e s ∧ s.Started i) (call op >>= fun _ => next) (fun _ _ => False) E :=
  Discipline.Triple.pre
    (Runs.closing hop (fun _ hs => hs.2) (fun f s _ => hfault f s) hnext) fun _ _ hs => hs.1

/-- **A unit of work.** -/
theorem Runs.withUow {body : App α} (hst : ∀ s, P s → s.Started i)
    (hfault : ∀ f s, E (Fault.toExc f) s)
    (h : Spec py i (fun s => P s ∧ s.staged i = []) body (Ends A E)) :
    Runs py i P (withUow body) A E := by
  refine (sound py).bind (Q := fun r s => match r with
      | .ok a => A a s ∧ s.Started i
      | .error e => E e s ∧ s.staged i = []) ?_ (fun a => ?_) fun e s _ he => he
  · refine (sound py).tryCatch (spec_started hst h) (fun a s _ ha => ha) ?_
    intro e
    -- the body raised: roll back, close, raise again
    have hthrow : Runs py i (fun s => E e s ∧ s.Started i) (throw e : App α)
        (fun _ _ => False) E := Runs.raise fun s _ hs => hs.1
    have hroll := Runs.closing (.inl rfl) (fun s (hs : E e s ∧ s.Started i) => hs.2)
      (fun f s _ => hfault f s) (Runs.rethrow hfault (.inr rfl) hthrow)
    apply Discipline.Triple.post hroll
    intro r s _ hr
    cases r with
    | ok a => exact hr.1.elim
    | error e => exact hr
  · exact Runs.closing (.inr rfl) (fun _ hs => hs.2) (fun f s _ => hfault f s)
      (Runs.ret fun s _ hs => hs.1)

/-- **A session.** -/
theorem Runs.withSession {body : App α} (hst : ∀ s, P s → s.Started i)
    (hfault : ∀ f s, E (Fault.toExc f) s)
    (h : Spec py i (fun s => P s ∧ s.staged i = []) body (Ends A E)) :
    Runs py i P (withSession body) A E := by
  refine (sound py).bind (Q := fun r s => match r with
      | .ok a => A a s ∧ s.Started i
      | .error e => E e s ∧ s.staged i = []) ?_ (fun a => ?_) fun e s _ he => he
  · refine (sound py).tryCatch (spec_started hst h) (fun a s _ ha => ha) ?_
    intro e
    have hthrow : Runs py i (fun s => E e s ∧ s.Started i) (throw e : App α)
        (fun _ _ => False) E := Runs.raise fun s _ hs => hs.1
    have hclose := Runs.closing (.inr rfl) (fun s (hs : E e s ∧ s.Started i) => hs.2)
      (fun f s _ => hfault f s) hthrow
    apply Discipline.Triple.post hclose
    intro r s _ hr
    cases r with
    | ok a => exact hr.1.elim
    | error e => exact hr
  · exact Runs.closing (.inr rfl) (fun _ hs => hs.2) (fun f s _ => hfault f s)
      (Runs.ret fun s _ hs => hs.1)

/-- **A transaction block**, where the commit makes `A` of what the body made sure of. -/
theorem spec_withBegin {body : App α} {C : α → World → Prop}
    (hst : ∀ s, P s → s.Started i) (hfault : ∀ f s, E (Fault.toExc f) s)
    (h : Spec py i (fun s => P s ∧ s.staged i = []) body (Ends C E))
    (hcommit : ∀ a, Spec py i (fun s => C a s ∧ s.Started i) (call .commit)
      (Ends (fun _ => A a) E)) :
    Spec py i (fun s => P s ∧ s.staged i = []) (withBegin body) (Ends A E) := by
  have hthrow : ∀ (β : Type) e, Runs py i (fun s => E e s ∧ s.Started i) (throw e : App β)
      (fun _ _ => False) E := fun β e => Runs.raise fun s _ hs => hs.1
  have hroll : ∀ (β : Type) e, Spec py i (fun s => E e s ∧ s.Started i)
      (call .rollback >>= fun _ => (throw e : App β))
      fun r s => Ends (fun _ _ => False) E r s ∧ s.staged i = [] := fun β e =>
    Runs.closing (.inl rfl) (fun s hs => hs.2) (fun f s _ => hfault f s) (hthrow β e)
  have hcommit' : ∀ a, Spec py i (fun s => C a s ∧ s.Started i) (call .commit)
      fun r s => Ends (fun _ => A a) E r s ∧ s.Started i := fun a =>
    Discipline.Triple.pre ((sound py).frame (F := Started i) (hcommit a)) fun s _ hs => ⟨hs, hs.2⟩
  refine (sound py).bind (Q := fun r s => match r with
      | .ok a => C a s ∧ s.Started i
      | .error e => E e s) ?_ (fun a => ?_) fun e s _ he => he
  · refine (sound py).tryCatch (spec_started hst h) (fun a s _ ha => ha) ?_
    intro e
    apply Discipline.Triple.post (hroll α e)
    intro r s _ hr
    cases r with
    | ok a => exact hr.1.elim
    | error e => exact hr.1
  · refine (sound py).bind (Q := fun r s => match r with
      | .ok _ => A a s
      | .error e => E e s) ?_ (fun _ => ?_) fun e s _ he => he
    · refine (sound py).tryCatch (hcommit' a) (fun _ s _ ha => ha.1) ?_
      intro e
      apply Discipline.Triple.post (hroll Unit e)
      intro r s _ hr
      cases r with
      | ok a => exact hr.1.elim
      | error e => exact hr.1
    · have : (discipline py).Stable i (A a) := (sound py).stable_of_persistent
      exact Discipline.Triple.ret fun s _ ha => ha

end Blocks

/-! ## Commit -/

/-- **Commit.** If it answers, the batch is in the log, and what it brings about holds. -/
theorem Spec.commit {ws : List Write} {C : World → Prop} [hP : (discipline py).Stable i P]
    [hC : (discipline py).Persistent C] [hE : ∀ e, (discipline py).Persistent (E e)]
    (hfault : ∀ f s, E (Fault.toExc f) s) (hworking : ∀ s, P s → s.Working py i)
    (hws : ∀ s, P s → s.staged i = ws) (hlegit : ∀ s, Inv s → P s → CommitLegit py i s ws)
    (hdone : ∀ s r, Inv s → P s → C ((s.commit i).note (.did i .commit r))) :
    Spec py i P (PaymentProcessing.call .commit)
      (Ends (fun _ s => s.Logged (.committed i ws) ∧ C s) E) := by
  have hstable : ∀ r : Except Exc (Res .commit), (discipline py).Stable i
      (Ends (fun (_ : Res .commit) s => s.Logged (.committed i ws) ∧ C s) E r) := fun r =>
    (sound py).stable_of_persistent
  refine Discipline.Triple.perform
    (Q := Ends (fun _ s => s.Logged (.committed i ws) ∧ C s) E) (sound py) ?_ ?_
  · intro s hi hp
    refine ⟨(hworking s hp).1, fun _ => (hworking s hp).2, ?_⟩
    show CommitLegit py i s (s.staged i)
    rw [hws s hp]
    exact hlegit s hi hp
  · rintro r s s' hi hp ⟨c, hd⟩ -
    cases r with
    | error e =>
      obtain ⟨f, rfl⟩ := exec_error (by simp) hd
      exact hfault f s'
    | ok a =>
      rcases exec_commit hd with rfl | ⟨⟨f, hf⟩, -⟩
      · refine ⟨?_, hdone s _ hi hp⟩
        rw [← hws s hp]
        exact List.mem_cons_of_mem _ (List.mem_cons_self ..)
      · cases hf

end PaymentProcessing
