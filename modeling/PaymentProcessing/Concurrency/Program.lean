import Mathlib.Logic.Basic

/-!
# Programs that call operations

A program is a tree: it has returned, it has raised an exception, or it calls one operation of an
interface and continues with the answer, which is a value or an exception. Nothing here says what
an operation does; `Machine` runs many such programs against one shared state.

`bind` sequences programs and stops at the first exception, `tryCatch` runs a handler on it, and
`tryFinally` runs a closing program on both ways out, as the statements of the same names do in a
language with exceptions.
-/

namespace Concurrency

/-- A program over the operations `Op` whose answers have the types `Res`. -/
inductive Prog {Op : Type} (Res : Op → Type) (Err α : Type) : Type where
  /-- The program has returned. -/
  | ret (a : α)
  /-- The program has raised. -/
  | raise (e : Err)
  /-- The program calls `op` and goes on with what it answers. -/
  | call (op : Op) (k : Except Err (Res op) → Prog Res Err α)

/-- An operation with its answer. -/
abbrev Performed {Op : Type} (Res : Op → Type) (Err : Type) : Type :=
  (op : Op) × Except Err (Res op)

namespace Prog

variable {Op : Type} {Res : Op → Type} {Err α β γ : Type}

/-- Sequencing: an exception skips the rest. -/
def bind : Prog Res Err α → (α → Prog Res Err β) → Prog Res Err β
  | .ret a, f => f a
  | .raise e, _ => .raise e
  | .call op k, f => .call op fun r => bind (k r) f

/-- `try p except e: h e`. -/
def tryCatch : Prog Res Err α → (Err → Prog Res Err α) → Prog Res Err α
  | .ret a, _ => .ret a
  | .raise e, h => h e
  | .call op k, h => .call op fun r => tryCatch (k r) h

/-- A value or an exception that is already known. -/
def ofExcept : Except Err α → Prog Res Err α
  | .ok a => .ret a
  | .error e => .raise e

/-- Call one operation; an exception it answers with is raised. -/
def perform (op : Op) : Prog Res Err (Res op) :=
  .call op ofExcept

instance : Monad (Prog Res Err) where
  pure := .ret
  bind := bind

instance : MonadExceptOf Err (Prog Res Err) where
  throw := .raise
  tryCatch := tryCatch

/-- `try p finally: q`. -/
def tryFinally (p : Prog Res Err α) (q : Prog Res Err Unit) : Prog Res Err α :=
  bind (tryCatch p fun e => bind q fun _ => .raise e) fun a => bind q fun _ => .ret a

@[simp] theorem pure_eq (a : α) : (pure a : Prog Res Err α) = .ret a := rfl

@[simp] theorem bind_eq (p : Prog Res Err α) (f : α → Prog Res Err β) :
    (p >>= f) = bind p f := rfl

@[simp] theorem throw_eq (e : Err) : (throw e : Prog Res Err α) = .raise e := rfl

@[simp] theorem tryCatch_eq (p : Prog Res Err α) (h : Err → Prog Res Err α) :
    MonadExcept.tryCatch p h = tryCatch p h := rfl

@[simp] theorem map_eq (f : α → β) (p : Prog Res Err α) :
    (f <$> p) = bind p fun a => .ret (f a) := rfl

@[simp] theorem ret_bind (a : α) (f : α → Prog Res Err β) : bind (.ret a) f = f a := rfl

@[simp] theorem raise_bind (e : Err) (f : α → Prog Res Err β) :
    bind (.raise e) f = .raise e := rfl

/-! ## Programs that keep to some operations -/

/-- The program performs only operations with `φ`, whatever they answer. -/
def Only (φ : Op → Prop) : Prog Res Err α → Prop
  | .ret _ | .raise _ => True
  | .call op k => φ op ∧ ∀ r, Only φ (k r)

variable {φ : Op → Prop}

@[simp] theorem only_ret (a : α) : Only φ (.ret a : Prog Res Err α) := trivial

@[simp] theorem only_raise (e : Err) : Only φ (.raise e : Prog Res Err α) := trivial

@[simp] theorem only_ofExcept (r : Except Err α) : Only φ (ofExcept r : Prog Res Err α) := by
  cases r <;> trivial

@[simp] theorem only_perform {op : Op} :
    Only φ (perform op : Prog Res Err (Res op)) ↔ φ op :=
  ⟨fun h => h.1, fun h => ⟨h, fun r => only_ofExcept r⟩⟩

theorem Only.mono {ψ : Op → Prop} (h : ∀ op, φ op → ψ op) {p : Prog Res Err α}
    (hp : Only φ p) : Only ψ p := by
  induction p with
  | ret a => trivial
  | raise e => trivial
  | call op k ih => exact ⟨h op hp.1, fun r => ih r (hp.2 r)⟩

theorem Only.bind {p : Prog Res Err α} {f : α → Prog Res Err β} (hp : Only φ p)
    (hf : ∀ a, Only φ (f a)) : Only φ (p.bind f) := by
  induction p with
  | ret a => exact hf a
  | raise e => trivial
  | call op k ih => exact ⟨hp.1, fun r => ih r (hp.2 r)⟩

theorem Only.tryCatch {p : Prog Res Err α} {h : Err → Prog Res Err α} (hp : Only φ p)
    (hh : ∀ e, Only φ (h e)) : Only φ (p.tryCatch h) := by
  induction p with
  | ret a => trivial
  | raise e => exact hh e
  | call op k ih => exact ⟨hp.1, fun r => ih r (hp.2 r)⟩

theorem Only.tryFinally {p : Prog Res Err α} {q : Prog Res Err Unit} (hp : Only φ p)
    (hq : Only φ q) : Only φ (p.tryFinally q) :=
  .bind (.tryCatch hp fun _ => .bind hq fun _ => trivial) fun _ => .bind hq fun _ => trivial

/-! ## What a program can return -/

/-- The program can return `a`, by some answers to its operations. -/
def CanReturn (a : α) : Prog Res Err α → Prop
  | .ret b => b = a
  | .raise _ => False
  | .call _ k => ∃ r, CanReturn a (k r)

theorem canReturn_ofExcept {r : Except Err α} {a : α}
    (h : CanReturn a (ofExcept r : Prog Res Err α)) : r = .ok a := by
  cases r with
  | ok b => exact congrArg _ h
  | error e => cases h

theorem CanReturn.bind {p : Prog Res Err α} {f : α → Prog Res Err β} {b : β}
    (h : CanReturn b (p.bind f)) : ∃ a, CanReturn a p ∧ CanReturn b (f a) := by
  induction p with
  | ret a => exact ⟨a, rfl, h⟩
  | raise e => cases h
  | call op k ih =>
    obtain ⟨r, hr⟩ := h
    obtain ⟨a, ha, hb⟩ := ih r hr
    exact ⟨a, ⟨r, ha⟩, hb⟩

/-! ## Programs whose operations answer as promised -/

section Given

variable {ψ : (op : Op) → Except Err (Res op) → Prop} {Q : Except Err α → Prop}
  {R : Except Err β → Prop}

/-- As long as its operations answer with `ψ`, the program performs only operations with `φ` and
ends with `Q`. -/
def Given (ψ : (op : Op) → Except Err (Res op) → Prop) (φ : Op → Prop) (Q : Except Err α → Prop) :
    Prog Res Err α → Prop
  | .ret a => Q (.ok a)
  | .raise e => Q (.error e)
  | .call op k => φ op ∧ ∀ r, ψ op r → Given ψ φ Q (k r)

theorem given_ofExcept {r : Except Err α} (h : Q r) : Given ψ φ Q (ofExcept r : Prog Res Err α) := by
  cases r with
  | ok a => exact h
  | error e => exact h

theorem given_perform {op : Op} {Q : Except Err (Res op) → Prop} (hop : φ op)
    (h : ∀ r, ψ op r → Q r) : Given ψ φ Q (perform op : Prog Res Err (Res op)) :=
  ⟨hop, fun r hr => given_ofExcept (h r hr)⟩

theorem Given.mono {Q' : Except Err α → Prop} {p : Prog Res Err α} (hp : Given ψ φ Q p)
    (h : ∀ r, Q r → Q' r) : Given ψ φ Q' p := by
  induction p with
  | ret a => exact h _ hp
  | raise e => exact h _ hp
  | call op k ih => exact ⟨hp.1, fun r hr => ih r (hp.2 r hr)⟩

theorem Given.bind {p : Prog Res Err α} {f : α → Prog Res Err β} (hp : Given ψ φ Q p)
    (hok : ∀ a, Q (.ok a) → Given ψ φ R (f a)) (herr : ∀ e, Q (.error e) → R (.error e)) :
    Given ψ φ R (p.bind f) := by
  induction p with
  | ret a => exact hok a hp
  | raise e => exact herr e hp
  | call op k ih => exact ⟨hp.1, fun r hr => ih r (hp.2 r hr)⟩

theorem Given.tryCatch {Q' : Except Err α → Prop} {p : Prog Res Err α} {h : Err → Prog Res Err α}
    (hp : Given ψ φ Q p) (hok : ∀ a, Q (.ok a) → Q' (.ok a))
    (herr : ∀ e, Q (.error e) → Given ψ φ Q' (h e)) : Given ψ φ Q' (p.tryCatch h) := by
  induction p with
  | ret a => exact hok a hp
  | raise e => exact herr e hp
  | call op k ih => exact ⟨hp.1, fun r hr => ih r (hp.2 r hr)⟩

/-- A program that keeps to its operations does so whatever they answer. -/
theorem Only.given {p : Prog Res Err α} (hp : Only φ p) : Given ψ φ (fun _ => True) p := by
  induction p with
  | ret a => trivial
  | raise e => trivial
  | call op k ih => exact ⟨hp.1, fun r _ => ih r (hp.2 r)⟩

end Given

/-! ## What a program performs -/

/-- The program performs the operations `l`, the oldest first, gets the answers that stand with them
and ends with the result. -/
def Ran : Prog Res Err α → Except Err α → List (Performed Res Err) → Prop
  | .ret a, r, l => r = .ok a ∧ l = []
  | .raise e, r, l => r = .error e ∧ l = []
  | .call op k, r, l => ∃ x l', l = ⟨op, x⟩ :: l' ∧ Ran (k x) r l'

section Ran

variable {p : Prog Res Err α} {f : α → Prog Res Err β} {l : List (Performed Res Err)}

theorem ran_ofExcept {x r : Except Err α} (h : (ofExcept x : Prog Res Err α).Ran r l) :
    r = x ∧ l = [] := by
  cases x with
  | ok a => exact h
  | error e => exact h

theorem ran_perform {op : Op} {r : Except Err (Res op)}
    (h : (perform op : Prog Res Err (Res op)).Ran r l) : l = [⟨op, r⟩] := by
  obtain ⟨x, l', rfl, hx⟩ := h
  obtain ⟨rfl, rfl⟩ := ran_ofExcept hx
  rfl

/-- The first program has raised, or the second has gone on after it. -/
theorem Ran.bind {r : Except Err β} (h : (p.bind f).Ran r l) :
    (∃ e, r = .error e ∧ p.Ran (.error e) l) ∨
      ∃ a l₁ l₂, l = l₁ ++ l₂ ∧ p.Ran (.ok a) l₁ ∧ (f a).Ran r l₂ := by
  induction p generalizing l with
  | ret a => exact .inr ⟨a, [], l, rfl, ⟨rfl, rfl⟩, h⟩
  | raise e => exact .inl ⟨e, h.1, rfl, h.2⟩
  | call op k ih =>
    obtain ⟨x, l', rfl, hx⟩ := h
    rcases ih x hx with ⟨e, hr, he⟩ | ⟨a, l₁, l₂, rfl, ha, hf⟩
    · exact .inl ⟨e, hr, x, l', rfl, he⟩
    · exact .inr ⟨a, ⟨op, x⟩ :: l₁, l₂, rfl, ⟨x, l₁, rfl, ha⟩, hf⟩

/-- What a program has returned it can return. -/
theorem Ran.canReturn {a : α} (h : p.Ran (.ok a) l) : p.CanReturn a := by
  induction p generalizing l with
  | ret b => exact (Except.ok.inj h.1).symm
  | raise e => cases h.1
  | call op k ih =>
    obtain ⟨x, l', rfl, hx⟩ := h
    exact ⟨x, ih x hx⟩

/-- A program whose operations have answered with `ψ` has kept to its operations and its result. -/
theorem Given.ran {ψ : (op : Op) → Except Err (Res op) → Prop} {Q : Except Err α → Prop}
    {r : Except Err α} (hp : p.Given ψ φ Q) (h : p.Ran r l) (hl : ∀ x ∈ l, ψ x.1 x.2) :
    Q r ∧ ∀ x ∈ l, φ x.1 := by
  induction p generalizing l with
  | ret a =>
    obtain ⟨rfl, rfl⟩ := h
    exact ⟨hp, fun _ hx => by cases hx⟩
  | raise e =>
    obtain ⟨rfl, rfl⟩ := h
    exact ⟨hp, fun _ hx => by cases hx⟩
  | call op k ih =>
    obtain ⟨x, l', rfl, hx⟩ := h
    obtain ⟨hQ, hφ⟩ := ih x (hp.2 x (hl _ (List.mem_cons_self ..))) hx
      fun y hy => hl y (List.mem_cons_of_mem _ hy)
    refine ⟨hQ, fun y hy => ?_⟩
    rcases List.mem_cons.1 hy with rfl | hy
    · exact hp.1
    · exact hφ y hy

end Ran

/-! ## Programs that nothing disturbs -/

variable {σ : Type} (answer : (op : Op) → σ → Except Err (Res op) × σ)

/-- What a program comes to when each operation answers at once. -/
def eval : Prog Res Err α → σ → Except Err α × σ
  | .ret a, s => (.ok a, s)
  | .raise e, s => (.error e, s)
  | .call op k, s => eval (k (answer op s).1) (answer op s).2

@[simp] theorem eval_ret (a : α) (s : σ) : (ret a : Prog Res Err α).eval answer s = (.ok a, s) :=
  rfl

@[simp] theorem eval_raise (e : Err) (s : σ) :
    (raise e : Prog Res Err α).eval answer s = (.error e, s) := rfl

theorem eval_ofExcept (r : Except Err α) (s : σ) :
    (ofExcept r : Prog Res Err α).eval answer s = (r, s) := by
  cases r <;> rfl

@[simp] theorem eval_perform (op : Op) (s : σ) :
    (perform op : Prog Res Err (Res op)).eval answer s = answer op s :=
  eval_ofExcept answer _ _

theorem eval_bind (p : Prog Res Err α) (f : α → Prog Res Err β) (s : σ) :
    (p.bind f).eval answer s =
      match p.eval answer s with
      | (.ok a, s') => (f a).eval answer s'
      | (.error e, s') => (.error e, s') := by
  induction p generalizing s with
  | ret a => rfl
  | raise e => rfl
  | call op k ih => exact ih _ _

theorem eval_tryCatch (p : Prog Res Err α) (h : Err → Prog Res Err α) (s : σ) :
    (p.tryCatch h).eval answer s =
      match p.eval answer s with
      | (.ok a, s') => (.ok a, s')
      | (.error e, s') => (h e).eval answer s' := by
  induction p generalizing s with
  | ret a => rfl
  | raise e => rfl
  | call op k ih => exact ih _ _

end Prog

end Concurrency
