import PaymentProcessing.Concurrency.Machine

/-!
# What a process has performed

The history of a process is the list of the operations it has performed, with their answers, the
newest first. `Along ψ φ Q` is about a program and the history before it: whenever its operations
answer with `ψ`, it performs only what `φ` allows after what was performed so far, and it ends with
`Q`. A machine whose states record the histories keeps this along its runs (`Recorded.step`), so
what is proved along the program of a process holds of the history it has when it is killed, too.
-/

namespace Concurrency

variable {Op : Type} {Res : Op → Type} {Err α β : Type}

/-- Every operation of the history was allowed after the ones before it, and answered with `ψ`. -/
def Obeyed (ψ : List (Performed Res Err) → (op : Op) → Except Err (Res op) → Prop)
    (φ : List (Performed Res Err) → Op → Prop) : List (Performed Res Err) → Prop
  | [] => True
  | ⟨op, r⟩ :: h => φ h op ∧ ψ h op r ∧ Obeyed ψ φ h

theorem Obeyed.of_mem {ψ : List (Performed Res Err) → (op : Op) → Except Err (Res op) → Prop}
    {φ : List (Performed Res Err) → Op → Prop} {h : List (Performed Res Err)} (ho : Obeyed ψ φ h)
    {op : Op} {r : Except Err (Res op)} (hm : ⟨op, r⟩ ∈ h) :
    ∃ before, before <:+ h ∧ φ before op ∧ ψ before op r := by
  induction h with
  | nil => cases hm
  | cons x h ih =>
    rcases List.mem_cons.1 hm with rfl | hm
    · exact ⟨h, List.suffix_cons .., ho.1, ho.2.1⟩
    · obtain ⟨before, hb, hrest⟩ := ih ho.2.2 hm
      exact ⟨before, hb.trans (List.suffix_cons ..), hrest⟩

namespace Prog

/-- As long as its operations answer with `ψ`, the program performs only operations with `φ` after
the history before them, and ends with `Q`. -/
def Along (ψ : List (Performed Res Err) → (op : Op) → Except Err (Res op) → Prop)
    (φ : List (Performed Res Err) → Op → Prop)
    (Q : List (Performed Res Err) → Except Err α → Prop) :
    Prog Res Err α → List (Performed Res Err) → Prop
  | .ret a, h => Q h (.ok a)
  | .raise e, h => Q h (.error e)
  | .call op k, h => φ h op ∧ ∀ r, ψ h op r → Along ψ φ Q (k r) (⟨op, r⟩ :: h)

variable {ψ : List (Performed Res Err) → (op : Op) → Except Err (Res op) → Prop}
  {φ : List (Performed Res Err) → Op → Prop} {h : List (Performed Res Err)}
  {Q Q' : List (Performed Res Err) → Except Err α → Prop}
  {R : List (Performed Res Err) → Except Err β → Prop} {p : Prog Res Err α}

/-! ## Rules -/

theorem Along.mono (hp : p.Along ψ φ Q h) (hQ : ∀ h r, Q h r → Q' h r) : p.Along ψ φ Q' h := by
  induction p generalizing h with
  | ret a => exact hQ _ _ hp
  | raise e => exact hQ _ _ hp
  | call op k ih => exact ⟨hp.1, fun r hr => ih r (hp.2 r hr)⟩

theorem along_ofExcept {r : Except Err α} (hr : Q h r) : (ofExcept r).Along ψ φ Q h := by
  cases r <;> exact hr

theorem along_perform {op : Op} {Q : List (Performed Res Err) → Except Err (Res op) → Prop}
    (hop : φ h op) (hr : ∀ r, ψ h op r → Q (⟨op, r⟩ :: h) r) : (perform op).Along ψ φ Q h :=
  ⟨hop, fun r hψ => along_ofExcept (hr r hψ)⟩

theorem Along.bind {f : α → Prog Res Err β} (hp : p.Along ψ φ Q h)
    (hok : ∀ h a, Q h (.ok a) → (f a).Along ψ φ R h)
    (herr : ∀ h e, Q h (.error e) → R h (.error e)) : (p.bind f).Along ψ φ R h := by
  induction p generalizing h with
  | ret a => exact hok h a hp
  | raise e => exact herr h e hp
  | call op k ih => exact ⟨hp.1, fun r hr => ih r (hp.2 r hr)⟩

theorem Along.tryCatch {f : Err → Prog Res Err α} (hp : p.Along ψ φ Q h)
    (hok : ∀ h a, Q h (.ok a) → Q' h (.ok a))
    (herr : ∀ h e, Q h (.error e) → (f e).Along ψ φ Q' h) : (p.tryCatch f).Along ψ φ Q' h := by
  induction p generalizing h with
  | ret a => exact hok h a hp
  | raise e => exact herr h e hp
  | call op k ih => exact ⟨hp.1, fun r hr => ih r (hp.2 r hr)⟩

theorem Along.tryFinally {q : Prog Res Err Unit}
    {S : Except Err α → List (Performed Res Err) → Except Err Unit → Prop} (hp : p.Along ψ φ Q h)
    (hq : ∀ h r, Q h r → q.Along ψ φ (S r) h)
    (hend : ∀ h r, S r h (.ok ()) → Q' h r)
    (hraise : ∀ h r e, S r h (.error e) → Q' h (.error e)) : (p.tryFinally q).Along ψ φ Q' h := by
  -- the result is known once `q` has run, so the handler's raise passes the second `q` by
  have hboth : (Prog.tryCatch p fun e => Prog.bind q fun _ => .raise e).Along ψ φ
      (fun h r => (∃ a, r = .ok a ∧ Q h (.ok a)) ∨ (∃ e, r = .error e ∧ Q' h (.error e))) h := by
    refine Along.tryCatch hp (fun h a ha => .inl ⟨a, rfl, ha⟩) fun h e he => ?_
    exact (hq h _ he).bind (fun h _ hs => .inr ⟨e, rfl, hend h _ hs⟩)
      fun h e' hs => .inr ⟨e', rfl, hraise h _ e' hs⟩
  refine Along.bind hboth ?_ ?_
  · rintro h a (⟨a', ha, hQ⟩ | ⟨e, he, -⟩)
    · cases ha
      exact (hq h _ hQ).bind (fun h _ hs => hend h _ hs) fun h e hs => hraise h _ e hs
    · cases he
  · rintro h e (⟨a, ha, -⟩ | ⟨e', he, hQ⟩)
    · cases ha
    · cases he
      exact hQ

/-- A part of a program whose operations keep `I` keeps it. -/
theorem Given.along {I : List (Performed Res Err) → Prop}
    {ψ' : (op : Op) → Except Err (Res op) → Prop} {φ' : Op → Prop} {Q' : Except Err α → Prop}
    (hp : p.Given ψ' φ' Q') (hI : I h) (hφ : ∀ h op, I h → φ' op → φ h op)
    (hψ : ∀ h op r, I h → φ' op → ψ h op r → ψ' op r)
    (hkeep : ∀ h op r, I h → φ' op → ψ h op r → I (⟨op, r⟩ :: h)) :
    p.Along ψ φ (fun h r => I h ∧ Q' r) h := by
  induction p generalizing h with
  | ret a => exact ⟨hI, hp⟩
  | raise e => exact ⟨hI, hp⟩
  | call op k ih =>
    refine ⟨hφ h op hI hp.1, fun r hr => ?_⟩
    exact ih r (hp.2 r (hψ h op r hI hp.1 hr)) (hkeep h op r hI hp.1 hr)

theorem Only.along {I : List (Performed Res Err) → Prop} {φ' : Op → Prop} (hp : p.Only φ')
    (hI : I h) (hφ : ∀ h op, I h → φ' op → φ h op)
    (hkeep : ∀ h op r, I h → φ' op → ψ h op r → I (⟨op, r⟩ :: h)) :
    p.Along ψ φ (fun h _ => I h) h := by
  have hgiven : p.Given (fun _ _ => True) φ' fun _ => True := hp.given
  exact (hgiven.along hI hφ (fun _ _ _ _ _ _ => trivial) hkeep).mono fun _ _ hI => hI.1

end Prog

/-! ## Runs -/

namespace Machine

variable {State Choice Kind Env Reply : Type}

/-- The states of the machine record what each process has performed. -/
structure Recorded (M : Machine Res Err State Choice Kind Env Reply)
    (history : Nat → State → List (Performed Res Err)) : Prop where
  exec {i : Nat} {op : Op} {c : Choice} {r : Except Err (Res op)} {s s' : State} :
    M.exec i op c s = some (r, s') → history i s' = ⟨op, r⟩ :: history i s
  others {i j : Nat} {op : Op} {c : Choice} {r : Except Err (Res op)} {s s' : State} :
    M.exec i op c s = some (r, s') → j ≠ i → history j s' = history j s
  start {i : Nat} {k : Kind} {p : Prog Res Err Reply} {s s' : State} :
    M.start i k s = some (s', p) → ∀ j, history j s' = history j s
  halt (i j : Nat) (s : State) : history j (M.halt i s) = history j s
  env {e : Env} {s s' : State} : M.env e s = some s' → ∀ j, history j s' = history j s

variable {M : Machine Res Err State Choice Kind Env Reply}
  {history : Nat → State → List (Performed Res Err)}

/-- What process `i` has performed is as `ψ` and `φ` say, and so is the rest of its program. -/
structure Keeps (history : Nat → State → List (Performed Res Err))
    (ψ : List (Performed Res Err) → (op : Op) → Except Err (Res op) → Prop)
    (φ : List (Performed Res Err) → Op → Prop)
    (Q : List (Performed Res Err) → Except Err Reply → Prop) (i : Nat)
    (y : Sys Res Err State Kind Reply) : Prop where
  obeyed : Obeyed ψ φ (history i y.state)
  along : ∀ k p, y.procs i = .running k p → p.Along ψ φ Q (history i y.state)

variable {ψ : List (Performed Res Err) → (op : Op) → Except Err (Res op) → Prop}
  {φ : List (Performed Res Err) → Op → Prop}
  {Q : List (Performed Res Err) → Except Err Reply → Prop} {i : Nat}
  {y y' : Sys Res Err State Kind Reply} {a : Action Choice Kind Env}

/-- **One action keeps it**, if an operation of the process is answered with `ψ`. -/
theorem Keeps.step (hM : M.Recorded history) (h : Keeps history ψ φ Q i y)
    (hidle : y.procs i ≠ .idle) (hs : M.step a y = some y')
    (hψ : ∀ k op f c r s, y.procs i = .running k (.call op f) →
      M.exec i op c y.state = some (r, s) → φ (history i y.state) op → ψ (history i y.state) op r) :
    Keeps history ψ φ Q i y' := by
  cases M.step_cases hs with
  | spawn j k s p ha hj hst hy =>
    subst hy
    have hne : i ≠ j := by
      rintro rfl
      exact hidle hj
    have hsame : history i s = history i y.state := hM.start hst i
    refine ⟨by rw [hsame]; exact h.obeyed, fun k' p' hp => ?_⟩
    rw [hsame]
    exact h.along k' p' ((Function.update_of_ne hne _ _).symm.trans hp)
  | run j c k op f r s ha hj hex hy =>
    subst hy
    by_cases hij : i = j
    · subst hij
      obtain ⟨hop, hnext⟩ := h.along k _ hj
      have hans := hψ k op f c r s hj hex hop
      have hnew : history i s = ⟨op, r⟩ :: history i y.state := hM.exec hex
      refine ⟨by rw [hnew]; exact ⟨hop, hans, h.obeyed⟩, fun k' p' hp => ?_⟩
      cases (Function.update_self i _ _).symm.trans hp
      rw [hnew]
      exact hnext r hans
    · have hsame : history i s = history i y.state := hM.others hex hij
      refine ⟨by rw [hsame]; exact h.obeyed, fun k' p' hp => ?_⟩
      rw [hsame]
      exact h.along k' p' ((Function.update_of_ne hij _ _).symm.trans hp)
  | kill j k p ha hj hy =>
    subst hy
    have hsame : history i (M.halt j y.state) = history i y.state := hM.halt j i y.state
    refine ⟨by rw [hsame]; exact h.obeyed, fun k' p' hp => ?_⟩
    rw [hsame]
    by_cases hij : i = j
    · subst hij
      cases (Function.update_self i _ _).symm.trans hp
    · exact h.along k' p' ((Function.update_of_ne hij _ _).symm.trans hp)
  | env e s ha hst hy =>
    subst hy
    have hsame : history i s = history i y.state := hM.env hst i
    refine ⟨by rw [hsame]; exact h.obeyed, fun k' p' hp => ?_⟩
    rw [hsame]
    exact h.along k' p' hp

/-- **A process that starts** with nothing performed. -/
theorem Keeps.spawn (hM : M.Recorded history) {k : Kind} {s : State} {p : Prog Res Err Reply}
    (hempty : history i y.state = []) (hst : M.start i k y.state = some (s, p))
    (hp : p.Along ψ φ Q []) :
    Keeps history ψ φ Q i ⟨s, Function.update y.procs i (.running k p)⟩ := by
  have hnone : history i s = [] := (hM.start hst i).trans hempty
  refine ⟨by rw [hnone]; trivial, fun k' p' hp' => ?_⟩
  cases (Function.update_self i _ _).symm.trans hp'
  rw [hnone]
  exact hp

end Machine

end Concurrency
