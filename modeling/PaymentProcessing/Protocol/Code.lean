import PaymentProcessing.Protocol.Creating
import PaymentProcessing.Protocol.Processing
import PaymentProcessing.Protocol.Relaying

/-!
# The code keeps the discipline

Every program a process can start with keeps it, so every configuration of a run is good: each
operation any process performs meets its requirement, and what a process returns or raises is as
`Tells` says.
-/

namespace PaymentProcessing

open Python Relational Concurrency World

variable {py : Platform} {i : Nat}

/-- What the outcome of a process tells. -/
def Tells : Kind → Except Exc Reply → World → Prop
  | .createPayment command, .ok reply, s =>
    ∃ output, reply = .payment output ∧ s.Answered command output
  | .createPayment command, .error e, s => s.Conflicting command e
  | .getPayment id, .ok reply, s =>
    ∃ p, reply = .payment (PaymentOutput.fromPayment p) ∧ Reading id p s
  | .charge payment, .ok reply, s =>
    ∃ result, reply = .charged result ∧ s.Charged payment.id result.isSuccessful
  | .charge _, .error e, s => notMissing e s
  | .processPayment _ messageId, .ok _, s => ∀ m, messageId = some m → s.Seen m
  | .processPayment .., .error e, s => notMissing e s
  | _, _, _ => True

/-- A process that has just started has done nothing. -/
structure Fresh (i : Nat) (k : Kind) (s : World) : Prop where
  started : s.Logged (.started i k)
  staged : s.staged i = []
  own : ∀ e, s.Logged e → e.process = i → e = .started i k ∨ ∃ msg, e = .delivered i msg

theorem Fresh.didOnly {k : Kind} {s : World} (h : Fresh i k s) (φ : Op → Prop) : s.DidOnly φ i := by
  intro op r hd
  rcases h.own _ hd rfl with he | ⟨msg, he⟩ <;> cases he

theorem Fresh.unreleased {k : Kind} {s : World} (h : Fresh i k s) (id : UUID) :
    Unreleased i id s := by
  refine ⟨fun ws hw => ?_, by rw [h.staged]; exact List.not_mem_nil⟩
  rcases h.own _ hw rfl with he | ⟨msg, he⟩ <;> cases he

theorem start_fresh {k : Kind} {s s' : World} {p : App Reply} (hidle : (discipline py).idle i s)
    (h : World.start py i k s = some (s', p)) : Fresh i k s' := by
  obtain ⟨hown, hst⟩ := hidle
  have hnote : Fresh i k (s.note (.started i k)) :=
    ⟨List.mem_cons_self .., hst, fun e he hp =>
      (List.mem_cons.1 he).imp id fun he => absurd hp (not_logged_of_own hown he)⟩
  cases k with
  | dispatch n =>
    obtain ⟨⟨msg, b⟩, -, hr⟩ := Option.map_eq_some_iff.1 h
    cases hr
    refine ⟨List.mem_cons_of_mem _ (List.mem_cons_self ..), hst, fun e he hp => ?_⟩
    rcases List.mem_cons.1 he with rfl | he
    · exact .inr ⟨_, rfl⟩
    · exact hnote.own e he hp
  | _ => cases h; exact hnote

/-- What a program ends with is what is told. -/
theorem Runs.safe {P : World → Prop} {p : App Reply} {A : Reply → World → Prop}
    {E : Exc → World → Prop} {k : Kind} {s : World} (h : Runs py i P p A E) (hi : Inv s) (hP : P s)
    (hs : s.staged i = []) (hok : ∀ a s, A a s → Tells k (.ok a) s)
    (herr : ∀ e s, E e s → Tells k (.error e) s) :
    (discipline py).Safe i (Tells k) p s :=
  (h s hi ⟨hP, hs⟩).mono fun r s' _ hr => by
    cases r with
    | ok a => exact hok a s' hr.1
    | error e => exact herr e s' hr.1

theorem Runs.reply {α : Type} {P : World → Prop} {p : App α} {A : α → World → Prop}
    {E : Exc → World → Prop} [∀ a, (discipline py).Stable i (A a)] (f : α → Reply)
    (h : Runs py i P p A E) :
    Runs py i P (do return f (← p)) (fun reply s => ∃ a, reply = f a ∧ A a s) E :=
  Runs.bind h fun a => Runs.ret fun _ _ ha => ⟨a, rfl, ha⟩

/-- **Every process keeps the discipline and tells the truth.** -/
theorem code_safe (py : Platform) (A : Config → Action Choice Kind Env → Prop) :
    (discipline py).CodeSafe A fun _ => Tells := by
  intro i k y s p _ hi hidle hst
  have hf : Fresh i k s := start_fresh hidle hst
  have hinv : Inv s := (sound py).start_inv i k _ _ _ hi hidle hst
  have hwork : k.isConsumer = false → s.Working py i := fun hk =>
    ⟨⟨k, hf.started⟩, .inl ⟨k, hf.started, hk⟩⟩
  cases k with
  | createPayment command =>
    cases hst
    exact Runs.safe (Runs.reply .payment runs_createPayment) hinv (hwork rfl) hf.staged
      (fun _ _ h => h) fun _ _ h => h
  | getPayment id =>
    cases hst
    refine Runs.safe (Runs.reply .payment (runs_getPayment id)) hinv (hwork rfl) hf.staged
      (fun _ _ h => ?_) fun _ _ _ => trivial
    obtain ⟨_, rfl, p, rfl, hp⟩ := h
    exact ⟨p, rfl, hp⟩
  | charge payment =>
    cases hst
    exact Runs.safe (Runs.reply .charged (runs_charge payment)) hinv (hwork rfl) hf.staged
      (fun _ _ h => h) fun _ _ h => h
  | processPayment id messageId =>
    cases hst
    refine Runs.safe (Runs.reply (fun _ => .done) (runs_processPayment id messageId)) hinv
      ⟨⟨⟨_, hf.started⟩, .inl hf.started⟩, hf.didOnly _⟩ hf.staged (fun _ _ h => ?_) fun _ _ h => h
    obtain ⟨-, -, -, hseen⟩ := h
    exact hseen
  | publishOutbox worker =>
    cases hst
    exact Runs.safe (Runs.reply .published (runs_publishOutbox worker)) hinv
      ⟨⟨⟨hwork rfl, hf.started⟩, hf.didOnly _⟩, hf.unreleased⟩ hf.staged (fun _ _ _ => trivial)
      fun _ _ _ => trivial
  | dispatch n =>
    obtain ⟨⟨msg, b⟩, -, hr⟩ := Option.map_eq_some_iff.1 hst
    cases hr
    exact Runs.safe (Runs.reply (fun _ => .done) (runs_dispatch msg)) hinv
      ⟨⟨⟨_, hf.started⟩, List.mem_cons_self ..⟩, hf.didOnly _⟩ hf.staged (fun _ _ _ => trivial)
      fun _ _ _ => trivial

theorem good_init (py : Platform) (clock : Time) :
    (discipline py).Good (fun _ => Tells) (Config.init clock) where
  inv :=
    { payments := fun _ _ h => by cases h
      keys := fun _ h => by cases h
      outbox := fun _ _ h => by cases h
      used := fun _ h => by obtain ⟨_, _, _, h, -⟩ := h; cases h
      started := fun _ _ _ h => by cases h
      delivered := fun _ _ h => by cases h
      message := fun _ _ _ h => by cases h
      active := fun _ h => by cases h }
  idle _ _ := ⟨rfl, rfl⟩
  safe _ _ _ h := by cases h

end PaymentProcessing
