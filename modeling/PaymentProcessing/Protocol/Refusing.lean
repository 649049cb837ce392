import PaymentProcessing.Protocol.Answering

/-!
# How requests fail

A request raises what a failed operation has raised, or it has asked for no commit and raises what is
wrong with the request itself. A creation inserts its payment under an id that it has drawn, before
any commit.
-/

namespace PaymentProcessing

open Python Relational Concurrency World

variable {py : Platform} {A : Allowed} {i : Nat} {s s' : World} {y y' : Config} {h : History}
  {command : CreatePaymentInput} {α β : Type}

/-! ## Drawn ids -/

/-- No commit has been asked for. -/
def Uncommitted (h : History) : Prop := ∀ x ∈ h, x.1 ≠ .commit

theorem uncommitted_nil : Uncommitted [] := fun _ hx => by cases hx

theorem Uncommitted.cons {op : Op} {r : Except Exc (Res op)} (hop : op ≠ .commit)
    (hu : Uncommitted h) : Uncommitted (⟨op, r⟩ :: h) := by
  intro x hx
  rcases List.mem_cons.1 hx with rfl | hx
  · exact hop
  · exact hu x hx

/-- A payment is inserted under an id that has been drawn, before any commit. -/
def Op.InsertsDrawn (h : History) : Op → Prop
  | .insertPayment row => ⟨.uuid4, .ok row.id⟩ ∈ h ∧ Uncommitted h
  | _ => True

/-- The operation inserts no payment. -/
def Op.insertsNothing : Op → Bool
  | .insertPayment _ => false
  | _ => true

abbrev Draws (Q : History → Except Exc α → Prop) (p : App α) (h : History) : Prop :=
  p.Along (fun _ _ _ => True) (fun h op => op.InsertsDrawn h) Q h

theorem draws_nothing {p : App α} (hp : p.Only fun op => op.insertsNothing = true) :
    Draws (fun _ _ => True) p h :=
  hp.along (I := fun _ => True) trivial
    (fun _ op _ hop => by cases op <;> trivial) fun _ _ _ _ _ _ => trivial

theorem draws_newPayment :
    Draws (fun h r => ∀ new, r = .ok new → ⟨.uuid4, .ok new.1.id⟩ ∈ h ∧ Uncommitted h)
      (CreatePayment.newPayment py command) [] := by
  have hstart : ∀ {γ : Type} {r : Except Exc γ}, Draws (fun h _ => h = []) (orRaise r) [] :=
    Prog.along_ofExcept rfl
  refine Prog.Along.bind hstart (fun h money hh => ?_) fun _ _ _ _ he => by cases he
  subst hh
  refine Prog.Along.bind hstart (fun h key hh => ?_) fun _ _ _ _ he => by cases he
  subst hh
  refine Prog.Along.bind hstart (fun h url hh => ?_) fun _ _ _ _ he => by cases he
  subst hh
  refine Prog.Along.bind (Q := fun h _ => Uncommitted h) (Prog.along_perform trivial fun r _ =>
    uncommitted_nil.cons (by simp)) (fun h now hu => ?_) fun _ _ _ _ he => by cases he
  refine Prog.Along.bind (Q := fun h r => Uncommitted h ∧ ⟨.uuid4, r⟩ ∈ h) (Prog.along_perform
    trivial fun r _ => ⟨hu.cons (by simp), List.mem_cons_self ..⟩) (fun h id hid => ?_)
    fun _ _ _ _ he => by cases he
  intro new he
  cases he
  exact ⟨hid.2, hid.1⟩

/-- The payment is inserted first. -/
theorem draws_store {p : Payment} {now : Time} (hid : ⟨.uuid4, .ok p.id⟩ ∈ h)
    (hu : Uncommitted h) : Draws (fun _ _ => True) (CreatePayment.store p now) h := by
  have hadd : Draws (fun _ _ => True) (SqlPaymentRepository.add p) h := by
    refine Prog.Along.tryCatch (Q := fun _ _ => True) ⟨⟨hid, hu⟩, fun r _ => ?_⟩
      (fun _ _ _ => trivial) fun h e _ => ?_
    · cases r <;> trivial
    · split
      · split <;> trivial
      · trivial
  refine Prog.Along.bind (Q := fun _ _ => True) (Prog.Along.tryCatch (Q := fun _ _ => True)
    (Prog.Along.bind hadd (fun h _ _ => ?_) fun _ _ _ => trivial) (fun _ _ _ => trivial)
    fun h e _ => ?_) (fun h _ _ => ?_) fun _ _ _ => trivial
  · exact draws_nothing (.bind (.bind (only_call rfl) fun id => only_call rfl)
      fun _ => only_call rfl)
  · exact draws_nothing (.bind (only_call rfl) fun _ => .bind (only_call rfl) fun _ => trivial)
  · exact draws_nothing (.bind (only_call rfl) fun _ => trivial)

/-- **A creation** draws the id of its payment and inserts the payment before it commits. -/
theorem draws_createPayment (command : CreatePaymentInput) :
    Draws (fun _ _ => True) (CreatePayment.execute py command) [] := by
  refine Prog.Along.bind draws_newPayment (fun h new hnew => ?_) fun _ _ _ => trivial
  obtain ⟨hid, hu⟩ := hnew new rfl
  refine Prog.Along.bind (Q := fun _ _ => True) (Prog.Along.tryCatch (Q := fun _ _ => True)
    (Prog.Along.bind (draws_store hid hu) (fun _ _ _ => True.intro) fun _ _ _ => trivial)
    (fun _ _ _ => trivial) fun h e _ => ?_) (fun h stored _ => ?_) fun _ _ _ => trivial
  · split <;> trivial
  · split
    · trivial
    · refine draws_nothing (.bind (only_withUow rfl rfl (.bind (only_call rfl) fun row =>
        only_toPayment row)) fun existing => ?_)
      split
      · trivial
      · split <;> trivial

/-! ## What is raised -/

/-- The exception is what a failed operation has raised. -/
def Faulty (h : History) (e : Exc) : Prop :=
  ∃ (op : Op) (f : Fault), ⟨op, .error f.toExc⟩ ∈ h ∧ e = f.toExc

theorem Faulty.cons {e : Exc} (hf : Faulty h e) (x : Performed Res Exc) : Faulty (x :: h) e := by
  obtain ⟨op, f, hm, he⟩ := hf
  exact ⟨op, f, List.mem_cons_of_mem _ hm, he⟩

/-- An operation that fails has met a fault, or inserts a payment whose key is taken. -/
def FailsRightly (op : Op) (r : Except Exc (Res op)) : Prop :=
  ∀ e, r = .error e → (∃ f, e = Fault.toExc f) ∨
    op.insertsNothing = false ∧ e = .integrityError "uq_payments_idempotency_key"

/-- What a part of a request ends with: what it returns has `R`, and what it raises comes from a
fault or has `P`. -/
def Fails (P : History → Exc → Prop) (R : History → α → Prop) (h : History) : Except Exc α → Prop
  | .ok a => R h a
  | .error e => Faulty h e ∨ P h e

abbrev Refuses (P : History → Exc → Prop) (R : History → α → Prop) (p : App α) (h : History) :
    Prop :=
  p.Along (fun _ op r => Replied op r ∧ FailsRightly op r) (fun _ _ => True) (Fails P R) h

section Rules

variable {P P' : History → Exc → Prop} {R : History → α → Prop} {S : History → β → Prop}

theorem refuses_call {op : Op} {R : History → Res op → Prop} (hop : op.insertsNothing = true)
    (hR : ∀ a, Replied op (.ok a) → R (⟨op, .ok a⟩ :: h) a) : Refuses P R (call op) h := by
  apply Prog.along_perform trivial
  intro r hr
  cases r with
  | ok a => exact hR a hr.1
  | error e =>
    rcases hr.2 e rfl with ⟨f, rfl⟩ | ⟨hins, -⟩
    · exact .inl ⟨op, f, List.mem_cons_self .., rfl⟩
    · rw [hop] at hins
      cases hins

theorem refuses_orRaise {r : Except Exc α} (hR : ∀ a, r = .ok a → R h a)
    (hP : ∀ e, r = .error e → P h e) : Refuses P R (orRaise r) h := by
  refine Prog.along_ofExcept ?_
  cases r with
  | ok a => exact hR a rfl
  | error e => exact .inr (hP e rfl)

theorem refuses_bind {p : App α} {f : α → App β} (hp : Refuses P R p h)
    (hf : ∀ h a, R h a → Refuses P S (f a) h) : Refuses P S (p.bind f) h :=
  Prog.Along.bind hp hf fun _ _ he => he

/-- **A unit of work** ends as its body does. -/
theorem refuses_withUow {body : App α} (hp : Refuses P R body h)
    (hR : ∀ h a r, R h a → R (⟨.close, r⟩ :: h) a)
    (hP : ∀ h op e r, op ≠ .commit → P h e → P (⟨op, r⟩ :: h) e) :
    Refuses P R (withUow body) h := by
  have hkeep : ∀ {op : Op} {e : Exc} {h : History}, op ≠ .commit → op.insertsNothing = true →
      Faulty h e ∨ P h e → Refuses P (fun h _ => Faulty h e ∨ P h e) (call op) h :=
    fun hop hins he => refuses_call hins fun a _ => he.imp (·.cons _) (hP _ _ _ _ hop)
  refine Prog.Along.bind (Prog.Along.tryCatch hp (fun _ _ ha => ha) fun h e he => ?_)
    (fun h a ha => ?_) fun _ _ he => he
  · apply refuses_bind (hkeep (by simp) rfl he)
    intro h _ he
    exact refuses_bind (hkeep (by simp) rfl he) fun h _ he => he
  · exact refuses_bind (refuses_call rfl fun _ _ => hR _ _ _ ha) fun h _ ha => ha

theorem refuses_toPayment {row : Option PaymentModel}
    (hrow : ∀ r, row = some r → ∃ p, r = PaymentMapper.toModel p) :
    Refuses P (fun h' _ => h' = h) (SqlPaymentRepository.toPayment row) h := by
  cases row with
  | none => exact rfl
  | some r =>
    obtain ⟨p, rfl⟩ := hrow r rfl
    refine refuses_bind (R := fun h' _ => h' = h) (refuses_orRaise (fun _ _ => rfl) fun e he => ?_)
      fun _ _ hh => hh
    rw [PaymentMapper.toDomain_toModel] at he
    cases he

end Rules

/-! ## Creating -/

/-- The checks of `CreatePayment.execute`, before anything else. -/
def CreatePaymentInput.check (py : Platform) (command : CreatePaymentInput) : Except Exc Unit := do
  let _ ← Money.new command.amount (.inr command.currency)
  let _ ← IdempotencyKey.new command.idempotencyKey
  let _ ← PaymentProcessing.webhookUrl py command.webhookUrl
  return ()

/-- Nothing has been committed, and this is wrong with the request. -/
def RefusesCreation (py : Platform) (command : CreatePaymentInput) (h : History) (e : Exc) : Prop :=
  Uncommitted h ∧ (command.check py = .error e ∨ ∃ id, e = .idempotencyConflict id)

theorem RefusesCreation.cons {op : Op} {e : Exc} {r : Except Exc (Res op)} (hop : op ≠ .commit)
    (hr : RefusesCreation py command h e) : RefusesCreation py command (⟨op, r⟩ :: h) e :=
  ⟨hr.1.cons hop, hr.2⟩

theorem refuses_newPayment : Refuses (RefusesCreation py command)
    (fun h _ => Uncommitted h) (CreatePayment.newPayment py command) [] := by
  refine refuses_bind (R := fun h money => h = [] ∧
    Money.new command.amount (.inr command.currency) = .ok money)
    (refuses_orRaise (fun _ hm => ⟨rfl, hm⟩) fun e he => ⟨uncommitted_nil, .inl ?_⟩)
    fun h money hm => ?_
  · simp [CreatePaymentInput.check, he, bind, Except.bind]
  obtain ⟨rfl, hm⟩ := hm
  refine refuses_bind (R := fun h key => h = [] ∧
    IdempotencyKey.new command.idempotencyKey = .ok key)
    (refuses_orRaise (fun _ hk => ⟨rfl, hk⟩) fun e he => ⟨uncommitted_nil, .inl ?_⟩)
    fun h key hk => ?_
  · simp [CreatePaymentInput.check, hm, he, bind, Except.bind]
  obtain ⟨rfl, hk⟩ := hk
  refine refuses_bind (R := fun h _ => h = []) (refuses_orRaise (fun _ _ => rfl)
    fun e he => ⟨uncommitted_nil, .inl ?_⟩) fun h url hh => ?_
  · simp [CreatePaymentInput.check, hm, hk, he, bind, Except.bind]
  subst hh
  refine refuses_bind (R := fun h _ => Uncommitted h) (refuses_call rfl fun _ _ =>
    uncommitted_nil.cons (by simp)) ?_
  intro h now hu
  exact refuses_bind (R := fun h _ => Uncommitted h) (refuses_call rfl fun _ _ =>
    hu.cons (by simp)) fun h id hu => hu

/-- Nothing has been committed, and the key is taken. -/
abbrev KeyRefused (h : History) (e : Exc) : Prop := Uncommitted h ∧ e = .duplicateIdempotencyKey

theorem refuses_add {p : Payment} (hu : Uncommitted h) :
    Refuses KeyRefused (fun _ _ => True) (SqlPaymentRepository.add p) h := by
  have hinsert : (call (.insertPayment (PaymentMapper.toModel p))).Along
      (fun _ op r => Replied op r ∧ FailsRightly op r) (fun _ _ => True)
      (fun h r => ∀ e, r = .error e → Faulty h e ∨
        Uncommitted h ∧ e = .integrityError "uq_payments_idempotency_key") h := by
    apply Prog.along_perform trivial
    intro r hr e he
    subst he
    rcases hr.2 e rfl with ⟨f, rfl⟩ | ⟨-, rfl⟩
    · exact .inl ⟨_, f, List.mem_cons_self .., rfl⟩
    · exact .inr ⟨hu.cons (by simp), rfl⟩
  refine Prog.Along.tryCatch hinsert (fun _ _ _ => trivial) ?_
  intro h e he
  rcases he e rfl with ⟨op, f, hm, rfl⟩ | ⟨hu, rfl⟩
  · cases f <;> exact .inl ⟨op, _, hm, rfl⟩
  · exact .inr ⟨hu, rfl⟩

/-- What storing raises is a fault, or says that the key is taken. -/
theorem refuses_store {p : Payment} {now : Time} (hu : Uncommitted h) :
    Refuses KeyRefused (fun _ _ => True) (CreatePayment.store p now) h := by
  refine refuses_withUow ?_ (fun _ _ _ _ => trivial) fun h op e r hop he => ⟨he.1.cons hop, he.2⟩
  apply refuses_bind (refuses_add hu)
  intro h _ _
  exact refuses_bind (R := fun _ _ => True) (refuses_bind (R := fun _ _ => True)
    (refuses_call rfl fun _ _ => trivial) fun h id _ => refuses_call rfl fun _ _ => trivial)
    fun h _ _ => refuses_call rfl fun _ _ => trivial

theorem refuses_replay {money : Money} {key : IdempotencyKey} (hu : Uncommitted h) :
    Refuses (RefusesCreation py command) (fun _ _ => True)
      (CreatePayment.replayExisting command money key) h := by
  refine refuses_bind (R := fun h _ => Uncommitted h) (refuses_withUow ?_
    (fun _ _ _ hu => hu.cons (by simp)) fun _ _ _ _ hop he => he.cons hop) fun h existing hu => ?_
  · refine refuses_bind (R := fun h row => Uncommitted h ∧ ∀ r, row = some r →
      ∃ p, r = PaymentMapper.toModel p) (refuses_call rfl fun row hrow => ⟨hu.cons (by simp), hrow⟩)
      ?_
    intro h row hrow
    exact (refuses_toPayment hrow.2).mono fun h' r hr => by
      cases r with
      | ok a => exact hr ▸ hrow.1
      | error e => exact hr
  · cases existing with
    | none => exact .inr ⟨hu, .inr ⟨_, rfl⟩⟩
    | some p =>
      dsimp only
      split
      · exact .inr ⟨hu, .inr ⟨_, rfl⟩⟩
      · trivial

/-- **A creation raises** what a failed operation has raised; or it has committed nothing, and its
command is wrong or conflicts. -/
theorem refuses_createPayment (command : CreatePaymentInput) :
    Refuses (RefusesCreation py command) (fun _ _ => True) (CreatePayment.execute py command) [] := by
  apply refuses_bind refuses_newPayment
  intro h new hu
  refine refuses_bind (R := fun h stored => stored = false → Uncommitted h) (Prog.Along.tryCatch
    (refuses_bind (refuses_store hu) fun h _ _ => ?_) (fun _ _ ha => ha) fun h e he => ?_)
    fun h stored hu => ?_
  · exact fun hs => by cases hs
  · rcases he with ⟨op, f, hm, rfl⟩ | ⟨hu, rfl⟩
    · cases f <;> exact .inl ⟨op, _, hm, rfl⟩
    · exact fun _ => hu
  · cases stored with
    | true => trivial
    | false => exact refuses_replay (hu rfl)

/-- A command that does not pass its checks is refused before anything else. -/
theorem execute_of_check {e : Exc} (hc : command.check py = .error e) :
    CreatePayment.execute py command = .raise e := by
  unfold CreatePaymentInput.check at hc
  cases hm : Money.new command.amount (.inr command.currency) with
  | error e' =>
    rw [hm] at hc
    cases hc
    simp only [CreatePayment.execute, CreatePayment.newPayment, hm]
    rfl
  | ok money =>
    rw [hm] at hc
    cases hk : IdempotencyKey.new command.idempotencyKey with
    | error e' =>
      rw [hk] at hc
      cases hc
      simp only [CreatePayment.execute, CreatePayment.newPayment, hm, hk]
      rfl
    | ok key =>
      rw [hk] at hc
      cases hu : PaymentProcessing.webhookUrl py command.webhookUrl with
      | error e' =>
        rw [hu] at hc
        cases hc
        simp only [CreatePayment.execute, CreatePayment.newPayment, hm, hk, hu]
        rfl
      | ok url =>
        rw [hu] at hc
        cases hc

/-! ## Reading -/

/-- **A read raises** what a failed operation has raised, or says that nothing is there. -/
theorem refuses_getPayment (id : UUID) :
    Refuses (fun _ e => e = .paymentNotFound id) (fun _ _ => True) (GetPayment.execute id) [] := by
  refine refuses_withUow ?_ (fun _ _ _ _ => trivial) fun _ _ _ _ _ he => he
  refine refuses_bind (R := fun _ _ => True) (refuses_bind (R := fun h row => ∀ r, row = some r →
    ∃ p, r = PaymentMapper.toModel p) (refuses_call rfl fun row hrow => hrow) fun h row hrow => ?_)
    fun h found _ => ?_
  · exact (refuses_toPayment hrow).mono fun h' r hr => by
      cases r with
      | ok a => trivial
      | error e => exact hr
  · cases found with
    | none => exact .inr rfl
    | some p => trivial

end PaymentProcessing
