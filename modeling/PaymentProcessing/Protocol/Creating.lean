import PaymentProcessing.Protocol.Charging

/-!
# Creating and reading a payment

A call of `CreatePayment` that returns answers with a payment in the table that has its key and
matches its command; a conflict is raised only against a payment in the table that does not.
-/

namespace PaymentProcessing

open Python Relational Concurrency World

variable {py : Platform} {i : Nat} {command : CreatePaymentInput}

/-! ## What is requested and what is answered -/

/-- The new payment of a command. -/
structure Requested (command : CreatePaymentInput) (p : Payment) (now : Time) : Prop where
  pending : p.status = .pending
  unprocessed : p.processedAt = none
  createdAt : p.createdAt = now
  key : p.idempotencyKey.value = command.idempotencyKey
  money : Money.new command.amount (.inr command.currency) = .ok p.money
  description : p.description = command.description
  metadata : p.metadata = command.metadata
  webhookUrl : p.webhookUrl = command.webhookUrl

/-- The payment has the command's key, and `has_matching_create_input` says `matching`. -/
structure Matches (command : CreatePaymentInput) (p : Payment) (matching : Bool) : Prop where
  key : p.idempotencyKey.value = command.idempotencyKey
  input : ∃ money, Money.new command.amount (.inr command.currency) = .ok money ∧
    hasMatchingCreateInput p command money = matching

/-- Completing a payment does not change what it matches. -/
theorem Matches.extends {p q : Payment} {matching : Bool} (h : Matches command p matching)
    (hpq : p.Extends q) : Matches command q matching := by
  obtain ⟨money, hm, hb⟩ := h.input
  refine ⟨by rw [hpq.idempotencyKey]; exact h.key, money, hm, ?_⟩
  rw [hasMatchingCreateInput, hpq.money, hpq.description, hpq.metadata, hpq.webhookUrl]
  exact hb

theorem Requested.matches {p : Payment} {now : Time} (h : Requested command p now) :
    Matches command p true := by
  refine ⟨h.key, p.money, h.money, ?_⟩
  simp [hasMatchingCreateInput, h.description, h.metadata, h.webhookUrl, JsonObject.pyEq_refl]

namespace World

/-- A payment with this key is in the table. -/
def KeyTaken (key : String) (s : World) : Prop :=
  ∃ p, s.Known p ∧ p.idempotencyKey.value = key

/-- The answer is a payment in the table that matches the command. -/
def Answered (command : CreatePaymentInput) (output : PaymentOutput) (s : World) : Prop :=
  ∃ p, s.Known p ∧ output = PaymentOutput.fromPayment p ∧ Matches command p true

/-- The conflict is with a payment in the table that does not match the command. -/
def Conflicting (command : CreatePaymentInput) (e : Exc) (s : World) : Prop :=
  (∀ id, e = .idempotencyConflict (some id) → ∃ p, s.Known p ∧ p.id = id ∧
    Matches command p false) ∧ e ≠ .idempotencyConflict none

end World

instance (key : String) : (discipline py).Persistent (KeyTaken key) :=
  inferInstanceAs ((discipline py).Persistent fun s => ∃ p, s.Known p ∧ _)

instance (output : PaymentOutput) : (discipline py).Persistent (Answered command output) :=
  inferInstanceAs ((discipline py).Persistent fun s => ∃ p, s.Known p ∧ _ ∧ _)

instance (e : Exc) : (discipline py).Persistent (Conflicting command e) :=
  inferInstanceAs ((discipline py).Persistent fun s => (∀ id, e = .idempotencyConflict (some id) →
    ∃ p, s.Known p ∧ p.id = id ∧ Matches command p false) ∧ _)

theorem conflicting_of_ne {e : Exc} {s : World} (h : ∀ id, e ≠ .idempotencyConflict id) :
    s.Conflicting command e :=
  ⟨fun _ he => absurd he (h _), h none⟩

/-- The exception comes from the database, the client or the event loop. -/
def Exc.isOutside (e : Exc) : Prop :=
  (∃ f, e = Fault.toExc f) ∨ ∃ constraint, e = .integrityError constraint

theorem isOutside_fault (f : Fault) : f.toExc.isOutside := .inl ⟨f, rfl⟩

theorem Exc.isOutside.ne_conflict {e : Exc} (h : e.isOutside) (id : Option UUID) :
    e ≠ .idempotencyConflict id := by
  rcases h with ⟨f, rfl⟩ | ⟨constraint, rfl⟩
  · cases f <;> simp [Fault.toExc]
  · simp

/-- What is raised comes from outside, or is a conflict with a payment in the table. -/
def Refused (command : CreatePaymentInput) (e : Exc) (s : World) : Prop :=
  e.isOutside ∨ ∃ p, e = .idempotencyConflict (some p.id) ∧ s.Known p ∧ Matches command p false

instance (e : Exc) : (discipline py).Persistent (Refused command e) :=
  inferInstanceAs ((discipline py).Persistent fun s => e.isOutside ∨
    ∃ p, e = .idempotencyConflict (some p.id) ∧ s.Known p ∧ Matches command p false)

theorem Refused.conflicting {e : Exc} {s : World} (h : Refused command e s) :
    s.Conflicting command e := by
  rcases h with h | ⟨p, rfl, hk, hm⟩
  · exact conflicting_of_ne h.ne_conflict
  · refine ⟨fun id hid => ⟨p, hk, ?_, hm⟩, by simp⟩
    cases hid
    rfl

/-! ## Storing -/

/-- What the unit of work of `CreatePayment` may raise. -/
def StoreError (key : String) (e : Exc) (s : World) : Prop :=
  e.isOutside ∨ (e = .duplicateIdempotencyKey ∧ s.KeyTaken key)

instance (key : String) (e : Exc) : (discipline py).Persistent (StoreError key e) :=
  inferInstanceAs ((discipline py).Persistent fun s => e.isOutside ∨
    (e = .duplicateIdempotencyKey ∧ s.KeyTaken key))

theorem storeError_fault (key : String) (f : Fault) (s : World) : StoreError key f.toExc s :=
  .inl (isOutside_fault f)

theorem keyTaken_of_row {s : World} {row : PaymentModel} (hi : Inv s)
    (h : row ∈ s.db.payments.rows) : s.KeyTaken row.idempotencyKey := by
  obtain ⟨p, rfl, -, hst⟩ := payment_of_find? hi (Table.find?_key h)
  exact ⟨p, ⟨p, hst, .refl p⟩, rfl⟩

/-- `SqlPaymentRepository.add`. -/
theorem spec_add (p : Payment) :
    Spec py i (fun s => s.Working py i ∧ s.staged i = []) (SqlPaymentRepository.add p)
      (Ends (fun _ s => Insertable i p s ∧
        s.staged i = [.insertPayment (PaymentMapper.toModel p)])
        (StoreError p.idempotencyKey.value)) := by
  refine Spec.tryCatch (E := fun e s => (∃ f, e = Fault.toExc f) ∨ ∃ constraint,
    e = .integrityError constraint ∧ (isIdempotencyConflict constraint = true →
      s.KeyTaken p.idempotencyKey.value)) ?_ fun e => ?_
  · refine Spec.call (fun s _ h => req_of_working rfl h.1) (fun a c s s' _ h hd _ => ?_)
      fun e c s s' _ h hd hi' => ?_
    · obtain ⟨hst, hins⟩ := insertPayment_ok h.2 hd
      exact ⟨hins, hst⟩
    · rcases World.exec_cases hd with ⟨s₁, he, -⟩ | ⟨f, r₁, s₁, -, hr, -, -⟩ | ⟨f, hr, -, -⟩
      · obtain ⟨s₂, -, hr⟩ := Option.map_eq_some_iff.1 he
        have hc : ∃ constraint, e = .integrityError constraint := by
          split at hr
          · cases hr; exact ⟨_, rfl⟩
          · split at hr
            · cases hr; exact ⟨_, rfl⟩
            · cases hr
        obtain ⟨constraint, rfl⟩ := hc
        refine .inr ⟨constraint, rfl, fun hcon => ?_⟩
        obtain ⟨row, hrow, hk⟩ := insertPayment_conflict h.2 hd hcon
        have := keyTaken_of_row hi' hrow
        rw [hk] at this
        exact this
      · exact .inl ⟨f, Except.error.inj hr⟩
      · exact .inl ⟨f, Except.error.inj hr⟩
  · split
    · rename_i constraint
      split
      · rename_i hc
        refine Spec.raise fun s _ h => .inr ⟨rfl, ?_⟩
        rcases h with ⟨f, hf⟩ | ⟨c, hcc, hk⟩
        · cases f <;> simp [Fault.toExc] at hf
        · cases hcc
          exact hk hc
      · exact Spec.raise fun s _ _ => .inl (.inr ⟨_, rfl⟩)
    · refine Spec.raise fun s _ h => .inl ?_
      rcases h with hf | ⟨c, hc, -⟩
      · exact .inl hf
      · exact .inr ⟨c, hc⟩

/-- `SqlOutboxWriter.add`, with the event of the payment that is being inserted. -/
theorem spec_addEvent (p : Payment) (now : Time) :
    Spec py i (fun s => s.Working py i ∧ Insertable i p s ∧
        s.staged i = [.insertPayment (PaymentMapper.toModel p)])
      (SqlOutboxWriter.add paymentCreated (CreatePayment.createdPayload p.id) now)
      (Ends (fun _ s => ∃ id, UnusedId i id s ∧ Insertable i p s ∧
        s.staged i = [.insertPayment (PaymentMapper.toModel p),
          .insertOutbox (createdEvent id p.id now)]) (StoreError p.idempotencyKey.value)) := by
  refine Spec.bind (A := fun id s => s.Working py i ∧ UnusedId i id s ∧ Insertable i p s ∧
    s.staged i = [.insertPayment (PaymentMapper.toModel p)]) ?_ fun id => ?_
  · refine Spec.call (fun s _ h => req_of_working rfl h.1) (fun id c s s' hi h hd _ => ?_)
      fun e c s s' _ _ hd _ => ?_
    · obtain ⟨hsame, -, -⟩ := exec_read rfl hd
      have hkeep : Steady py i fun s => s.Working py i ∧ Insertable i p s ∧
        s.staged i = [.insertPayment (PaymentMapper.toModel p)] := inferInstance
      have h' := hkeep.same s s' hsame h
      exact ⟨h'.1, uuid4_ok hi.used hd, h'.2⟩
    · obtain ⟨f, rfl⟩ := exec_error (by simp) hd
      exact storeError_fault _ f s'
  · refine Spec.call (fun s _ h => req_of_working rfl h.1) (fun a c s s' hi h hd _ => ?_)
      fun e c s s' _ _ hd _ => ?_
    · obtain ⟨s₁, he, rfl⟩ := exec_ok hd
      cases he
      obtain ⟨-, ⟨hissued, hunused⟩, hins, hst⟩ := h
      refine ⟨id, ⟨hissued, fun hu => hunused ?_⟩, ⟨hins.locked, hins.keyLocked, hins.fresh,
        hins.freshKey⟩, ?_⟩
      · obtain ⟨j, ws, row, hw, hrow⟩ := hu
        rcases List.mem_cons.1 hw with hw | hw
        · cases hw
        · exact ⟨j, ws, row, hw, hrow⟩
      · show Function.update s.staged i (s.staged i ++ _) i = _
        rw [Function.update_self, hst]
        rfl
    · obtain ⟨f, rfl⟩ := exec_error (by simp) hd
      exact storeError_fault _ f s'

/-- **A payment and its event are committed together.** -/
theorem runs_store {p : Payment} {now : Time} (hp : Requested command p now) :
    Runs py i (Working py i) (CreatePayment.store p now) (fun _ s => s.Known p)
      (StoreError p.idempotencyKey.value) := by
  refine Runs.withUow (fun s h => h.1) (storeError_fault _) ?_
  refine Spec.bind (A := fun _ s => s.Working py i ∧ Insertable i p s ∧
    s.staged i = [.insertPayment (PaymentMapper.toModel p)])
    (Spec.weaken (Spec.frame (F := Working py i) (spec_add p)) (fun _ _ h => ⟨h, h.1⟩)
      (fun _ _ _ h => ⟨h.2, h.1⟩) fun _ _ _ h => h.1) ?_
  intro _
  refine Spec.bind (Spec.weaken (Spec.frame (F := Working py i) (spec_addEvent p now))
    (fun _ _ h => ⟨h, h.1⟩) (fun _ _ _ h => h) fun _ _ _ h => h.1) ?_
  intro _
  have hcommit : ∀ id, Spec py i (fun s => (UnusedId i id s ∧ Insertable i p s ∧
      s.staged i = [.insertPayment (PaymentMapper.toModel p),
        .insertOutbox (createdEvent id p.id now)]) ∧ s.Working py i) (call .commit)
      (Ends (fun _ s => s.Known p) (StoreError p.idempotencyKey.value)) := by
    intro id
    refine Spec.weaken (Spec.commit (C := Known p) (storeError_fault _) (fun _ h => h.2)
      (fun _ h => h.1.2.2) (fun s _ h => ?_) fun s r _ h => ?_) (fun _ _ h => h)
      (fun _ _ _ h => h.2) fun _ _ _ h => h
    · obtain ⟨⟨⟨hissued, hunused⟩, hins, -⟩, -⟩ := h
      have hc : CommitLegit py i s _ := .create p id hp.pending hp.unprocessed hins.locked
        hins.keyLocked hins.fresh hins.freshKey hissued hunused
      rw [hp.createdAt] at hc
      exact hc
    · refine ⟨p, ?_, .refl p⟩
      show ((s.db.writeAll (s.staged i)).payments).find? p.id = _
      rw [h.1.2.2]
      exact (Table.find?_insert (r := PaymentMapper.toModel p) h.1.2.1.fresh _).trans (if_pos rfl)
  rintro s hi ⟨⟨id, h⟩, hw⟩
  exact hcommit id s hi ⟨h, hw⟩

/-! ## Answering -/

theorem spec_getByKey (key : IdempotencyKey) :
    Spec py i (fun s => (s.Working py i ∧ s.KeyTaken key.value) ∧ s.staged i = [])
      (SqlPaymentRepository.getByIdempotencyKey key)
      (Ends (fun a s => ∃ p, a = some p ∧ s.Known p ∧ p.idempotencyKey = key)
        (Refused command)) := by
  have hfault : ∀ f s, Refused command (Fault.toExc f) s := fun f _ => .inl (isOutside_fault f)
  refine Spec.bind (A := fun row s => ∃ p, row = some (PaymentMapper.toModel p) ∧ s.Known p ∧
    p.idempotencyKey = key) (Spec.weaken (Spec.read (C := fun row s => ∃ p,
    row = some (PaymentMapper.toModel p) ∧ s.Known p ∧ p.idempotencyKey = key) rfl hfault
    (fun s _ h => req_of_working rfl h.1.1) ?_) (fun _ _ h => h) (fun _ _ _ h => h.2.2)
    fun _ _ _ h => h) fun row => ?_
  · intro a c s s₁ hi h he
    obtain ⟨⟨-, p, ⟨p', hp', hext⟩, hk⟩, hst⟩ := h
    simp only [effect, view, hst, Tables.writeAll_nil, Option.some.injEq, Prod.mk.injEq,
      Except.ok.injEq] at he
    have hrow : PaymentMapper.toModel p' ∈ s.db.payments.rows := Table.mem_of_find? hp'
    -- the row found by the key is the row of a payment with that key
    cases hf : s.db.payments.rows.find? (fun row => row.idempotencyKey = key.value) with
    | none =>
      refine absurd (List.find?_eq_none.1 hf _ hrow) (not_not.2 (decide_eq_true ?_))
      show p'.idempotencyKey.value = key.value
      rw [hext.idempotencyKey, hk]
    | some row =>
      obtain ⟨q, rfl, -, hq⟩ := payment_of_find? hi (Table.find?_key (List.mem_of_find?_eq_some hf))
      have hqk : q.idempotencyKey.value = key.value := by
        have h := List.find?_some 
          (p := fun row : PaymentModel => decide (row.idempotencyKey = key.value)) hf
        exact of_decide_eq_true h
      refine ⟨q, by rw [← he.1, hf], ⟨q, hq, .refl q⟩, ?_⟩
      have := IdempotencyKey.new_value q.idempotencyKey
      rw [hqk, IdempotencyKey.new_value] at this
      exact (Except.ok.inj this).symm
  · apply Spec.of_exists
    intro p
    have hpost : Spec py i (fun s => (s.Known p ∧ p.idempotencyKey = key) ∧
        row = some (PaymentMapper.toModel p)) (SqlPaymentRepository.toPayment row)
        (Ends (fun a s => ∃ p, a = some p ∧ s.Known p ∧ p.idempotencyKey = key)
          (Refused command)) := by
      apply Spec.of_pure
      intro hrow
      subst hrow
      refine Spec.bind (A := fun a s => a = p ∧ s.Known p ∧ p.idempotencyKey = key) ?_ fun a =>
        Spec.ret fun s _ h => ⟨p, by rw [h.1], h.2⟩
      refine Spec.orRaise (fun a s ha _ h => ?_) fun e s he _ _ => ?_
      · rw [PaymentMapper.toDomain_toModel] at ha
        exact ⟨(Except.ok.inj ha).symm, h⟩
      · rw [PaymentMapper.toDomain_toModel] at he
        cases he
    exact Discipline.Triple.pre hpost fun s _ h => ⟨h.2, h.1⟩

/-- **A duplicate is answered from the table.** -/
theorem runs_replay {money : Money} {key : IdempotencyKey}
    (hmoney : Money.new command.amount (.inr command.currency) = .ok money)
    (hkey : key.value = command.idempotencyKey) :
    Runs py i (fun s => s.Working py i ∧ s.KeyTaken key.value)
      (CreatePayment.replayExisting command money key) (Answered command)
      (Refused command) := by
  refine Runs.bind (Runs.withUow (fun s h => h.1.1)
    (fun f _ => .inl (isOutside_fault f)) (spec_getByKey key)) ?_
  intro existing
  refine Runs.pre (P := fun s => ∃ p, (s.Known p ∧ p.idempotencyKey = key) ∧ existing = some p)
    (Runs.of_exists fun p => Runs.of_pure fun he => ?_) fun s _ ⟨p, he, h⟩ => ⟨p, h, he⟩
  subst he
  have hmatch : ∀ {s : World}, (s.Known p ∧ p.idempotencyKey = key) →
      Matches command p (hasMatchingCreateInput p command money) := fun h =>
    ⟨by rw [h.2, hkey], money, hmoney, rfl⟩
  by_cases hm : hasMatchingCreateInput p command money = true
  · simp only [hm, Bool.not_true, Bool.false_eq_true, if_false]
    exact Runs.ret fun s _ h => ⟨p, h.1, rfl, by rw [← hm]; exact hmatch h⟩
  · rw [Bool.not_eq_true] at hm
    simp only [hm, Bool.not_false, if_true]
    refine Runs.bind (A := fun _ _ => False) (Runs.raise fun s _ h => .inr ⟨p, rfl, h.1, ?_⟩)
      fun _ => Runs.ret fun s _ h => h.elim
    rw [← hm]
    exact hmatch h

theorem money_ne_conflict {amount : Decimal} {currency : String} {e : Exc}
    (h : Money.new amount (.inr currency) = .error e) (id : Option UUID) :
    e ≠ .idempotencyConflict id := by
  unfold Money.new at h
  split at h
  · cases h; simp
  · cases h; simp
  · split_ifs at h
    · cases h; simp
    · cases h; simp
    · simp only [Currency.parse] at h
      split at h
      · rename_i he
        split at he
        · cases he
        · cases he
          cases h
          simp
      · cases h
    · cases h; simp

theorem key_ne_conflict {value : String} {e : Exc} (h : IdempotencyKey.new value = .error e)
    (id : Option UUID) : e ≠ .idempotencyConflict id := by
  unfold IdempotencyKey.new at h
  split_ifs at h <;> (cases h; simp)

theorem url_ne_conflict {value : String} {e : Exc} (h : webhookUrl py value = .error e)
    (id : Option UUID) : e ≠ .idempotencyConflict id := by
  unfold webhookUrl at h
  split at h
  · cases h; simp
  · split_ifs at h
    · cases h; simp
    · cases h; simp
    · cases h; simp
    · dsimp only at h
      split at h
      · cases h; simp
      · cases h

/-- What checking a command raises. -/
def Invalid (py : Platform) (command : CreatePaymentInput) (e : Exc) : Prop :=
  Money.new command.amount (.inr command.currency) = .error e ∨
  IdempotencyKey.new command.idempotencyKey = .error e ∨
  PaymentProcessing.webhookUrl py command.webhookUrl = .error e

theorem Invalid.ne_conflict {e : Exc} (h : Invalid py command e) (id : Option UUID) :
    e ≠ .idempotencyConflict id := by
  rcases h with h | h | h
  · exact money_ne_conflict h id
  · exact key_ne_conflict h id
  · exact url_ne_conflict h id

theorem runs_newPayment {E : Exc → World → Prop} [∀ e, (discipline py).Persistent (E e)]
    (hfault : ∀ f s, E (Fault.toExc f) s) (hinvalid : ∀ e s, Invalid py command e → E e s) :
    Runs py i (Working py i) (CreatePayment.newPayment py command)
      (fun a s => Requested command a.1 a.2 ∧ s.Working py i) E := by
  refine Runs.bind (A := fun money s =>
    Money.new command.amount (.inr command.currency) = .ok money ∧ s.Working py i)
    (Runs.orRaise (fun _ _ ha _ h => ⟨ha, h⟩)
      fun _ _ he _ _ => hinvalid _ _ (.inl he)) ?_
  intro money
  refine Runs.bind (A := fun key s => (Money.new command.amount (.inr command.currency) =
    .ok money ∧ key.value = command.idempotencyKey) ∧ s.Working py i)
    (Runs.orRaise (fun _ _ ha _ h => ⟨⟨h.1, IdempotencyKey.value_of_new ha⟩, h.2⟩)
      fun _ _ he _ _ => hinvalid _ _ (.inr (.inl he))) ?_
  intro key
  refine Runs.bind (A := fun url s => (Money.new command.amount (.inr command.currency) =
    .ok money ∧ key.value = command.idempotencyKey ∧ url = command.webhookUrl) ∧ s.Working py i)
    (Runs.orRaise (fun _ _ ha _ h => ⟨⟨h.1.1, h.1.2, eq_of_webhookUrl ha⟩, h.2⟩)
      fun _ _ he _ _ => hinvalid _ _ (.inr (.inr he))) ?_
  intro url
  apply Runs.bind (Runs.skip rfl hfault fun s _ h => req_of_working rfl h.2)
  intro now
  apply Runs.bind (Runs.skip rfl hfault fun s _ h => req_of_working rfl h.2)
  intro id
  exact Runs.ret fun s _ h => ⟨⟨rfl, rfl, rfl, h.1.2.1, h.1.1, rfl, rfl, h.1.2.2⟩, h.2⟩

/-- `CreatePayment` answers with a committed payment; what it raises is about the command, or is
refused. -/
theorem runs_createPayment_of {E : Exc → World → Prop}
    [∀ e, (discipline py).Persistent (E e)] (hrefused : ∀ e s, Refused command e s → E e s)
    (hinvalid : ∀ e s, Invalid py command e → E e s) :
    Runs py i (Working py i) (CreatePayment.execute py command) (Answered command) E := by
  refine Runs.bind (runs_newPayment (fun f s => hrefused _ s (.inl (isOutside_fault f))) hinvalid)
    ?_
  intro a
  obtain ⟨p, now⟩ := a
  refine Runs.pre (P := fun s => s.Working py i ∧ Requested command p now)
    (Runs.of_pure fun hp => ?_) fun _ _ h => ⟨h.2, h.1⟩
  refine Runs.bind (A := fun stored s => (stored = true → s.Known p) ∧
    (stored = false → s.Working py i ∧ s.KeyTaken p.idempotencyKey.value)) ?_ fun stored => ?_
  · refine Runs.tryCatch (E := fun e s => StoreError p.idempotencyKey.value e s ∧ s.Working py i)
      ?_ fun e => ?_
    · refine Runs.bind (Runs.weaken (Runs.frame (F := Working py i) (runs_store hp))
        (fun _ _ h => ⟨h, h⟩) (fun _ _ _ h => h) fun _ _ _ h => h) ?_
      intro _
      exact Runs.ret fun s _ h => ⟨fun _ => h.1, fun hf => by cases hf⟩
    · split
      · refine Runs.ret fun s _ h => ⟨(fun hf => by cases hf), fun _ => ⟨h.2, ?_⟩⟩
        rcases h.1 with (⟨f, hf⟩ | ⟨c, hc⟩) | ⟨-, hk⟩
        · cases f <;> cases hf
        · cases hc
        · exact hk
      · rename_i hne
        exact Runs.raise fun s _ h => hrefused _ s (.inl (h.1.resolve_right fun hd => hne hd.1))
  · cases stored with
    | true => exact Runs.ret fun s _ h => ⟨p, h.1 rfl, rfl, hp.matches⟩
    | false =>
      exact Runs.weaken (runs_replay hp.money hp.key) (fun s _ h => h.2 rfl) (fun _ _ _ h => h)
        fun e s _ h => hrefused e s h

/-- **`CreatePayment` answers with a committed payment, or raises a conflict with one.** -/
theorem runs_createPayment :
    Runs py i (Working py i) (CreatePayment.execute py command) (Answered command)
      (Conflicting command) :=
  runs_createPayment_of (fun _ _ h => h.conflicting) fun _ _ h => conflicting_of_ne h.ne_conflict

/-- A valid command is answered, or refused. -/
theorem runs_createPayment_valid (hvalid : ∀ e, ¬ Invalid py command e) :
    Runs py i (Working py i) (CreatePayment.execute py command) (Answered command)
      (Refused command) :=
  runs_createPayment_of (fun _ _ h => h) fun e _ h => absurd h (hvalid e)

/-! ## Reading -/

/-- **`GetPayment` answers with what is in the table.** -/
theorem runs_getPayment (id : UUID) :
    Runs py i (Working py i) (GetPayment.execute id)
      (fun output s => ∃ p, output = PaymentOutput.fromPayment p ∧ Reading id p s) anyExc := by
  refine Runs.withUow (fun s h => h.1) (fun _ _ => trivial) ?_
  refine Spec.bind (Spec.weaken (spec_get id) (fun _ _ h => h) (fun _ _ _ h => h)
    fun _ _ _ _ => trivial) ?_
  intro a
  cases a with
  | none => exact Spec.raise fun _ _ _ => trivial
  | some p => exact Spec.ret fun s _ h => ⟨p, rfl, h p rfl⟩

/-- What was raised is a fault of the outside. -/
def isFault (e : Exc) (_ : World) : Prop := ∃ f, e = Fault.toExc f

instance (e : Exc) : (discipline py).Persistent (isFault e) := ⟨fun _ _ _ h => h⟩

theorem isFault_fault (f : Fault) (s : World) : isFault f.toExc s := ⟨f, rfl⟩

theorem runs_getPayment_settled (p : Payment) :
    Runs py i (fun s => s.Working py i ∧ s.Settled p) (GetPayment.execute p.id)
      (fun output _ => output = PaymentOutput.fromPayment p) isFault := by
  refine Runs.withUow (fun s h => h.1.1) isFault_fault ?_
  refine Spec.bind (A := fun a _ => a = some p) (Spec.bind (A := fun a _ =>
    a = some (PaymentMapper.toModel p)) (Spec.weaken (Spec.read
    (C := fun a _ => a = some (PaymentMapper.toModel p)) rfl isFault_fault
    (fun s _ h => req_of_working rfl h.1.1) fun a c s s₁ _ h he => ?_) (fun _ _ h => h)
    (fun _ _ _ h => h.2.2) fun _ _ _ h => h) fun a => ?_) fun a => ?_
  · simp only [effect, view, h.2, Tables.writeAll_nil, Option.some.injEq, Prod.mk.injEq,
      Except.ok.injEq] at he
    exact he.1.symm.trans h.1.2.1
  · refine Discipline.Triple.pre (P := fun _ => True ∧ a = some (PaymentMapper.toModel p))
      (Spec.of_pure fun ha => ?_) fun _ _ h => ⟨trivial, h⟩
    subst ha
    refine Spec.bind (A := fun q _ => q = p) (Spec.orRaise (fun q s hq _ _ => ?_)
      fun e s he _ _ => ?_) fun q => Spec.ret fun _ _ h => congrArg some h
    · rw [PaymentMapper.toDomain_toModel] at hq
      exact (Except.ok.inj hq).symm
    · rw [PaymentMapper.toDomain_toModel] at he
      cases he
  · cases a with
    | none => exact Spec.raise fun _ _ h => by cases h
    | some q => exact Spec.ret fun s _ h => congrArg _ (Option.some.inj h)

end PaymentProcessing
