import PaymentProcessing.Protocol.Transactions

/-!
# Charging a payment

`ChargePayment` returns a payment whose completed row is in the table, and the gateway never
answers differently from its ledger.
-/

namespace PaymentProcessing

open Python Relational Concurrency World

variable {py : Platform} {i : Nat}

/-- Operations of which nothing more is asked. -/
def Op.isFree : Op → Bool
  | .commit | .selectClaimable .. | .publish .. | .post .. | .ack | .insertCharge _ => false
  | _ => true

theorem req_of_working {op : Op} {s : World} (hop : op.isFree = true) (h : s.Working py i) :
    Req py i op s := by
  refine ⟨h.1, fun _ => h.2, ?_⟩
  cases op <;> trivial

/-! ## The gateway -/

/-- The error `put_if_absent` raises when the row it lost against is gone. -/
def missingCharge (paymentId : UUID) : Exc :=
  .runtimeError ("gateway charge " ++ paymentId.str ++ " missing")

/-- Any exception but that one. -/
def notMissing (e : Exc) (_ : World) : Prop := ∀ id, e ≠ missingCharge id

instance (e : Exc) : (discipline py).Persistent (notMissing e) :=
  ⟨fun _ _ _ h => h⟩

theorem notMissing_fault (f : Fault) (s : World) : notMissing f.toExc s := by
  intro id
  cases f <;> simp [Fault.toExc, missingCharge]

theorem runs_cacheGet (id : UUID) :
    Runs py i (Working py i) (SqlGatewayResultCache.get id)
      (fun a s => ∀ r, a = some r → s.Charged id r.isSuccessful)
      notMissing := by
  have hread : Spec py i (fun s => s.Working py i ∧ s.staged i = []) (call (.getCharge id))
      (Ends (fun a s => ∀ row, a = some row → s.Charged id row.isSuccessful)
        notMissing) := by
    refine Spec.weaken (Spec.read (C := fun a s => ∀ row, a = some row →
        s.Charged id row.isSuccessful) rfl notMissing_fault
      (fun s _ h => req_of_working rfl h.1) ?_) (fun _ _ h => h) (fun a s _ h => h.2.2)
      fun e s _ h => h
    intro a c s s₁ _ h he row hrow
    subst hrow
    simp only [effect, view, h.2, Tables.writeAll_nil, Option.some.injEq, Prod.mk.injEq,
      Except.ok.injEq] at he
    exact ⟨row, he.1, rfl⟩
  refine Runs.withSession (fun s h => h.1) notMissing_fault ?_
  apply Spec.bind hread
  intro a
  cases a with
  | none => exact Spec.ret fun s _ _ r hr => by cases hr
  | some row =>
    apply Spec.ret
    intro s _ h r hr
    cases hr
    exact h row rfl

/-- What `put_if_absent` has ensured when it commits. -/
def ChargeReady (i : Nat) (id : UUID) (isSuccessful : Bool) (s : World) : Prop :=
  (∃ row : GatewayChargeModel, (s.staged i = [.insertCharge row] ∧ Chargeable i row.paymentId s) ∧
    row.paymentId = id ∧ row.isSuccessful = isSuccessful) ∨
  (s.staged i = [] ∧ s.Charged id isSuccessful)

instance (id : UUID) (b : Bool) : (discipline py).Stable i (ChargeReady i id b) :=
  inferInstanceAs ((discipline py).Stable i fun s =>
    (∃ row : GatewayChargeModel, (s.staged i = [.insertCharge row] ∧ Chargeable i row.paymentId s) ∧
      _ ∧ _) ∨ (s.staged i = [] ∧ s.Charged id b))

theorem spec_chargeCommit (id : UUID) (b : Bool) :
    Spec py i (fun s => ChargeReady i id b s ∧ s.Working py i) (call .commit)
      (Ends (fun _ s => s.Charged id b) notMissing) := by
  have hnew : ∀ row : GatewayChargeModel, row.paymentId = id → row.isSuccessful = b →
      Spec py i (fun s => (s.staged i = [.insertCharge row] ∧ Chargeable i row.paymentId s) ∧
        s.Working py i) (call .commit)
        (Ends (fun _ s => s.Charged id b) notMissing) := by
    rintro row rfl rfl
    refine Spec.weaken (Spec.commit (C := World.Charged row.paymentId row.isSuccessful)
      notMissing_fault (fun _ h => h.2) (fun _ h => h.1.1)
      (fun s _ h => .charge row h.1.2.1 h.1.2.2) fun s r _ h => ?_)
      (fun _ _ h => h) (fun _ _ _ h => h.2) fun _ _ _ h => h
    refine ⟨row, ?_, rfl⟩
    show ((s.db.writeAll (s.staged i)).charges).find? row.paymentId = some row
    rw [h.1.1]
    exact (Table.find?_insert h.1.2.2 _).trans (if_pos rfl)
  have hold : Spec py i (fun s => (s.staged i = [] ∧ s.Charged id b) ∧ s.Working py i)
      (call .commit) (Ends (fun _ s => s.Charged id b) notMissing) := by
    refine Spec.weaken (Spec.commit (C := World.Charged id b) notMissing_fault
      (fun _ h => h.2) (fun _ h => h.1.1) (fun _ _ _ => .nothing) fun s r _ h => ?_)
      (fun _ _ h => h) (fun _ _ _ h => h.2) fun _ _ _ h => h
    obtain ⟨⟨hs, row, hrow, hb⟩, -⟩ := h
    refine ⟨row, ?_, hb⟩
    show ((s.db.writeAll (s.staged i)).charges).find? id = some row
    rw [hs]
    exact hrow
  rintro s hi ⟨⟨row, hst, hid, hb⟩ | hst, hw⟩
  · exact hnew row hid hb s hi ⟨hst, hw⟩
  · exact hold s hi ⟨hst, hw⟩

theorem spec_insertCharge (row : GatewayChargeModel) :
    Spec py i (fun s => s.Working py i ∧ s.staged i = []) (call (.insertCharge row))
      (Ends (fun a s => (a = some row.isSuccessful ∧ ChargeReady i row.paymentId row.isSuccessful s) ∨
        (a = none ∧ s.staged i = [] ∧ ∃ b, s.Charged row.paymentId b))
        notMissing) := by
  refine Spec.call (fun s _ h => ⟨h.1.1, fun _ => h.1.2, h.2⟩) (fun a c s s' _ h hd _ => ?_)
    fun e c s s' _ _ hd _ => ?_
  · rcases insertCharge_ok h.2 hd with ⟨ha, hst, hc⟩ | h'
    · exact .inl ⟨ha, .inl ⟨row, ⟨hst, hc⟩, rfl, rfl⟩⟩
    · exact .inr h'
  · obtain ⟨f, rfl⟩ := exec_error (by simp) hd
    exact notMissing_fault f _

theorem runs_putIfAbsent (id : UUID) (result : GatewayResult) :
    Runs py i (Working py i) (SqlGatewayResultCache.putIfAbsent id result)
      (fun a s => s.Charged id a.isSuccessful) notMissing := by
  apply Runs.bind (Runs.skip rfl notMissing_fault fun s _ h => req_of_working rfl h)
  intro createdAt
  refine Runs.withSession (fun s h => h.1) notMissing_fault ?_
  refine spec_withBegin (C := fun a s => ChargeReady i id a.isSuccessful s ∧ s.Working py i)
    (fun s h => h.1) notMissing_fault ?_
    fun a => Discipline.Triple.pre (spec_chargeCommit id a.isSuccessful) fun _ _ h => h.1
  refine Spec.bind (Spec.weaken (Spec.frame (F := Working py i) (spec_insertCharge
    { paymentId := id, isSuccessful := result.isSuccessful, createdAt := createdAt }))
    (fun _ _ h => ⟨h, h.1⟩) (fun _ _ _ h => h) fun _ _ _ h => h.1) ?_
  intro inserted
  cases inserted with
  | some b =>
    refine Spec.ret fun s _ h => ⟨?_, h.2⟩
    rcases h.1 with ⟨hb, hr⟩ | ⟨hn, -⟩
    · cases hb
      exact hr
    · cases hn
  | none =>
    -- lost against a committed row, which is still there
    have hread : Spec py i (fun s => (s.staged i = [] ∧ ∃ b, s.Charged id b) ∧ s.Working py i)
        (call (.getCharge id)) (Ends (fun a s => (s.staged i = [] ∧ s.Working py i) ∧
          ∃ row, a = some row ∧ s.Charged id row.isSuccessful) notMissing) := by
      refine Spec.weaken (Spec.read (C := fun a s => ∃ row, a = some row ∧
          s.Charged id row.isSuccessful) rfl notMissing_fault
        (fun s _ h => req_of_working rfl h.2) ?_) (fun _ _ h => h)
        (fun a s _ h => ⟨⟨h.1.1.1, h.1.2⟩, h.2.2⟩) fun e s _ h => h
      intro a c s s₁ _ h he
      obtain ⟨⟨hs, b, row, hrow, hb⟩, -⟩ := h
      simp only [effect, view, hs, Tables.writeAll_nil, Option.some.injEq, Prod.mk.injEq,
        Except.ok.injEq] at he
      exact ⟨row, by rw [← he.1, hrow], row, hrow, rfl⟩
    refine Spec.bind (Discipline.Triple.pre hread fun s _ h => ⟨?_, h.2⟩) fun existing => ?_
    · rcases h.1 with ⟨hb, -⟩ | ⟨-, hr⟩
      · cases hb
      · exact hr
    · cases existing with
      | none => exact Spec.raise fun s _ h => by obtain ⟨-, row, hrow, -⟩ := h; cases hrow
      | some row =>
        apply Spec.ret
        intro s _ h
        obtain ⟨⟨hs, hw⟩, row', hrow, hc⟩ := h
        cases hrow
        exact ⟨.inr ⟨hs, hc⟩, hw⟩

/-- **The gateway answers what its ledger says.** -/
theorem runs_charge (payment : Payment) :
    Runs py i (Working py i) (RandomPaymentGateway.charge py payment)
      (fun a s => s.Charged payment.id a.isSuccessful) notMissing := by
  have hskip : ∀ {op : Op}, op.isRead = true → op.isFree = true →
      Runs py i (Working py i) (call op) (fun _ => Working py i) notMissing := fun hr hf =>
    Runs.skip hr notMissing_fault fun s _ h => req_of_working hf h
  refine Runs.bind (A := fun a s => (∀ r, a = some r → s.Charged payment.id r.isSuccessful) ∧
    s.Working py i) ?_ fun cached => ?_
  · exact Runs.weaken (Runs.frame (F := Working py i) (runs_cacheGet payment.id))
      (fun _ _ h => ⟨h, h⟩) (fun _ _ _ h => h) fun _ _ _ h => h.1
  · cases cached with
    | some r => exact Runs.ret fun s _ h => h.1 r rfl
    | none =>
      refine Runs.pre (P := Working py i) ?_ fun _ _ h => h.2
      refine Runs.bind (A := fun _ => Working py i) ?_ fun _ => ?_
      · exact Runs.bind (hskip rfl rfl) fun _ => hskip rfl rfl
      refine Runs.bind (A := fun _ => Working py i) ?_ fun _ => ?_
      · exact Runs.bind (hskip rfl rfl) fun _ => Runs.ret fun _ _ h => h
      exact runs_putIfAbsent _ _

/-! ## Loading -/

/-- What reading a payment tells. -/
def Reading (id : UUID) (p : Payment) (s : World) : Prop :=
  p.id = id ∧ s.Known p ∧ (p.isTerminal = true → s.Settled p)

instance (id : UUID) (p : Payment) : (discipline py).Persistent (Reading id p) :=
  inferInstanceAs ((discipline py).Persistent fun s => p.id = id ∧ s.Known p ∧
    (p.isTerminal = true → s.Settled p))

theorem reading_of_stored {p : Payment} {s : World} (h : s.Stored p) : Reading p.id p s :=
  ⟨rfl, ⟨p, h, .refl p⟩, fun ht => ⟨h, ht⟩⟩

theorem payment_of_find? {id : UUID} {row : PaymentModel} {s : World} (hi : Inv s)
    (h : s.db.payments.find? id = some row) :
    ∃ p, row = PaymentMapper.toModel p ∧ p.id = id ∧ s.Stored p := by
  obtain ⟨p, rfl, -⟩ := hi.payments id row h
  have hid : (PaymentMapper.toModel p).id = id := Table.key_of_find? h
  refine ⟨p, rfl, hid, ?_⟩
  rw [← hid] at h
  exact h

theorem spec_toPayment {id : UUID} (row : Option PaymentModel) :
    Spec py i (fun s => ∀ r, row = some r → ∃ p, r = PaymentMapper.toModel p ∧ Reading id p s)
      (SqlPaymentRepository.toPayment row)
      (Ends (fun a s => ∀ p, a = some p → Reading id p s) notMissing) := by
  cases row with
  | none => exact Spec.ret fun s _ _ p hp => by cases hp
  | some r =>
    have hpre : Spec py i (fun s => ∃ p, Reading id p s ∧ r = PaymentMapper.toModel p)
        (SqlPaymentRepository.toPayment (some r))
        (Ends (fun a s => ∀ p, a = some p → Reading id p s) notMissing) := by
      refine Spec.of_exists fun p => Spec.of_pure ?_
      intro hr
      subst hr
      refine Spec.bind (A := fun a s => a = p ∧ Reading id p s) ?_ fun a => ?_
      · refine Spec.orRaise (fun a s ha _ h => ?_) fun e s he _ _ => ?_
        · rw [PaymentMapper.toDomain_toModel] at ha
          cases ha
          exact ⟨rfl, h⟩
        · rw [PaymentMapper.toDomain_toModel] at he
          cases he
      · apply Spec.ret
        intro s _ h q hq
        cases hq
        rw [h.1]
        exact h.2
    apply Discipline.Triple.pre hpre
    intro s _ h
    obtain ⟨p, hp, hr⟩ := h r rfl
    exact ⟨p, hr, hp⟩

theorem spec_get (id : UUID) :
    Spec py i (fun s => s.Working py i ∧ s.staged i = []) (SqlPaymentRepository.get id)
      (Ends (fun a s => ∀ p, a = some p → Reading id p s) notMissing) := by
  refine Spec.bind (Spec.weaken (Spec.read (C := fun a s => ∀ r, a = some r →
    ∃ p, r = PaymentMapper.toModel p ∧ Reading id p s) rfl notMissing_fault
    (fun s _ h => req_of_working rfl h.1) ?_) (fun _ _ h => h) (fun _ _ _ h => h.2.2)
    fun _ _ _ h => h) fun a => spec_toPayment a
  intro a c s s₁ hi h he r hr
  subst hr
  simp only [effect, view, h.2, Tables.writeAll_nil, Option.some.injEq, Prod.mk.injEq,
    Except.ok.injEq] at he
  obtain ⟨p, hp, hid, hst⟩ := payment_of_find? hi he.1
  subst hid
  exact ⟨p, hp, reading_of_stored hst⟩

theorem runs_load (id : UUID) :
    Runs py i (Working py i) (ChargePayment.load id) (Reading id) notMissing := by
  refine Runs.withUow (fun s h => h.1) notMissing_fault ?_
  apply Spec.bind (spec_get id)
  intro a
  cases a with
  | none => exact Spec.raise fun s _ _ id => by simp [missingCharge]
  | some p => exact Spec.ret fun s _ h => h p rfl

/-! ## Completing -/

theorem spec_getForUpdate (id : UUID) :
    Spec py i (fun s => s.Working py i ∧ s.staged i = []) (SqlPaymentRepository.getForUpdate id)
      (Ends (fun a s => ∀ p, a = some p → p.id = id ∧
        PaymentLocked i id (PaymentMapper.toModel p) s ∧ s.staged i = []) notMissing) := by
  have hcall : Spec py i (fun s => s.Working py i ∧ s.staged i = [])
      (call (.selectPaymentForUpdate id))
      (Ends (fun a s => ∀ row, a = some row → PaymentLocked i id row s ∧ s.staged i = [])
        notMissing) := by
    refine Spec.call (fun s _ h => req_of_working rfl h.1) (fun a c s s' _ h hd _ row ha => ?_)
      fun e c s s' _ _ hd _ => ?_
    · subst ha
      obtain ⟨hst, hl⟩ := selectPaymentForUpdate_ok h.2 hd
      exact ⟨hl, hst⟩
    · obtain ⟨f, rfl⟩ := exec_error (by simp) hd
      exact notMissing_fault f s'
  apply Spec.bind hcall
  intro a
  cases a with
  | none => exact Spec.ret fun s _ _ p hp => by cases hp
  | some row =>
    have hrow : Spec py i (fun s => ∃ p, (PaymentLocked i id (PaymentMapper.toModel p) s ∧
        s.staged i = []) ∧ row = PaymentMapper.toModel p ∧ p.id = id)
        (SqlPaymentRepository.toPayment (some row))
        (Ends (fun a s => ∀ p, a = some p → p.id = id ∧
          PaymentLocked i id (PaymentMapper.toModel p) s ∧ s.staged i = []) notMissing) := by
      refine Spec.of_exists fun p => Spec.of_pure ?_
      intro hp
      obtain ⟨rfl, hid⟩ := hp
      refine Spec.bind (A := fun a s => a = p ∧ (PaymentLocked i id (PaymentMapper.toModel p) s ∧
        s.staged i = [])) ?_ fun a => ?_
      · refine Spec.orRaise (fun a s ha _ h => ?_) fun e s he _ _ => ?_
        · rw [PaymentMapper.toDomain_toModel] at ha
          cases ha
          exact ⟨rfl, h⟩
        · rw [PaymentMapper.toDomain_toModel] at he
          cases he
      · apply Spec.ret
        intro s _ h q hq
        cases hq
        rw [h.1]
        exact ⟨hid, h.2⟩
    apply Discipline.Triple.pre hrow
    intro s hi h
    obtain ⟨hl, hst⟩ := h row rfl
    obtain ⟨p, rfl, hid, -⟩ := payment_of_find? hi hl.2
    exact ⟨p, ⟨hl, hst⟩, rfl, hid⟩

/-- A pending payment is completed as the gateway says. -/
theorem settle_pending {p : Payment} (hp : p.status = .pending) (result : GatewayResult)
    (now : Time) :
    ChargePayment.settle p result now = .ok (p.completed result.isSuccessful now) := by
  unfold ChargePayment.settle
  split
  · rename_i h
    rw [h]
    exact Payment.complete_pending hp rfl
  · rename_i h
    rw [Bool.not_eq_true] at h
    rw [h]
    exact Payment.complete_pending hp rfl

theorem spec_save {p q : Payment} (hid : q.id = p.id) :
    Spec py i (fun s => s.Working py i ∧ PaymentLocked i p.id (PaymentMapper.toModel p) s ∧
        s.staged i = []) (SqlPaymentRepository.save q)
      (Ends (fun _ s => PaymentLocked i p.id (PaymentMapper.toModel p) s ∧
        s.staged i = [.updatePayment (PaymentMapper.toModel q)]) notMissing) := by
  refine Spec.bind (A := fun a s => (s.Working py i ∧
    PaymentLocked i p.id (PaymentMapper.toModel p) s ∧ s.staged i = []) ∧
    a = some (PaymentMapper.toModel p)) (Spec.weaken (Spec.read
    (C := fun a _ => a = some (PaymentMapper.toModel p)) rfl notMissing_fault
    (fun s _ h => req_of_working rfl h.1) ?_) (fun _ _ h => h) (fun _ _ _ h => ⟨h.1, h.2.2⟩)
    fun _ _ _ h => h) fun a => ?_
  · intro a c s s₁ _ h he
    simp only [effect, view, h.2.2, Tables.writeAll_nil, Option.some.injEq, Prod.mk.injEq,
      Except.ok.injEq] at he
    rw [← he.1, hid]
    exact h.2.1.2
  · apply Spec.of_pure
    intro ha
    subst ha
    show Spec py i _ (call (.updatePayment (PaymentMapper.apply (PaymentMapper.toModel p) q))) _
    rw [PaymentMapper.apply_eq_toModel (m := PaymentMapper.toModel p) hid.symm]
    refine Spec.call (fun s _ h => req_of_working rfl h.1) (fun a c s s' _ h hd _ => ?_)
      fun e c s s' _ _ hd _ => ?_
    · obtain ⟨hst, hl⟩ := updatePayment_ok h.2.2 h.2.1 hd
      exact ⟨hl, hst⟩
    · obtain ⟨f, rfl⟩ := exec_error (by simp) hd
      exact notMissing_fault f s'

/-- The commit of a completed payment. -/
theorem spec_completeCommit {p : Payment} (hp : p.status = .pending) (b : Bool) (now : Time) :
    Spec py i (fun s => (PaymentLocked i p.id (PaymentMapper.toModel p) s ∧
        s.staged i = [.updatePayment (PaymentMapper.toModel (p.completed b now))]) ∧
        s.Working py i ∧ s.Charged p.id b) (call .commit)
      (Ends (fun _ s => s.Settled (p.completed b now)) notMissing) := by
  refine Spec.weaken (Spec.commit (C := Settled (p.completed b now)) notMissing_fault
    (fun _ h => h.2.1) (fun _ h => h.1.2)
    (fun s _ h => .complete p b now hp h.1.1.2 h.2.2 h.1.1.1) fun s r _ h => ?_)
    (fun _ _ h => h) (fun _ _ _ h => h.2) fun _ _ _ h => h
  refine ⟨?_, ?_⟩
  · show ((s.db.writeAll (s.staged i)).payments).find? p.id = _
    rw [h.1.2]
    have hrow : s.db.payments.find? p.id = some (PaymentMapper.toModel p) := h.1.1.2
    refine (Table.find?_replace _ _ _).trans ?_
    rw [hrow]
    exact if_pos rfl
  · cases b <;> rfl

/-- **A payment is completed as its charge says, and its row is what is returned.** -/
theorem runs_complete (payment : Payment) (result : GatewayResult) :
    Runs py i (fun s => s.Working py i ∧ s.Charged payment.id result.isSuccessful)
      (ChargePayment.complete payment result)
      (fun p s => p.id = payment.id ∧ s.Settled p) notMissing := by
  refine Runs.withUow (fun s h => h.1.1) notMissing_fault ?_
  refine Spec.bind (Spec.weaken (Spec.frame (F := fun s => s.Working py i ∧
    s.Charged payment.id result.isSuccessful) (spec_getForUpdate payment.id))
    (fun s _ h => ⟨⟨h.1.1, h.2⟩, h.1⟩) (fun _ _ _ h => h) fun _ _ _ h => h.1) ?_
  intro a
  cases a with
  | none => exact Spec.raise fun s _ _ id => by simp [missingCharge]
  | some p =>
    refine Discipline.Triple.pre (P := fun s => ((s.Working py i ∧
      PaymentLocked i p.id (PaymentMapper.toModel p) s ∧ s.staged i = []) ∧
      s.Working py i ∧ s.Charged p.id result.isSuccessful) ∧ p.id = payment.id) ?_
      fun s _ h => ?_
    · apply Spec.of_pure
      intro hid
      by_cases ht : p.isTerminal = true
      · simp only [ht, Bool.not_true, Bool.false_eq_true, if_false]
        exact Spec.ret fun s _ h => ⟨hid, h.1.2.1.2, ht⟩
      · have hp : p.status = .pending := by
          by_contra hne
          exact ht (PaymentStatus.isTerminal_iff.2 hne)
        have ht' : p.isTerminal = false := by simpa using ht
        simp only [ht', Bool.not_false, if_true]
        apply Spec.bind (Spec.skip rfl notMissing_fault fun s _ h => req_of_working rfl h.1.1)
        intro now
        rw [settle_pending hp]
        refine Spec.bind (A := fun a s => ((s.Working py i ∧
          PaymentLocked i p.id (PaymentMapper.toModel p) s ∧ s.staged i = []) ∧
          s.Working py i ∧ s.Charged p.id result.isSuccessful) ∧
          a = p.completed result.isSuccessful now) ?_ fun a => Spec.of_pure fun ha => ?_
        · exact Spec.orRaise (fun a s ha _ h => ⟨h, (Except.ok.inj ha).symm⟩)
            fun e s he _ _ => by cases he
        · subst ha
          refine Spec.bind (Spec.weaken (Spec.frame (F := fun s => s.Working py i ∧
            s.Charged p.id result.isSuccessful)
            (spec_save (p := p) (q := p.completed result.isSuccessful now) rfl)) (fun _ _ h => h)
            (fun _ _ _ h => h) fun _ _ _ h => h.1) ?_
          intro _
          apply Spec.bind (spec_completeCommit hp result.isSuccessful now)
          intro _
          exact Spec.ret fun s _ h => ⟨hid, h⟩
    · obtain ⟨hid, hl, hst⟩ := h.1 p rfl
      rw [← hid] at hl
      exact ⟨⟨⟨h.2.1, hl, hst⟩, h.2.1, by rw [hid]; exact h.2.2⟩, hid⟩

/-- **Charging a payment returns it completed, as its committed row is.** -/
theorem runs_chargePayment (id : UUID) :
    Runs py i (Working py i) (ChargePayment.execute py id)
      (fun p s => p.id = id ∧ s.Settled p) notMissing := by
  refine Runs.bind (Runs.weaken (Runs.frame (F := Working py i) (runs_load id))
    (fun _ _ h => ⟨h, h⟩) (fun _ _ _ h => h) fun _ _ _ h => h.1) ?_
  intro p
  by_cases ht : p.isTerminal = true
  · simp only [ht, if_true]
    exact Runs.ret fun s _ h => ⟨h.1.1, h.1.2.2 ht⟩
  · simp only [ht, Bool.false_eq_true, if_false]
    refine Runs.pre (P := fun s => s.Working py i ∧ p.id = id) (Runs.of_pure fun hid => ?_)
      fun s _ h => ⟨h.2, h.1.1⟩
    subst hid
    refine Runs.bind (A := fun r s => s.Working py i ∧ s.Charged p.id r.isSuccessful)
      (Runs.weaken (Runs.frame (F := Working py i) (runs_charge p)) (fun _ _ h => ⟨h, h⟩)
        (fun _ _ _ h => ⟨h.2, h.1⟩) fun _ _ _ h => h.1) ?_
    intro result
    exact runs_complete p result

end PaymentProcessing
