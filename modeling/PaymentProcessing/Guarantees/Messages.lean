import PaymentProcessing.Guarantees.Creation
import PaymentProcessing.Guarantees.Outbox
import PaymentProcessing.Protocol.Queues

/-!
# Every message resolves

A message is the event of an outbox row that a relay had claimed, or a copy of one with other
headers. Its body leads back to the payment that was committed with the row, whatever its headers
are, and that payment is in the table when a consumer looks for it.
-/

namespace PaymentProcessing

open Python Relational Concurrency World

variable {py : Platform} {A : Allowed} {i : Nat} {s : World} {y y' : Config}

/-! ## Payments and their events -/

namespace World

/-- The payment and the outbox row with this id were committed in one transaction. -/
def CreatedWith (p : Payment) (id : UUID) (s : World) : Prop :=
  ∃ i ws, s.Logged (.committed i ws) ∧ IsCreation p id ws

end World

instance (p : Payment) (id : UUID) : (discipline py).Persistent (CreatedWith p id) :=
  inferInstanceAs ((discipline py).Persistent fun s => ∃ i ws, s.Logged (.committed i ws) ∧ _)

theorem IsCreation.unique {p q : Payment} {id id' : UUID} {ws : List Write}
    (h : IsCreation p id ws) (h' : IsCreation q id' ws) : p = q := by
  have he := h.symm.trans h'
  simp only [List.cons.injEq, Write.insertPayment.injEq] at he
  exact PaymentMapper.toModel_injective he.1

theorem created_of_emitted (h : Reachable py A y) {event : OutboxModel}
    (he : y.state.Emitted event) : ∃ p, y.state.CreatedWith p event.id ∧
      event.payload = CreatePayment.createdPayload p.id := by
  obtain ⟨i, ws, hw, hevent⟩ := he
  obtain ⟨p, id, hws⟩ := creation_atomic h i ws hw (.inr ⟨event, hevent⟩)
  have hev : event = createdEvent id p.id p.createdAt := by
    rw [IsCreation] at hws
    subst hws
    simpa using hevent
  subst hev
  exact ⟨p, ⟨i, ws, hw, hws⟩, rfl⟩

theorem created_known (h : Reachable py A y) {p : Payment} {id : UUID}
    (hc : y.state.CreatedWith p id) : y.state.Known p := by
  obtain ⟨i, ws, hw, hws⟩ := hc
  obtain ⟨q, hq, -, -, hk⟩ := inserted_row h (PaymentMapper.toModel p)
    ⟨i, ws, hw, by rw [hws]; exact List.mem_cons_self ..⟩
  obtain rfl := PaymentMapper.toModel_injective hq
  exact hk

/-- The id of an outbox row is for one payment. -/
theorem created_unique (h : Reachable py A y) : ∀ p q id, y.state.CreatedWith p id →
    y.state.CreatedWith q id → p = q := by
  refine h.tables (P := fun s => ∀ p q id, s.CreatedWith p id → s.CreatedWith q id → p = q)
    (fun _ _ _ _ ⟨_, _, hw, _⟩ => by cases hw) (fun s s' _ _ hback hP p q id hp hq => ?_)
    fun i s r hi hc hP p q id hp hq => ?_
  · obtain ⟨j, ws, hw, hws⟩ := hp
    obtain ⟨j', ws', hw', hws'⟩ := hq
    exact hP p q id ⟨j, ws, hback _ _ hw, hws⟩ ⟨j', ws', hback _ _ hw', hws'⟩
  · -- a new creation is under an id that was not used
    have hclash : ∀ {p q : Payment}, IsCreation p id (s.staged i) → ¬ s.CreatedWith q id := by
      rintro p q hws ⟨j, ws, hw, hold⟩
      have hevent : Write.insertOutbox (createdEvent id p.id p.createdAt) ∈ s.staged i := by
        rw [hws]
        simp
      obtain ⟨p', id', hws', -, -, hunused⟩ := hc.event_cases hevent
      have hid : id' = id := by
        have he := hws'.symm.trans hws
        simp only [List.cons.injEq, Write.insertOutbox.injEq, and_true] at he
        exact congrArg OutboxModel.id he.2
      subst hid
      exact hunused ⟨j, ws, createdEvent id' q.id q.createdAt, hw, by rw [hold]; simp, rfl⟩
    obtain ⟨j, ws, hw, hws⟩ := hp
    obtain ⟨j', ws', hw', hws'⟩ := hq
    rcases committed_commit.1 hw with ⟨-, rfl⟩ | hw
    · rcases committed_commit.1 hw' with ⟨-, rfl⟩ | hw'
      · exact hws.unique hws'
      · exact absurd ⟨j', ws', hw', hws'⟩ (hclash hws)
    · rcases committed_commit.1 hw' with ⟨-, rfl⟩ | hw'
      · exact absurd ⟨j, ws, hw, hws⟩ (hclash hws')
      · exact hP p q id ⟨j, ws, hw, hws⟩ ⟨j', ws', hw', hws'⟩

/-! ## Rows and their events -/

/-- Every outbox row has the payload of the event that was committed under its id. -/
theorem row_emitted (h : Reachable py A y) : ∀ id row, y.state.db.outbox.find? id = some row →
    ∃ event, y.state.Emitted event ∧ event.id = id ∧ row.payload = event.payload := by
  refine h.tables (P := fun s => ∀ id row, s.db.outbox.find? id = some row →
    ∃ event, s.Emitted event ∧ event.id = id ∧ row.payload = event.payload)
    (fun _ _ _ h => by cases h) (fun s s' hdb hlog _ hP id row hrow => ?_)
    fun i s r hi hc hP id row hrow => ?_
  · rw [hdb] at hrow
    obtain ⟨event, ⟨j, ws, hw, hin⟩, hrest⟩ := hP id row hrow
    exact ⟨event, ⟨j, ws, hlog.subset hw, hin⟩, hrest⟩
  · rcases Tables.writeAll_outbox_cases s.db (s.staged i) hrow with ⟨row₀, hrow₀, hp⟩ |
      ⟨event, hevent, hid, hp⟩
    · obtain ⟨event, ⟨j, ws, hw, hin⟩, hid, hp₀⟩ := hP id row₀ hrow₀
      exact ⟨event, ⟨j, ws, committed_commit.2 (.inr hw), hin⟩, hid, hp.trans hp₀⟩
    · exact ⟨event, ⟨i, _, committed_commit.2 (.inl ⟨rfl, rfl⟩), hevent⟩, hid, hp⟩

theorem claimed_emitted (h : Reachable py A y) : ∀ i row now, y.state.Claimed i row now →
    ∃ event, y.state.Emitted event ∧ event.id = row.id ∧ row.payload = event.payload := by
  refine h.invariant (P := fun y => ∀ i row now, y.state.Claimed i row now →
    ∃ event, y.state.Emitted event ∧ event.id = row.id ∧ row.payload = event.payload)
    (fun _ _ _ _ hc => by obtain ⟨_, ⟨_, _, hd⟩, _⟩ := hc; cases hd) ?_
  intro y y' a hr _ hP _ hl i row now hc
  have hold : (∃ event, y.state.Emitted event ∧ event.id = row.id ∧ row.payload = event.payload) →
      ∃ event, y'.state.Emitted event ∧ event.id = row.id ∧ row.payload = event.payload := by
    rintro ⟨event, ⟨j, ws, hw, hin⟩, hrest⟩
    exact ⟨event, ⟨j, ws, (hl.evolves (sound py) hr.inv).log.subset hw, hin⟩, hrest⟩
  rcases hl.claimed hr hc with hc | ⟨-, hclaims⟩
  · exact hold (hP i row now hc)
  · exact hold (row_emitted hr row.id row hclaims.current)

/-- **A claimed row is the row of one payment's creation.** -/
theorem claimed_created (h : Reachable py A y) {row : OutboxModel} {now : Time}
    (hc : y.state.Claimed i row now) : ∃ p, y.state.CreatedWith p row.id ∧
      row.payload = CreatePayment.createdPayload p.id := by
  obtain ⟨event, he, hid, hp⟩ := claimed_emitted h i row now hc
  obtain ⟨p, hcreated, hpayload⟩ := created_of_emitted h he
  rw [hid] at hcreated
  exact ⟨p, hcreated, hp.trans hpayload⟩

/-! ## Messages -/

namespace World

/-- A relay published the event of `row`, which it had claimed, with this body. -/
def Relayed (py : Platform) (row : OutboxModel) (body : List (String × Json)) (s : World) : Prop :=
  ∃ i claimedAt headers expiration r, s.Claimed i row claimedAt ∧
    OutboxEventCodec.encode py (OutboxMapper.toClaimedRecord row claimedAt) = .ok (body, headers) ∧
      s.Did i (.publish .new body headers expiration) r

end World

instance (row : OutboxModel) (body : List (String × Json)) :
    (discipline py).Persistent (Relayed py row body) :=
  inferInstanceAs ((discipline py).Persistent fun s => ∃ i claimedAt headers
    expiration r, s.Claimed i row claimedAt ∧ _ ∧ s.Did i (.publish .new body headers expiration) r)

/-- The body names these two ids, whatever the headers are. -/
def Resolves (py : Platform) (body : List (String × Json)) (paymentId outboxId : UUID) : Prop :=
  InboundPaymentMessage.parsePaymentId py body = .ok paymentId ∧
    ∀ headers, InboundPaymentMessage.parseOutboxId py ⟨body, headers⟩ = some outboxId

/-- **What is published resolves**: the envelope of a record names its row and its payment. -/
theorem resolves_envelope (py : Platform) (record : OutboxRecord) (paymentId : UUID)
    (h : record.payload = CreatePayment.createdPayload paymentId) :
    Resolves py (OutboxEventCodec.envelope record) paymentId record.id := by
  refine ⟨?_, fun headers => OutboxEventCodec.extractOutboxId_envelope py record (some headers)⟩
  unfold InboundPaymentMessage.parsePaymentId
  rw [OutboxEventCodec.extractPaymentId_envelope py record paymentId h]
  simp only [UUID.ofText_str]

/-- **A relayed message resolves** to the payment that was committed with the row, which is in the
table. -/
theorem relayed_resolves (h : Reachable py A y) {row : OutboxModel} {body : List (String × Json)}
    (hm : y.state.Relayed py row body) : ∃ p, y.state.CreatedWith p row.id ∧
      Resolves py body p.id row.id ∧ y.state.Known p := by
  obtain ⟨i, claimedAt, headers, -, -, hc, henc, -⟩ := hm
  obtain ⟨p, hcreated, hpayload⟩ := claimed_created h hc
  obtain ⟨rfl, -⟩ := OutboxEventCodec.encode_eq henc
  exact ⟨p, hcreated, resolves_envelope py (OutboxMapper.toClaimedRecord row claimedAt) p.id hpayload,
    created_known h hcreated⟩

/-- **Every message that was ever sent is a relayed one**, or a copy of one with other headers. -/
theorem sent_relayed (h : Reachable py A y) : ∀ msg, y.state.Sent msg →
    ∃ row, y.state.Relayed py row msg.body := by
  refine h.invariant (P := fun y => ∀ msg, y.state.Sent msg →
    ∃ row, y.state.Relayed py row msg.body)
    (fun _ _ ⟨_, _, _, _, hd⟩ => by cases hd) ?_
  intro y y' a hr _ hP _ hl msg hs
  have hold : ∀ msg, y.state.Sent msg → ∃ row, y'.state.Relayed py row msg.body := by
    intro msg hs
    obtain ⟨row, hrow⟩ := hP msg hs
    exact ⟨row, hl.persistent hr hrow⟩
  obtain ⟨i, key, expiration, r, hd⟩ := hs
  rcases hl.did hd with hd' | ⟨⟨-, -, hreq⟩, -⟩
  · exact hold msg ⟨i, key, expiration, r, hd'⟩
  · generalize hbody : msg.body = body at hreq hd ⊢
    generalize hheaders : msg.headers = headers at hreq hd
    cases hreq with
    | event row claimedAt body headers claimed unreleased encoded =>
      have hclaimed : y'.state.Claimed i row claimedAt := hl.persistent hr claimed
      exact ⟨row, i, claimedAt, headers, expiration, r, hclaimed, encoded, hd⟩
    | dlq msg₀ delivered => exact hold msg₀ ((messages_sent hr).2 i msg₀ delivered)
    | retry msg₀ count delivered => exact hold msg₀ ((messages_sent hr).2 i msg₀ delivered)

/-- One outbox id goes with one payment id. -/
theorem sent_agree (h : Reachable py A y) {msg msg' : Message} (hs : y.state.Sent msg)
    (hs' : y.state.Sent msg') (hid : InboundPaymentMessage.parseOutboxId py msg =
      InboundPaymentMessage.parseOutboxId py msg') :
    InboundPaymentMessage.parsePaymentId py msg.body =
      InboundPaymentMessage.parsePaymentId py msg'.body := by
  obtain ⟨row, hrow⟩ := sent_relayed h msg hs
  obtain ⟨row', hrow'⟩ := sent_relayed h msg' hs'
  obtain ⟨p, hc, hres, -⟩ := relayed_resolves h hrow
  obtain ⟨p', hc', hres', -⟩ := relayed_resolves h hrow'
  have hids : some row.id = some row'.id :=
    (hres.2 msg.headers).symm.trans (hid.trans (hres'.2 msg'.headers))
  rw [← Option.some.inj hids] at hc'
  rw [hres.1, hres'.1, created_unique h p p' row.id hc hc']

/-! ## Payments that are looked for -/

/-- The program looks for no payment but this one, and inserts none. -/
def Op.looksFor (paymentId : UUID) : Op → Prop
  | .getPayment id | .selectPaymentForUpdate id => id = paymentId
  | .insertPayment _ => False
  | _ => True

/-- The payment that is looked for is found. -/
def Finds : (op : Op) → Except Exc (Res op) → Prop
  | _, .error e => ∀ id, e ≠ .paymentNotFound id
  | .getPayment id, .ok row => ∃ found, row = some found ∧ found.id = id
  | .selectPaymentForUpdate id, .ok row => ∃ found, row = some found ∧ found.id = id
  | _, .ok _ => True

/-- The outcome is `A`, or an exception other than `PaymentNotFound`. -/
def NotLost {α : Type} (A : α → Prop) : Except Exc α → Prop
  | .ok a => A a
  | .error e => ∀ id, e ≠ .paymentNotFound id

section Given

variable {paymentId : UUID} {α : Type}

theorem given_call {op : Op} {B : Res op → Prop} (hop : op.looksFor paymentId)
    (h : ∀ a, Finds op (.ok a) → B a) :
    (call op).Given Finds (Op.looksFor paymentId) (NotLost B) := by
  apply Prog.given_perform hop
  intro r hr
  cases r with
  | ok a => exact h a hr
  | error e => cases op <;> exact hr

theorem given_withUow {body : App α} {B : α → Prop}
    (h : body.Given Finds (Op.looksFor paymentId) (NotLost B)) :
    (withUow body).Given Finds (Op.looksFor paymentId) (NotLost B) := by
  have hcall : ∀ op : Op, op.looksFor paymentId →
      (call op).Given Finds (Op.looksFor paymentId) (NotLost fun _ => True) := fun op hop =>
    given_call hop fun _ _ => trivial
  refine .bind (Q := NotLost B) ?_ (fun a ha => ?_) fun e he => he
  · refine .tryCatch h (fun a ha => ha) ?_
    intro e he
    refine .bind (hcall .rollback trivial) (fun _ _ => ?_) fun e' he' => he'
    exact .bind (hcall .close trivial) (fun _ _ => he) fun e' he' => he'
  · exact .bind (hcall .close trivial) (fun _ _ => ha) fun e he => he

theorem NotLost.bind {β : Type} {B : α → Prop} {C : β → Prop} {x : Except Exc α}
    {f : α → Except Exc β} (h : NotLost B x) (hf : ∀ a, B a → NotLost C (f a)) :
    NotLost C (x >>= f) := by
  cases x with
  | ok a => exact hf a h
  | error e => exact h

/-- Reading a row raises no `PaymentNotFound`. -/
theorem toDomain_notLost (row : PaymentModel) :
    NotLost (fun p => p.id = row.id) (PaymentMapper.toDomain row) := by
  have hcurrency : NotLost (fun _ => True) (Currency.ofValue row.currency) := by
    unfold Currency.ofValue
    split_ifs <;> simp [NotLost]
  have hmoney : ∀ currency, NotLost (fun _ => True) (Money.new row.amount (.inl currency)) := by
    intro currency
    unfold Money.new
    split
    · simp [NotLost]
    · simp [NotLost]
    · split_ifs <;> simp [NotLost]
  have hstatus : NotLost (fun _ => True) (PaymentStatus.ofValue row.status) := by
    unfold PaymentStatus.ofValue
    split_ifs <;> simp [NotLost]
  have hkey : NotLost (fun _ => True) (IdempotencyKey.new row.idempotencyKey) := by
    unfold IdempotencyKey.new
    split_ifs <;> simp [NotLost]
  refine hcurrency.bind fun currency _ => (hmoney currency).bind ?_
  intro money _
  exact hstatus.bind fun status _ => hkey.bind fun key _ => rfl

theorem given_toPayment (row : PaymentModel) (hid : row.id = paymentId) :
    (SqlPaymentRepository.toPayment (some row)).Given Finds (Op.looksFor paymentId)
      (NotLost fun a => ∃ p, a = some p ∧ p.id = paymentId) := by
  refine .bind (Prog.given_ofExcept (toDomain_notLost row)) (fun p hp => ?_) fun e he => he
  exact ⟨p, rfl, Eq.trans hp hid⟩

theorem given_find (op : Op) (hop : op.looksFor paymentId) {read : Res op → App (Option Payment)}
    (hread : ∀ row, Finds op (.ok row) → ∃ found, found.id = paymentId ∧
      read row = SqlPaymentRepository.toPayment (some found)) :
    ((call op).bind read).Given Finds (Op.looksFor paymentId)
      (NotLost fun a => ∃ p, a = some p ∧ p.id = paymentId) := by
  refine .bind (given_call hop fun row h => hread row h) (fun row h => ?_) fun e he => he
  obtain ⟨found, hid, hrow⟩ := h
  rw [hrow]
  exact given_toPayment found hid

/-- **`_load` finds its payment** as long as the table has it. -/
theorem given_load (paymentId : UUID) :
    (ChargePayment.load paymentId).Given Finds (Op.looksFor paymentId)
      (NotLost fun p => p.id = paymentId) := by
  have hget : (SqlPaymentRepository.get paymentId).Given Finds (Op.looksFor paymentId)
      (NotLost fun a => ∃ p, a = some p ∧ p.id = paymentId) :=
    given_find (.getPayment paymentId) rfl fun row h => by
      obtain ⟨found, rfl, hid⟩ := h
      exact ⟨found, hid, rfl⟩
  refine given_withUow (.bind hget (fun a ha => ?_) fun e he => he)
  obtain ⟨p, rfl, hid⟩ := ha
  exact hid

theorem given_save (p : Payment) (hid : p.id = paymentId) :
    (SqlPaymentRepository.save p).Given Finds (Op.looksFor paymentId) (NotLost fun _ => True) := by
  have hcall : (call (.getPayment p.id)).Given Finds (Op.looksFor paymentId)
      (NotLost fun row => ∃ found, row = some found ∧ found.id = p.id) := given_call hid fun _ h => h
  refine .bind hcall (fun row h => ?_) fun e he => he
  obtain ⟨found, rfl, -⟩ := h
  exact given_call trivial fun _ _ => trivial

/-- **`_complete` finds its payment** as long as the table has it. -/
theorem given_complete (payment : Payment) (result : GatewayResult) :
    (ChargePayment.complete payment result).Given Finds (Op.looksFor payment.id)
      (NotLost fun p => p.id = payment.id) := by
  have hget : (SqlPaymentRepository.getForUpdate payment.id).Given Finds (Op.looksFor payment.id)
      (NotLost fun a => ∃ p, a = some p ∧ p.id = payment.id) :=
    given_find (.selectPaymentForUpdate payment.id) rfl fun row h => by
      obtain ⟨found, rfl, hid⟩ := h
      exact ⟨found, hid, rfl⟩
  refine given_withUow (.bind hget (fun a ha => ?_) fun e he => he)
  obtain ⟨p, rfl, hid⟩ := ha
  by_cases ht : p.isTerminal = true
  · simp only [ht, Bool.not_true, Bool.false_eq_true, if_false]
    exact hid
  · have hp : p.status = .pending := by
      by_contra hne
      exact ht (PaymentStatus.isTerminal_iff.2 hne)
    have ht' : p.isTerminal = false := by simpa using ht
    simp only [ht', Bool.not_false, if_true]
    refine .bind (given_call trivial fun _ _ => trivial) (fun now _ => ?_) fun e he => he
    rw [settle_pending hp]
    refine .bind (Q := NotLost fun q => q = p.completed result.isSuccessful now) rfl
      (fun q hq => ?_) fun e he => he
    subst hq
    refine .bind (given_save (p.completed result.isSuccessful now) hid) (fun _ _ => ?_)
      fun e he => he
    exact .bind (given_call trivial fun _ _ => trivial) (fun _ _ => hid) fun e he => he

/-- A consumer looks for no payment but the one its message names. -/
theorem given_dispatch (msg : Message)
    (hid : InboundPaymentMessage.parsePaymentId py msg.body = .ok paymentId) :
    (PaymentMessageDispatcher.dispatch py msg).Given Finds (Op.looksFor paymentId)
      fun _ => True := by
  have hcall : ∀ op : Op, op.looksFor paymentId → (call op).Only (Op.looksFor paymentId) :=
    fun op hop => only_call hop
  have hdup : ∀ messageId : Option UUID,
      (ProcessPayment.isDuplicate messageId).Only (Op.looksFor paymentId) := by
    intro messageId
    cases messageId with
    | none => trivial
    | some m => exact only_withUow trivial trivial (.bind (hcall _ trivial) fun _ => trivial)
  have hcharge : (ChargePayment.execute py paymentId).Given Finds (Op.looksFor paymentId)
      fun _ => True := by
    refine .bind (given_load paymentId) (fun p hp => ?_) fun _ _ => trivial
    split
    · trivial
    · refine .bind (Prog.Only.given (.mono (fun op hop => ?_) (only_gateway p)))
        (fun result _ => ?_) fun _ _ => trivial
      · cases op <;> trivial
      · subst hp
        exact (given_complete p result).mono fun _ _ => trivial
  have hsend : ∀ p, (DeliverWebhook.execute py p).Only (Op.looksFor paymentId) := by
    intro p
    refine .bind (Prog.only_ofExcept _) fun _ => .bind (.tryCatch (hcall _ trivial) fun e => ?_)
      fun status => Prog.only_ofExcept _
    split <;> trivial
  have hremember : ∀ m, (ProcessedMessageInbox.remember m).Only (Op.looksFor paymentId) :=
    fun m => only_withUow trivial trivial (.bind (hcall _ trivial) fun _ =>
      .bind (hcall _ trivial) fun _ => hcall _ trivial)
  have hroute : ∀ error, (PaymentMessageDispatcher.routeFailure msg error).Only
      (Op.looksFor paymentId) := by
    intro error
    refine .bind (.tryCatch (.bind (Prog.only_ofExcept _) fun count => .bind ?_ fun _ => trivial)
      fun e => ?_) fun routed => ?_
    · unfold FailureRouter.route
      split
      · exact hcall _ trivial
      · exact .bind trivial fun bits => .bind (Prog.only_ofExcept _) fun delay => hcall _ trivial
    · split <;> trivial
    · split
      · exact hcall _ trivial
      · exact hcall _ trivial
  have hprocess : ∀ messageId, (ProcessPayment.execute py paymentId messageId).Given Finds
      (Op.looksFor paymentId) fun _ => True := by
    intro messageId
    refine .bind (hdup messageId).given (fun duplicate _ => ?_) fun _ _ => trivial
    split
    · trivial
    · refine .bind hcharge (fun p _ => .bind (hsend p).given (fun _ _ => ?_) fun _ _ => trivial)
        fun _ _ => trivial
      split
      · trivial
      · exact (hremember _).given
  have hhandle : (PaymentMessageHandler.handle py msg).Given Finds (Op.looksFor paymentId)
      fun _ => True := by
    unfold PaymentMessageHandler.handle
    rw [hid]
    exact hprocess _
  refine .bind (Q := fun _ => True) ?_ (fun failure _ => ?_) fun _ _ => trivial
  · refine .tryCatch (Q := fun _ => True) (.bind hhandle (fun _ _ => ?_) fun _ _ => trivial)
      (fun _ _ => trivial) fun e _ => ?_
    · trivial
    · split <;> trivial
  · split
    · exact (hcall .ack trivial).given
    · exact (hroute _).given

end Given

theorem finds_error {op : Op} {e : Exc} : Finds op (.error e) ↔ ∀ id, e ≠ .paymentNotFound id := by
  cases op <;> exact Iff.rfl

theorem exec_finds {p : Payment} {op : Op} {r : Except Exc (Res op)} {c : Choice} {s s' : World}
    (hk : s.Known p) (hop : op.looksFor p.id) (h : World.exec i op c s = some (r, s')) :
    Finds op r := by
  obtain ⟨q, hq, hext⟩ := hk
  rw [Stored, hext.id] at hq
  have hview : ∃ row, (s.view i).payments.find? p.id = some row ∧ row.id = p.id := by
    obtain ⟨row, hrow⟩ := Tables.writeAll_payments s.db (s.staged i) ⟨_, hq⟩
    exact ⟨row, hrow, Table.key_of_find? hrow⟩
  obtain ⟨row, hrow, hid⟩ := hview
  cases r with
  | error e =>
    obtain ⟨f, rfl⟩ := exec_error (by rintro row rfl; exact hop) h
    exact finds_error.2 fun id => by cases f <;> simp [Fault.toExc]
  | ok a =>
    obtain ⟨s₁, he, -⟩ := exec_ok h
    cases op with
    | getPayment id =>
      obtain rfl : id = p.id := hop
      cases he
      exact ⟨row, hrow, hid⟩
    | selectPaymentForUpdate id =>
      obtain rfl : id = p.id := hop
      simp only [effect, hrow] at he
      obtain ⟨s₂, -, hr⟩ := Option.map_eq_some_iff.1 he
      cases hr
      exact ⟨row, rfl, hid⟩
    | _ => trivial

theorem delivered_known (h : Reachable py A y) {msg : Message} {paymentId : UUID}
    (hd : y.state.Logged (.delivered i msg))
    (hid : InboundPaymentMessage.parsePaymentId py msg.body = .ok paymentId) :
    ∃ p, p.id = paymentId ∧ y.state.Known p := by
  obtain ⟨row, hrow⟩ := sent_relayed h msg ((messages_sent h).2 i msg hd)
  obtain ⟨p, -, hres, hk⟩ := relayed_resolves h hrow
  exact ⟨p, Except.ok.inj (hres.1.symm.trans hid), hk⟩

/-- **A consumer finds the payment of its message**, and looks for no other. -/
theorem consumer_finds (h : Reachable py A y) : ∀ i msg paymentId,
    y.state.Logged (.delivered i msg) →
    InboundPaymentMessage.parsePaymentId py msg.body = .ok paymentId →
      (∀ k p, y.procs i = .running k p → p.Given Finds (Op.looksFor paymentId) fun _ => True) ∧
      ∀ op r, y.state.Did i op r → op.looksFor paymentId ∧ Finds op r := by
  refine h.invariant (P := fun y => ∀ i msg paymentId, y.state.Logged (.delivered i msg) →
    InboundPaymentMessage.parsePaymentId py msg.body = .ok paymentId →
      (∀ k p, y.procs i = .running k p → p.Given Finds (Op.looksFor paymentId) fun _ => True) ∧
      ∀ op r, y.state.Did i op r → op.looksFor paymentId ∧ Finds op r)
    (fun _ _ _ _ hd => by cases hd) ?_
  intro y y' a hr _ hP _ hl i msg paymentId hd hid
  cases hl.moves i with
  | rest proc own =>
    obtain ⟨hgiven, hdid⟩ := hP i msg paymentId (logged_of_own_eq own hd rfl) hid
    rw [proc]
    exact ⟨hgiven, fun op r hd' => hdid op r (logged_of_own_eq own hd' rfl)⟩
  | kill k proc own =>
    obtain ⟨-, hdid⟩ := hP i msg paymentId (logged_of_own_eq own hd rfl) hid
    rw [proc]
    exact ⟨fun _ _ hp => (by cases hp), fun op r hd' => hdid op r (logged_of_own_eq own hd' rfl)⟩
  | spawn k p idle clean hs proc =>
    -- nothing about it was in the log
    have hnew : ∀ {e : Entry}, e.process = i → y'.state.Logged e →
        e = .started i k ∨ ∃ m, e = .delivered i m := by
      intro e hp he
      obtain ⟨l, hlog, hl⟩ := start_log hs
      rw [Logged, hlog, List.mem_append] at he
      exact he.elim (hl e) fun he => absurd hp (not_logged_of_own clean he)
    refine ⟨fun k' p' hp => ?_, fun op r hd' => by rcases hnew rfl hd' with he | ⟨m, he⟩ <;> cases he⟩
    rw [proc] at hp
    cases hp
    obtain ⟨n, b, -, -, rfl⟩ := start_dispatch hs clean hd
    exact .bind (given_dispatch msg hid) (fun _ _ => trivial) fun _ _ => trivial
  | run k op f r c hi req hs proc =>
    have hlog : ∀ {e : Entry}, y'.state.Logged e →
        e = .did i op r ∨ (∃ ws, e = .committed i ws) ∨ y.state.Logged e := fun he =>
      (exec_logged hs he).imp id (Or.imp (fun h => ⟨_, h.2⟩) id)
    have hold : y.state.Logged (.delivered i msg) := by
      rcases hlog hd with he | ⟨ws, he⟩ | he
      · cases he
      · cases he
      · exact he
    obtain ⟨hgiven, hdid⟩ := hP i msg paymentId hold hid
    obtain ⟨hop, hnext⟩ := hgiven k _ hi
    obtain ⟨p, rfl, hk⟩ := delivered_known hr hold hid
    have hfinds := exec_finds hk hop hs
    refine ⟨fun k' p' hp => ?_, fun op' r' hd' => ?_⟩
    · rw [proc] at hp
      cases hp
      exact hnext r hfinds
    · rcases hlog hd' with he | ⟨ws, he⟩ | he
      · cases he
        exact ⟨hop, hfinds⟩
      · cases he
      · exact hdid op' r' he

/-! ## The guarantee -/

/-- **Every relayed message resolves.** Every message that was ever published, delivered or is on a
queue is the event of a row that a relay claimed, or a copy of one. Its body names the row, and the
payment that was committed with the row, whatever headers it carries; one outbox id goes with one
payment id; the payment is in the table, and a consumer that looks for it finds it: `_load` and
`_complete` raise no `PaymentNotFound` then. -/
theorem relayed_messages_resolve (h : Reachable py anyAction y) :
    (∀ msg, y.state.Sent msg ∨ (∃ i, y.state.Logged (.delivered i msg)) ∨
      msg ∈ y.state.broker.messages → ∃ row, y.state.Relayed py row msg.body) ∧
    (∀ (row : OutboxModel) body, y.state.Relayed py row body → ∃ p, y.state.CreatedWith p row.id ∧
      (∀ q, y.state.CreatedWith q row.id → q = p) ∧ Resolves py body p.id row.id ∧
        y.state.Known p) ∧
    (∀ msg msg', y.state.Sent msg → y.state.Sent msg' →
      InboundPaymentMessage.parseOutboxId py msg = InboundPaymentMessage.parseOutboxId py msg' →
        InboundPaymentMessage.parsePaymentId py msg.body =
          InboundPaymentMessage.parsePaymentId py msg'.body) ∧
    (∀ i msg, y.state.Logged (.delivered i msg) → ∃ paymentId,
      InboundPaymentMessage.parsePaymentId py msg.body = .ok paymentId ∧
        ∀ op r, y.state.Did i op r → op.looksFor paymentId ∧ Finds op r) ∧
    ∀ paymentId, (ChargePayment.load paymentId).Given Finds (Op.looksFor paymentId)
        (NotLost fun p => p.id = paymentId) ∧
      ∀ p result, p.id = paymentId → (ChargePayment.complete p result).Given Finds
        (Op.looksFor paymentId) (NotLost fun q => q.id = paymentId) := by
  refine ⟨fun msg hm => ?_, fun row body hm => ?_,
    fun msg msg' hs hs' hid => sent_agree h hs hs' hid, fun i msg hd => ?_,
    fun paymentId => ⟨given_load paymentId, fun p result hp => ?_⟩⟩
  · rcases hm with hs | ⟨i, hd⟩ | hm
    · exact sent_relayed h msg hs
    · exact sent_relayed h msg ((messages_sent h).2 i msg hd)
    · exact sent_relayed h msg ((messages_sent h).1 msg hm)
  · obtain ⟨p, hc, hres, hk⟩ := relayed_resolves h hm
    exact ⟨p, hc, fun q hq => created_unique h q p row.id hq hc, hres, hk⟩
  · obtain ⟨row, hrow⟩ := sent_relayed h msg ((messages_sent h).2 i msg hd)
    obtain ⟨p, -, hres, -⟩ := relayed_resolves h hrow
    exact ⟨p.id, hres.1, (consumer_finds h i msg p.id hd hres.1).2⟩
  · subst hp
    exact given_complete p result

/-- A payment is created, its event is relayed, and a consumer gets the message. -/
def relayedRun : List (Action Choice Kind Env) :=
  markedRun ++ .spawn 2 (.dispatch 0) :: performs 2 5

/-- The entry is the delivery of the sample run. -/
def Entry.deliversSample : Entry → Bool
  | .delivered i _ => i = 2
  | _ => false

theorem relayed_messages_resolve_sample : ∃ y, (machine samplePlatform).runActions relayedRun
    (Config.init 0) = some y ∧ ∃ msg, y.state.Logged (.delivered 2 msg) ∧
      ∃ (row : OutboxModel) (p : Payment), y.state.CreatedWith p row.id ∧
        Resolves samplePlatform msg.body p.id row.id := by
  obtain ⟨y, hy⟩ := Option.isSome_iff_exists.1 (by decide +kernel :
    ((machine samplePlatform).runActions relayedRun (Config.init 0)).isSome = true)
  have hlog : (((machine samplePlatform).runActions relayedRun (Config.init 0)).map fun y =>
      y.state.log.any Entry.deliversSample) = some true := by
    decide +kernel
  rw [hy, Option.map_some, Option.some.injEq, List.any_eq_true] at hlog
  have hr : Reachable samplePlatform anyAction y :=
    reachable_of_run (Machine.AllowedActions.any (fun _ _ => trivial) ..) hy
  obtain ⟨e, he, hdelivers⟩ := hlog
  cases e with
  | delivered i msg =>
    obtain rfl : i = 2 := of_decide_eq_true hdelivers
    obtain ⟨hsent, hresolves, -⟩ := relayed_messages_resolve hr
    obtain ⟨row, hrow⟩ := hsent msg (.inr (.inl ⟨2, he⟩))
    obtain ⟨p, hc, -, hres, -⟩ := hresolves row msg.body hrow
    exact ⟨y, hy, msg, he, row, p, hc, hres⟩
  | _ => cases hdelivers

end PaymentProcessing
