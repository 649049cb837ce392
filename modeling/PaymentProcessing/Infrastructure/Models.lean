import PaymentProcessing.Application.Records

/-!
# Database rows and their mappers

`infrastructure/persistence/models/` and `infrastructure/persistence/mappers/`. A column reads back
the value written to it; currency, status and key of a payment are text columns, so the mapper
parses them and makes the amount into money again.
-/

namespace PaymentProcessing

open Python

/-- `PaymentModel`. -/
structure PaymentModel where
  id : UUID
  amount : Decimal
  currency : String
  description : String
  extra : JsonObject
  status : String
  idempotencyKey : String
  webhookUrl : String
  createdAt : Time
  processedAt : Option Time

/-- `OutboxModel`. -/
structure OutboxModel where
  id : UUID
  eventType : String
  payload : JsonObject
  createdAt : Time
  publishedAt : Option Time
  status : OutboxStatus
  retryCount : Int
  claimedAt : Option Time
  availableAt : Option Time

/-- `InboxModel`. -/
structure InboxModel where
  messageId : UUID
  processedAt : Time

/-- `GatewayChargeModel`. -/
structure GatewayChargeModel where
  paymentId : UUID
  isSuccessful : Bool
  createdAt : Time

namespace PaymentMapper

/-- `PaymentMapper.apply`. -/
def apply (model : PaymentModel) (payment : Payment) : PaymentModel :=
  { model with
    amount := payment.money.amount
    currency := payment.money.currency.value
    description := payment.description
    extra := payment.metadata
    status := payment.status.value
    idempotencyKey := payment.idempotencyKey.value
    webhookUrl := payment.webhookUrl
    createdAt := payment.createdAt
    processedAt := payment.processedAt }

/-- `PaymentMapper.to_model`. -/
def toModel (payment : Payment) : PaymentModel where
  id := payment.id
  amount := payment.money.amount
  currency := payment.money.currency.value
  description := payment.description
  extra := payment.metadata
  status := payment.status.value
  idempotencyKey := payment.idempotencyKey.value
  webhookUrl := payment.webhookUrl
  createdAt := payment.createdAt
  processedAt := payment.processedAt

/-- `PaymentMapper.to_domain`. -/
def toDomain (model : PaymentModel) : Except Exc Payment := do
  let currency ← Currency.ofValue model.currency
  let money ← Money.new model.amount (.inl currency)
  let status ← PaymentStatus.ofValue model.status
  let key ← IdempotencyKey.new model.idempotencyKey
  .ok
    { id := model.id
      money := money
      description := model.description
      metadata := model.extra
      status := status
      idempotencyKey := key
      webhookUrl := model.webhookUrl
      createdAt := model.createdAt
      processedAt := model.processedAt }

/-- **The mapper round trip**: a payment written to its row is read back unchanged. -/
@[simp] theorem toDomain_toModel (p : Payment) : toDomain (toModel p) = .ok p := by
  have hm : Money.new p.money.amount (.inl p.money.currency) = .ok p.money := p.money.new_amount
  simp [toDomain, toModel, hm, bind, Except.bind]

/-- Saving a payment over a row with its id writes the row of the payment. -/
theorem apply_eq_toModel {m : PaymentModel} {p : Payment} (h : m.id = p.id) :
    apply m p = toModel p := by
  cases m
  cases h
  rfl

theorem toModel_injective {p q : Payment} (h : toModel p = toModel q) : p = q := by
  have := toDomain_toModel p
  rw [h, toDomain_toModel] at this
  exact (Except.ok.inj this).symm

end PaymentMapper

/-- The payload tells what the row says. -/
structure WebhookPayload.Tells (py : Platform) (payload : WebhookPayload) (row : PaymentModel) :
    Prop where
  paymentId : payload.paymentId = row.id.str
  status : payload.status = row.status
  amount : payload.amount = row.amount.str
  currency : payload.currency = row.currency
  processedAt : payload.processedAt = row.processedAt.map py.isoformat

theorem WebhookPayload.build_tells (py : Platform) (p : Payment) :
    (WebhookPayload.build py p).Tells py (PaymentMapper.toModel p) := ⟨rfl, rfl, rfl, rfl, rfl⟩

/-- A row has one payload. -/
theorem WebhookPayload.Tells.unique {py : Platform} {payload payload' : WebhookPayload}
    {row : PaymentModel} (h : payload.Tells py row) (h' : payload'.Tells py row) :
    payload = payload' := by
  cases payload
  cases payload'
  simp only [WebhookPayload.mk.injEq]
  exact ⟨h.paymentId.trans h'.paymentId.symm, h.status.trans h'.status.symm,
    h.amount.trans h'.amount.symm, h.currency.trans h'.currency.symm,
    h.processedAt.trans h'.processedAt.symm⟩

/-- The output shows what the row says. -/
structure PaymentOutput.Shows (output : PaymentOutput) (row : PaymentModel) : Prop where
  paymentId : output.paymentId = row.id
  amount : output.amount = row.amount
  currency : output.currency = row.currency
  description : output.description = row.description
  metadata : output.metadata = row.extra
  status : output.status = row.status
  idempotencyKey : output.idempotencyKey = row.idempotencyKey
  webhookUrl : output.webhookUrl = row.webhookUrl
  createdAt : output.createdAt = row.createdAt
  processedAt : output.processedAt = row.processedAt

theorem PaymentOutput.fromPayment_shows (p : Payment) :
    (PaymentOutput.fromPayment p).Shows (PaymentMapper.toModel p) :=
  ⟨rfl, rfl, rfl, rfl, rfl, rfl, rfl, rfl, rfl, rfl⟩

/-- The columns an `update(OutboxModel)` statement sets; `status`, `claimed_at` and `available_at`
are set by every such statement of the program, the others where given. -/
structure OutboxPatch where
  status : OutboxStatus
  claimedAt : Option Time
  availableAt : Option Time
  retryCount : Option Int := none
  publishedAt : Option Time := none

namespace OutboxPatch

/-- The row after the statement. -/
def apply (patch : OutboxPatch) (row : OutboxModel) : OutboxModel :=
  { row with
    status := patch.status
    claimedAt := patch.claimedAt
    availableAt := patch.availableAt
    retryCount := patch.retryCount.getD row.retryCount
    publishedAt := patch.publishedAt.or row.publishedAt }

variable (patch : OutboxPatch) (row : OutboxModel)

@[simp] theorem apply_id : (patch.apply row).id = row.id := rfl

@[simp] theorem apply_eventType : (patch.apply row).eventType = row.eventType := rfl

@[simp] theorem apply_payload : (patch.apply row).payload = row.payload := rfl

@[simp] theorem apply_createdAt : (patch.apply row).createdAt = row.createdAt := rfl

@[simp] theorem apply_status : (patch.apply row).status = patch.status := rfl

@[simp] theorem apply_claimedAt : (patch.apply row).claimedAt = patch.claimedAt := rfl

@[simp] theorem apply_availableAt : (patch.apply row).availableAt = patch.availableAt := rfl

/-- Updating a row twice in one way is updating it once. -/
@[simp] theorem apply_apply : patch.apply (patch.apply row) = patch.apply row := by
  cases patch with
  | mk status claimedAt availableAt retryCount publishedAt =>
    cases retryCount <;> cases publishedAt <;> rfl

end OutboxPatch

namespace OutboxMapper

/-- `OutboxMapper.to_claimed_record`. -/
def toClaimedRecord (row : OutboxModel) (claimedAt : Time) : OutboxRecord where
  id := row.id
  eventType := row.eventType
  payload := row.payload
  createdAt := row.createdAt
  status := .processing
  retryCount := row.retryCount
  publishedAt := row.publishedAt
  claimedAt := some claimedAt
  availableAt := none

end OutboxMapper

/-- `OutboxClaimFilter.build`: which rows may be claimed. -/
def OutboxClaimFilter.build (now staleBefore : Time) (row : OutboxModel) : Bool :=
  let due := match row.availableAt with
    | none => true
    | some availableAt => availableAt ≤ now
  let newDue := row.status = .new && due
  let stale := row.status = .processing && match row.claimedAt with
    | none => false
    | some claimedAt => claimedAt ≤ staleBefore
  newDue || stale

theorem OutboxClaimFilter.build_iff {now staleBefore : Time} {row : OutboxModel} :
    OutboxClaimFilter.build now staleBefore row = true ↔
      (row.status = .new ∧ ∀ t, row.availableAt = some t → t ≤ now) ∨
      (row.status = .processing ∧ ∃ t, row.claimedAt = some t ∧ t ≤ staleBefore) := by
  unfold build
  cases row.availableAt <;> cases row.claimedAt <;> simp

end PaymentProcessing
