import PaymentProcessing.Infrastructure.Gateway

/-!
# Creating and processing payments

`application/use_cases/create_payment.py`, `get_payment.py`, `process_payment.py` and the parts
under `application/payments/`.
-/

namespace PaymentProcessing

open Python Concurrency

/-! ## Creating -/

/-- `has_matching_create_input`. -/
def hasMatchingCreateInput (payment : Payment) (command : CreatePaymentInput) (money : Money) :
    Bool :=
  payment.money.eq money && payment.description = command.description &&
    payment.metadata.pyEq command.metadata && payment.webhookUrl = command.webhookUrl

namespace CreatePayment

/-- `_replay_existing`. -/
def replayExisting (command : CreatePaymentInput) (money : Money) (key : IdempotencyKey) :
    App PaymentOutput := do
  let existing ← withUow (SqlPaymentRepository.getByIdempotencyKey key)
  match existing with
  | none => throw (.idempotencyConflict none)
  | some existing =>
    if !hasMatchingCreateInput existing command money then
      throw (.idempotencyConflict (some existing.id))
    return PaymentOutput.fromPayment existing

/-- The payload of the event. -/
def createdPayload (paymentId : UUID) : JsonObject := JsonObject.single "payment_id" paymentId.str

/-- The transaction of `execute`. -/
def store (payment : Payment) (now : Time) : App Unit :=
  withUow do
    SqlPaymentRepository.add payment
    SqlOutboxWriter.add paymentCreated (createdPayload payment.id) now
    call .commit

/-- The payment `execute` is about to store. -/
def newPayment (py : Platform) (command : CreatePaymentInput) : App (Payment × Time) := do
  let money ← orRaise (Money.new command.amount (.inr command.currency))
  let key ← orRaise (IdempotencyKey.new command.idempotencyKey)
  let url ← orRaise (webhookUrl py command.webhookUrl)
  let now ← call .now
  let id ← call .uuid4
  return (Payment.create id money command.description command.metadata key url now, now)

/-- `execute`. -/
def execute (py : Platform) (command : CreatePaymentInput) : App PaymentOutput := do
  let (payment, now) ← newPayment py command
  -- the `else` branch is not covered by the handler
  let stored ← tryCatch (do store payment now; return true) fun
    | .duplicateIdempotencyKey => return false
    | e => throw e
  if stored then return PaymentOutput.fromPayment payment
  else replayExisting command payment.money payment.idempotencyKey

end CreatePayment

/-- `GetPayment.execute`. -/
def GetPayment.execute (paymentId : UUID) : App PaymentOutput :=
  withUow do
    match ← SqlPaymentRepository.get paymentId with
    | none => throw (.paymentNotFound paymentId)
    | some payment => return PaymentOutput.fromPayment payment

/-! ## Charging -/

namespace ChargePayment

/-- `_load`. -/
def load (paymentId : UUID) : App Payment :=
  withUow do
    match ← SqlPaymentRepository.get paymentId with
    | none => throw (.paymentNotFound paymentId)
    | some payment => return payment

/-- The payment completed with the gateway's result. -/
def settle (payment : Payment) (result : GatewayResult) (now : Time) : Except Exc Payment :=
  if result.isSuccessful then payment.succeed now else payment.fail now

/-- `_complete`. -/
def complete (payment : Payment) (result : GatewayResult) : App Payment :=
  withUow do
    match ← SqlPaymentRepository.getForUpdate payment.id with
    | none => throw (.paymentNotFound payment.id)
    | some current =>
      if !current.isTerminal then
        let now ← call .now
        let current ← orRaise (settle current result now)
        SqlPaymentRepository.save current
        call .commit
        return current
      return current

/-- `_charge_and_complete`. -/
def chargeAndComplete (py : Platform) (payment : Payment) : App Payment := do
  let result ← RandomPaymentGateway.charge py payment
  complete payment result

/-- `execute`. -/
def execute (py : Platform) (paymentId : UUID) : App Payment := do
  let payment ← load paymentId
  if payment.isTerminal then return payment
  chargeAndComplete py payment

end ChargePayment

/-! ## Processing -/

/-- `DeliverWebhook.execute`. -/
def DeliverWebhook.execute (py : Platform) (payment : Payment) : App Unit :=
  HttpxWebhookSender.send py payment.webhookUrl (WebhookPayload.build py payment) payment.id.str

namespace ProcessedMessageInbox

/-- `has_seen`. -/
def hasSeen (messageId : UUID) : App Bool := withUow (SqlInboxRepository.hasMessage messageId)

/-- `remember`. -/
def remember (messageId : UUID) : App Unit :=
  withUow do
    let now ← call .now
    SqlInboxRepository.add messageId now
    call .commit

end ProcessedMessageInbox

namespace ProcessPayment

/-- `message_id is not None and await self._inbox.has_seen(message_id)`. -/
def isDuplicate : Option UUID → App Bool
  | none => return false
  | some messageId => ProcessedMessageInbox.hasSeen messageId

/-- `execute`. -/
def execute (py : Platform) (paymentId : UUID) (messageId : Option UUID) : App Unit := do
  if ← isDuplicate messageId then return ()
  let payment ← ChargePayment.execute py paymentId
  DeliverWebhook.execute py payment
  match messageId with
  | none => return ()
  | some messageId => ProcessedMessageInbox.remember messageId

end ProcessPayment

end PaymentProcessing
