import PaymentProcessing.Domain.Payment
import PaymentProcessing.Domain.Webhook

/-!
# Records and data transfer objects

`application/records.py`, `application/payments/dto.py`, `application/payments/events.py`,
`application/payments/webhook_payload.py` and `application/outbox/routing.py`.
-/

namespace PaymentProcessing

open Python

/-- `OutboxStatus`. -/
inductive OutboxStatus where
  | new
  | processing
  | processed
  | failed
deriving DecidableEq, Repr

/-- `OutboxRecord`. -/
structure OutboxRecord where
  id : UUID
  eventType : String
  payload : JsonObject
  createdAt : Time
  status : OutboxStatus
  retryCount : Int
  publishedAt : Option Time
  claimedAt : Option Time
  availableAt : Option Time

/-- `GatewayResult`. -/
structure GatewayResult where
  isSuccessful : Bool
deriving DecidableEq, Repr

/-- `CreatePaymentInput`. -/
structure CreatePaymentInput where
  amount : Decimal
  currency : String
  description : String
  metadata : JsonObject
  webhookUrl : String
  idempotencyKey : String

/-- `PaymentOutput`. -/
structure PaymentOutput where
  paymentId : UUID
  amount : Decimal
  currency : String
  description : String
  metadata : JsonObject
  status : String
  idempotencyKey : String
  webhookUrl : String
  createdAt : Time
  processedAt : Option Time

/-- `PaymentOutput.from_payment`. -/
def PaymentOutput.fromPayment (payment : Payment) : PaymentOutput where
  paymentId := payment.id
  amount := payment.money.amount
  currency := payment.money.currency.value
  description := payment.description
  metadata := payment.metadata
  status := payment.status.value
  idempotencyKey := payment.idempotencyKey.value
  webhookUrl := payment.webhookUrl
  createdAt := payment.createdAt
  processedAt := payment.processedAt

/-- `PAYMENT_CREATED`. -/
def paymentCreated : String := "PaymentCreated"

/-- The routing keys; each is the name of the queue bound to it. -/
inductive RoutingKey where
  /-- `payments.new` -/
  | new
  /-- `payments.new.retry` -/
  | retry
  /-- `payments.new.dlq` -/
  | dlq
deriving DecidableEq, Repr

/-- The payload of a webhook. -/
structure WebhookPayload where
  paymentId : String
  status : String
  amount : String
  currency : String
  processedAt : Option String
deriving DecidableEq, Repr

/-- `WebhookPayloadBuilder.build`. -/
def WebhookPayload.build (py : Platform) (payment : Payment) : WebhookPayload where
  paymentId := payment.id.str
  status := payment.status.value
  amount := payment.money.amount.str
  currency := payment.money.currency.value
  processedAt := payment.processedAt.map py.isoformat

end PaymentProcessing
