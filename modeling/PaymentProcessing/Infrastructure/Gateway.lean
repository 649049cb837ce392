import PaymentProcessing.Infrastructure.Repositories

/-!
# The payment gateway and the webhook sender

`infrastructure/gateway/` and `infrastructure/webhooks/`.
-/

namespace PaymentProcessing

open Python Concurrency

/-! ## Gateway -/

namespace SqlGatewayResultCache

/-- `get`. -/
def get (paymentId : UUID) : App (Option GatewayResult) :=
  withSession do
    match ← call (.getCharge paymentId) with
    | none => return none
    | some row => return some { isSuccessful := row.isSuccessful }

/-- `put_if_absent`. -/
def putIfAbsent (paymentId : UUID) (result : GatewayResult) : App GatewayResult := do
  let createdAt ← call .now
  withSession <| withBegin do
    let inserted ← call (.insertCharge
      { paymentId := paymentId, isSuccessful := result.isSuccessful, createdAt := createdAt })
    match inserted with
    | some isSuccessful => return { isSuccessful := isSuccessful }
    | none =>
      match ← call (.getCharge paymentId) with
      | none => throw (.runtimeError ("gateway charge " ++ paymentId.str ++ " missing"))
      | some existing => return { isSuccessful := existing.isSuccessful }

end SqlGatewayResultCache

/-- `UniformRandomDelay.wait`. -/
def UniformRandomDelay.wait : App Unit := do
  let _ ← call .random
  call .sleep

/-- `RandomChargeOutcome.is_successful`. -/
def RandomChargeOutcome.isSuccessful (py : Platform) : App Bool := do
  let r ← call .random
  return (ExponentialDelay.randomValue r).lt py.successRate

/-- `RandomPaymentGateway.charge`. -/
def RandomPaymentGateway.charge (py : Platform) (payment : Payment) : App GatewayResult := do
  match ← SqlGatewayResultCache.get payment.id with
  | some cached => return cached
  | none =>
    UniformRandomDelay.wait
    let isSuccessful ← RandomChargeOutcome.isSuccessful py
    SqlGatewayResultCache.putIfAbsent payment.id { isSuccessful := isSuccessful }

/-! ## Webhooks -/

namespace WebhookErrorMapper

/-- `map_timeout`. -/
def mapTimeout : Exc := .transientDependency "webhook timeout"

/-- `map_transport`. -/
def mapTransport : Exc := .transientDependency "webhook transport error"

/-- `200 <= status_code < 300`. -/
def isSuccess (statusCode : Nat) : Bool := 200 ≤ statusCode && statusCode < 300

/-- `raise_for_status`. -/
def raiseForStatus (statusCode : Nat) : Except Exc Unit :=
  if isSuccess statusCode then .ok ()
  else if 400 ≤ statusCode ∧ statusCode < 500 then
    .error (.permanentProcessing ("webhook rejected with " ++ toString statusCode))
  else .error (.transientDependency ("webhook failed with " ++ toString statusCode))

end WebhookErrorMapper

/-- `HttpxWebhookSender.send`. -/
def HttpxWebhookSender.send (py : Platform) (url : String) (payload : WebhookPayload)
    (idempotencyKey : String) : App Unit := do
  let _ ← orRaise (webhookUrl py url)
  let status ← tryCatch (call (.post url payload idempotencyKey)) fun
    | .timeoutException => throw WebhookErrorMapper.mapTimeout
    | .transportError => throw WebhookErrorMapper.mapTransport
    | e => throw e
  orRaise (WebhookErrorMapper.raiseForStatus status)

end PaymentProcessing
