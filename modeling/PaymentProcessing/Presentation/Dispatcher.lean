import PaymentProcessing.Application.UseCases

/-!
# Consuming `payments.new` (`presentation/amqp/`)

A message is handled and acknowledged; one whose handling raises is forwarded to the retry queue or
the DLQ and then acknowledged, or rejected if that fails too. Log contexts and request ids have no
effect here.
-/

namespace PaymentProcessing

open Python Concurrency

/-! ## Identity -/

/-- `RETRY_COUNT_HEADER`. -/
def retryCountHeader : String := "x-retry-count"

namespace InboundPaymentMessage

/-- `parse_payment_id`. -/
def parsePaymentId (py : Platform) (body : List (String × Json)) : Except Exc UUID :=
  match OutboxEventCodec.extractPaymentId py body with
  | none => .error (.permanentProcessing "message missing payment_id")
  | some raw =>
    match UUID.ofText raw with
    | none => .error (.permanentProcessing "invalid payment_id")
    | some paymentId => .ok paymentId

/-- `parse_outbox_id`. -/
def parseOutboxId (py : Platform) (msg : Message) : Option UUID :=
  OutboxEventCodec.extractOutboxId py msg.body (some msg.headers)

/-- `int(raw)`. -/
def toInt : Value → Except Exc Int
  | .int n => .ok n
  | .bool b => .ok (if b then 1 else 0)
  | .float x => RetryPolicy.intOfFloat x
  | .decimal (.finite negative coefficient exponent) =>
    .ok (Decimal.truncate negative coefficient exponent)
  | .decimal (.infinite _) => .error (.overflowError "cannot convert Infinity to integer")
  | .decimal .nan => .error (.valueError "cannot convert NaN to integer")
  | .str text => literal (intBase10 text)
  | .bytes data | .bytearray data => literal (intOfBytes data)
  | .null | .datetime _ | .list _ | .dict _ =>
    .error (.typeError "int() argument must be a string, a bytes-like object or a real number")
where
  literal : Option Int → Except Exc Int
    | some n => .ok n
    | none => .error (.valueError "invalid literal for int() with base 10")

/-- `parse_retry_count`. -/
def parseRetryCount (headers : Headers) : Except Exc Int :=
  match toInt ((lookup retryCountHeader headers).getD (.int 0)) with
  | .ok count => .ok count
  | .error (.typeError _) | .error (.valueError _) => .ok 0
  | .error e => .error e

/-- A message as a relay publishes it has not been retried. -/
theorem parseRetryCount_encoded {py : Platform} {record : OutboxRecord}
    {body : List (String × Json)} {headers : Headers}
    (h : OutboxEventCodec.encode py record = .ok (body, headers)) :
    parseRetryCount headers = .ok 0 := by
  obtain ⟨-, rfl⟩ := OutboxEventCodec.encode_eq h
  rfl

end InboundPaymentMessage

/-- `PaymentMessageHandler.handle`. -/
def PaymentMessageHandler.handle (py : Platform) (msg : Message) : App Unit := do
  let paymentId ← orRaise (InboundPaymentMessage.parsePaymentId py msg.body)
  ProcessPayment.execute py paymentId (InboundPaymentMessage.parseOutboxId py msg)

/-! ## Failures -/

namespace FailureRouter

/-- `headers[key] = value` on a copy. -/
def setHeader (headers : Headers) (key : String) (value : Value) : Headers :=
  if headers.any fun e => e.1 = key then
    headers.map fun e => if e.1 = key then (key, value) else e
  else headers ++ [(key, value)]

theorem lookup_setHeader (headers : Headers) (key : String) (value : Value) :
    lookup key (setHeader headers key value) = some value := by
  unfold setHeader
  split
  · rename_i hany
    obtain ⟨e, he, hkey⟩ := List.any_eq_true.1 hany
    induction headers with
    | nil => cases he
    | cons e' headers ih =>
      obtain ⟨key', value'⟩ := e'
      rw [List.map_cons]
      by_cases hk : key' = key
      · simp [lookup, hk]
      · have hmem : e ∈ headers := by
          rcases List.mem_cons.1 he with rfl | h
          · exact absurd (of_decide_eq_true hkey) hk
          · exact h
        simp only [hk, if_false, lookup]
        exact ih (List.any_eq_true.2 ⟨e, hmem, hkey⟩) hmem
  · rename_i hany
    induction headers with
    | nil => simp [lookup]
    | cons e' headers ih =>
      obtain ⟨key', value'⟩ := e'
      rw [List.any_cons, Bool.or_eq_true, not_or] at hany
      have hk : key' ≠ key := fun he => hany.1 (decide_eq_true he)
      simp only [List.cons_append, lookup, hk, if_false]
      exact ih hany.2

theorem parseRetryCount_setHeader (headers : Headers) (count : Int) :
    InboundPaymentMessage.parseRetryCount (setHeader headers retryCountHeader (.int count)) =
      .ok count := by
  rw [InboundPaymentMessage.parseRetryCount, lookup_setHeader]
  rfl

/-- `_schedule_retry`. -/
def scheduleRetry (policy : RetryPolicy) (msg : Message) (retryCount : Int) : App Unit := do
  let bits ← if policy.delay.useJitter then call .random else pure ExponentialDelay.noBits
  let delay ← orRaise (policy.computeDelaySeconds retryCount bits)
  call (.publish .retry msg.body
    (setHeader msg.headers retryCountHeader (.int (retryCount + 1))) (some delay))

/-- `_to_dlq`. -/
def toDlq (msg : Message) : App Unit := call (.publish .dlq msg.body msg.headers none)

/-- `route`. -/
def route (policy : RetryPolicy) (msg : Message) (retryCount : Int) (error : Exc) : App Unit :=
  match policy.decideAction retryCount error with
  | .dlq => toDlq msg
  | .retry => scheduleRetry policy msg retryCount

end FailureRouter

namespace PaymentMessageDispatcher

/-- `_route_failure`. -/
def routeFailure (msg : Message) (error : Exc) : App Unit := do
  let routed ← tryCatch
    (do
      let retryCount ← orRaise (InboundPaymentMessage.parseRetryCount msg.headers)
      FailureRouter.route RetryPolicy.default msg retryCount error
      return true)
    fun e => if e.isException then return false else throw e
  if routed then call .ack else call .reject

/-- `dispatch`. -/
def dispatch (py : Platform) (msg : Message) : App Unit := do
  -- `some e`: the handler raised `e`
  let failure ← tryCatch
    (do
      PaymentMessageHandler.handle py msg
      return none)
    fun e => if e.isException then return some e else throw e
  match failure with
  | none => call .ack
  | some error => routeFailure msg error

end PaymentMessageDispatcher

end PaymentProcessing
