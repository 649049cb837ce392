import PaymentProcessing.System

/-!
# The HTTP API (`presentation/http/`, `presentation/log_context.py`)

A request with the right key is executed by its use case and answered; what the use case raises is
answered by the handler of its class, or by the boundary. The parameters and the body of a request
come validated by their schema, and `CreatePaymentRequest` carries what the schema promises. Access
logs and metrics have no effect here.
-/

namespace PaymentProcessing

open Python Relational Concurrency

/-! ## Request ids -/

/-- `text.isascii()`. -/
def isAscii (text : String) : Bool := text.toList.all fun c => c.toNat < 128

/-- `text.isprintable()`, for a text in ASCII. -/
def isPrintable (text : String) : Bool := text.toList.all fun c => 32 ≤ c.toNat && c.toNat < 127

/-- `RequestId.resolve`; `drawn` is what `uuid.uuid4()` gives. -/
def RequestId.resolve (raw : Option String) (drawn : UUID) : String :=
  match raw with
  | none => drawn.str
  | some raw =>
    let candidate := strip raw
    if 1 ≤ candidate.length && candidate.length ≤ 128 && isAscii candidate &&
        isPrintable candidate then candidate
    else drawn.str

/-- Whatever the client sends, the header of the response is a line of printable ASCII. -/
theorem resolve_printable (raw : Option String) (drawn : UUID) :
    isPrintable (RequestId.resolve raw drawn) = true := by
  have hdrawn : isPrintable drawn.str = true := by
    refine List.all_eq_true.2 fun c hc => ?_
    rcases UUID.mem_str hc with rfl | ⟨d, rfl⟩
    · decide
    · exact (by decide : ∀ d : Fin 16,
        (decide (32 ≤ (hexChar d).toNat) && decide ((hexChar d).toNat < 127)) = true) d
  unfold RequestId.resolve
  split
  · exact hdrawn
  · dsimp only
    split
    · rename_i h
      simp only [Bool.and_eq_true] at h
      exact h.2
    · exact hdrawn

/-! ## Authentication -/

/-- `hmac.compare_digest` on texts. -/
def compareDigest (a b : String) : Except Exc Bool :=
  if isAscii a && isAscii b then .ok (a = b)
  else .error (.typeError "comparing strings with non-ASCII characters is not supported")

/-- `ApiKeyAuthenticator.verify`: `false` where it raises `HTTPException(401)`. -/
def ApiKeyAuthenticator.verify (provided : Option String) (expected : String) : Except Exc Bool :=
  match provided with
  | none => .ok false
  | some provided => compareDigest provided expected

/-! ## Requests -/

/-- `CreatePaymentRequest`. -/
structure CreatePaymentRequest (py : Platform) where
  amount : Decimal
  currency : Currency
  description : String
  metadata : JsonObject
  webhookUrl : String
  /-- `gt=0` and `max_digits=12`. -/
  bounded : ∃ c x, amount = .finite false c x ∧ 0 < c ∧ amount.value < 10 ^ 12
  /-- `_public_webhook_url`. -/
  isPublic : PaymentProcessing.webhookUrl py webhookUrl = .ok webhookUrl

/-- `to_input`. -/
def CreatePaymentRequest.toInput {py : Platform} (self : CreatePaymentRequest py)
    (idempotencyKey : String) : CreatePaymentInput where
  amount := self.amount
  currency := self.currency.value
  description := self.description
  metadata := self.metadata
  webhookUrl := self.webhookUrl
  idempotencyKey := idempotencyKey

/-- The routes of `v1/payments.py`, with their parameters. -/
inductive HttpRequest (py : Platform) where
  | createPayment (body : CreatePaymentRequest py) (idempotencyKey : String)
  | getPayment (paymentId : UUID)

/-- The use case that executes the request. -/
def HttpRequest.kind {py : Platform} : HttpRequest py → Kind
  | .createPayment body idempotencyKey => .createPayment (body.toInput idempotencyKey)
  | .getPayment paymentId => .getPayment paymentId

/-! ## Responses -/

/-- The content of a response. -/
inductive HttpBody where
  /-- `{"detail": …}` -/
  | detail (text : String)
  /-- `CreatePaymentResponse` -/
  | created (paymentId : UUID) (status : String) (createdAt : Time)
  /-- `PaymentResponse`, which has the fields of `PaymentOutput` -/
  | payment (output : PaymentOutput)

/-- A response. -/
structure HttpResponse where
  status : Nat
  body : HttpBody
  requestId : String

/-- What the endpoint of the request returns. -/
def HttpRequest.endpoint {py : Platform} (request : HttpRequest py) (result : PaymentOutput) :
    Nat × HttpBody :=
  match request with
  | .createPayment .. => (202, .created result.paymentId result.status result.createdAt)
  | .getPayment _ => (200, .payment result)

/-- `str(error)` of a `DomainError`. -/
def Exc.domainText : Exc → String
  | .invalidMoney message | .invalidCurrency message | .invalidIdempotencyKey message
  | .invalidWebhookUrl message => message
  | .illegalStatusTransition current target =>
    "cannot transition from " ++ current ++ " to " ++ target
  | _ => ""

namespace HttpErrorBoundary

/-- `_RESPONSES`: the exceptions of each class, the status and the detail. -/
def responses : List ((Exc → Bool) × Nat × Option String) :=
  [(fun e => e matches .idempotencyConflict _, 409, some "Idempotency key conflict"),
    (fun e => e matches .duplicateIdempotencyKey, 409, some "Idempotency key conflict"),
    (fun e => e matches .paymentNotFound _, 404, some "Payment not found"),
    (Exc.isDomainError, 422, none)]

/-- The registered handler of an exception. -/
def handler (e : Exc) : Option (Nat × HttpBody) :=
  (responses.find? fun entry => entry.1 e).map fun entry =>
    (entry.2.1, .detail (entry.2.2.getD e.domainText))

/-- `__call__`, around the handlers; there is no response to a request that is cancelled. -/
def call (result : Except Exc (Nat × HttpBody)) : Option (Nat × HttpBody) :=
  match result with
  | .ok response => some response
  | .error e => (handler e).orElse fun _ =>
      if e.isException then some (500, .detail "Internal Server Error") else none

end HttpErrorBoundary

/-- `AccessLogMiddleware.__call__`, around the boundary. -/
def AccessLogMiddleware.call (requestId : String) (result : Except Exc (Nat × HttpBody)) :
    Option HttpResponse :=
  (HttpErrorBoundary.call result).map fun response => ⟨response.1, response.2, requestId⟩

/-- The response to a request whose use case comes to this. -/
def HttpRequest.respond {py : Platform} (request : HttpRequest py) (requestId : String)
    (result : Except Exc PaymentOutput) : Option HttpResponse :=
  AccessLogMiddleware.call requestId (result.map request.endpoint)

/-- A request comes in: its use case starts, or it is answered at once. -/
def HttpRequest.receive {py : Platform} (request : HttpRequest py) (requestId : String)
    (provided : Option String) (apiKey : String) : Kind ⊕ Option HttpResponse :=
  match ApiKeyAuthenticator.verify provided apiKey with
  | .ok true => .inl request.kind
  | .ok false => .inr (AccessLogMiddleware.call requestId (.ok (401, .detail "Unauthorized")))
  | .error e => .inr (AccessLogMiddleware.call requestId (.error e))

/-- **Only a request with the key starts a use case**, and it starts its own. -/
theorem receive_eq_inl {py : Platform} {request : HttpRequest py} {requestId apiKey : String}
    {provided : Option String} {kind : Kind} :
    request.receive requestId provided apiKey = .inl kind ↔
      provided = some apiKey ∧ isAscii apiKey = true ∧ kind = request.kind := by
  have hverify : ApiKeyAuthenticator.verify provided apiKey = .ok true ↔
      provided = some apiKey ∧ isAscii apiKey = true := by
    cases provided with
    | none => simp [ApiKeyAuthenticator.verify]
    | some key =>
      simp only [ApiKeyAuthenticator.verify, compareDigest]
      split
      · rename_i hascii
        rw [Bool.and_eq_true] at hascii
        simp [hascii.2]
      · rename_i hascii
        rw [Bool.and_eq_true] at hascii
        simp only [reduceCtorEq, Option.some.injEq, false_iff, not_and]
        rintro rfl hkey
        exact hascii ⟨hkey, hkey⟩
  rw [← and_assoc, ← hverify]
  unfold HttpRequest.receive
  split
  · rename_i h
    simp [h, eq_comm]
  · rename_i h
    simp [h]
  · rename_i h
    simp [h]

end PaymentProcessing
