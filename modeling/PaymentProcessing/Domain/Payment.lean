import PaymentProcessing.Domain.Money
import PaymentProcessing.Python.Json

/-!
# The payment aggregate (`domain/payment.py`, `domain/ids.py`)

A payment is pending until it is completed once, as succeeded or failed; completing it again does
nothing.
-/

namespace PaymentProcessing

open Python

/-- `PaymentStatus`. -/
inductive PaymentStatus where
  | pending
  | succeeded
  | failed
deriving DecidableEq, Repr

namespace PaymentStatus

/-- `status.value`. -/
def value : PaymentStatus → String
  | .pending => "pending"
  | .succeeded => "succeeded"
  | .failed => "failed"

/-- `PaymentStatus(text)`, which raises `ValueError`. -/
def ofValue (text : String) : Except Exc PaymentStatus :=
  if text = "pending" then .ok .pending
  else if text = "succeeded" then .ok .succeeded
  else if text = "failed" then .ok .failed
  else .error (.valueError (strRepr text ++ " is not a valid PaymentStatus"))

@[simp] theorem ofValue_value (s : PaymentStatus) : ofValue s.value = .ok s := by
  cases s <;> decide

theorem value_injective {s t : PaymentStatus} (h : s.value = t.value) : s = t := by
  have := ofValue_value s
  rw [h, ofValue_value] at this
  exact (Except.ok.inj this).symm

/-- `_TRANSITIONS`. -/
def transitions : PaymentStatus → List PaymentStatus
  | .pending => [.succeeded, .failed]
  | .succeeded => []
  | .failed => []

/-- `can_move_to`. -/
def canMoveTo (s target : PaymentStatus) : Bool := target ∈ transitions s

/-- `require_transition`. -/
def requireTransition (s target : PaymentStatus) : Except Exc Unit :=
  if s.canMoveTo target then .ok () else .error (.illegalStatusTransition s.value target.value)

/-- `status in _TERMINAL`. -/
def isTerminal : PaymentStatus → Bool
  | .pending => false
  | .succeeded | .failed => true

theorem isTerminal_iff {s : PaymentStatus} : s.isTerminal = true ↔ s ≠ .pending := by
  cases s <;> decide

end PaymentStatus

/-- `IdempotencyKey`: a text of at most 255 characters that is not blank. -/
structure IdempotencyKey where
  value : String
  wf : strip value ≠ "" ∧ value.length ≤ 255

namespace IdempotencyKey

/-- `IdempotencyKey.__post_init__`. -/
def new (value : String) : Except Exc IdempotencyKey :=
  if h : strip value = "" then
    .error (.invalidIdempotencyKey "idempotency key must be a non-empty string")
  else if h' : 255 < value.length then
    .error (.invalidIdempotencyKey "idempotency key is too long")
  else .ok ⟨value, h, Nat.not_lt.1 h'⟩

@[simp] theorem new_value (k : IdempotencyKey) : new k.value = .ok k := by
  obtain ⟨v, h, h'⟩ := k
  simp [new, h, Nat.not_lt.2 h']

theorem value_of_new {text : String} {k : IdempotencyKey} (h : new text = .ok k) :
    k.value = text := by
  unfold new at h
  split at h
  · cases h
  · split at h
    · cases h
    · cases h
      rfl

end IdempotencyKey

/-- `Payment`. -/
structure Payment where
  id : UUID
  money : Money
  description : String
  metadata : JsonObject
  status : PaymentStatus
  idempotencyKey : IdempotencyKey
  webhookUrl : String
  createdAt : Time
  processedAt : Option Time

namespace Payment

/-- `Payment.create`. -/
def create (id : UUID) (money : Money) (description : String) (metadata : JsonObject)
    (idempotencyKey : IdempotencyKey) (webhookUrl : String) (createdAt : Time) : Payment where
  id := id
  money := money
  description := description
  metadata := metadata
  status := .pending
  idempotencyKey := idempotencyKey
  webhookUrl := webhookUrl
  createdAt := createdAt
  processedAt := none

/-- `payment.is_terminal`. -/
def isTerminal (p : Payment) : Bool := p.status.isTerminal

/-- `Payment._complete`. -/
def complete (p : Payment) (status : PaymentStatus) (processedAt : Time) : Except Exc Payment :=
  if p.status.isTerminal then .ok p
  else do
    p.status.requireTransition status
    .ok { p with status := status, processedAt := some processedAt }

/-- `Payment.succeed`. -/
def succeed (p : Payment) (processedAt : Time) : Except Exc Payment :=
  p.complete .succeeded processedAt

/-- `Payment.fail`. -/
def fail (p : Payment) (processedAt : Time) : Except Exc Payment := p.complete .failed processedAt

theorem complete_pending {p : Payment} {status : PaymentStatus} {at' : Time}
    (hp : p.status = .pending) (hs : status.isTerminal = true) :
    p.complete status at' = .ok { p with status := status, processedAt := some at' } := by
  cases status with
  | pending => cases hs
  | succeeded | failed =>
    simp [complete, hp, PaymentStatus.isTerminal, PaymentStatus.requireTransition,
      PaymentStatus.canMoveTo, PaymentStatus.transitions]
    rfl

end Payment

end PaymentProcessing
