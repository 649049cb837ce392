import PaymentProcessing.Python.Uuid

/-!
# Exceptions

Every exception the program raises or handles: those of `domain/exceptions.py` and
`application/exceptions.py`, the built-in ones its code can raise, and those that come from outside
(the database driver, the HTTP client, the broker, cancellation).
-/

namespace PaymentProcessing

open Python

/-- An exception. -/
inductive Exc where
  -- `domain/exceptions.py`
  | invalidMoney (message : String)
  | invalidCurrency (message : String)
  | invalidIdempotencyKey (message : String)
  | invalidWebhookUrl (message : String)
  | illegalStatusTransition (current target : String)
  -- `application/exceptions.py`
  | duplicateIdempotencyKey
  | idempotencyConflict (paymentId : Option UUID)
  | paymentNotFound (paymentId : UUID)
  | transientDependency (message : String)
  | permanentProcessing (message : String)
  -- built in, and `decimal.InvalidOperation`
  | runtimeError (message : String)
  | valueError (message : String)
  | typeError (message : String)
  | overflowError (message : String)
  | invalidOperation
  /-- `sqlalchemy.exc.IntegrityError` with the name of the violated constraint. -/
  | integrityError (constraint : String)
  /-- `httpx.TimeoutException`. -/
  | timeoutException
  /-- `httpx.TransportError`, other than a timeout. -/
  | transportError
  /-- Any other exception of a driver, a client or the broker. -/
  | external (n : Nat)
  /-- `asyncio.CancelledError`, which is no `Exception`. -/
  | cancelled
deriving DecidableEq, Repr

namespace Exc

/-- `isinstance(error, DomainError)`. -/
def isDomainError : Exc → Bool
  | .invalidMoney _ | .invalidCurrency _ | .invalidIdempotencyKey _ | .invalidWebhookUrl _
  | .illegalStatusTransition .. => true
  | _ => false

/-- `isinstance(error, ApplicationError)`. -/
def isApplicationError : Exc → Bool
  | .duplicateIdempotencyKey | .idempotencyConflict _ | .paymentNotFound _
  | .transientDependency _ | .permanentProcessing _ => true
  | _ => false

/-- `isinstance(error, Exception)`: what `except Exception` catches. -/
def isException : Exc → Bool
  | .cancelled => false
  | _ => true

end Exc

/-- What can go wrong outside the program while one of its operations runs. -/
inductive Fault where
  | timeout
  | transport
  | external (n : Nat)
  | cancelled
deriving DecidableEq, Repr

/-- The exception the program sees. -/
def Fault.toExc : Fault → Exc
  | .timeout => .timeoutException
  | .transport => .transportError
  | .external n => .external n
  | .cancelled => .cancelled

/-- A time: microseconds since the epoch, UTC. -/
abbrev Time := Int

end PaymentProcessing
