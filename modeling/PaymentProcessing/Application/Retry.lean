import PaymentProcessing.Domain.Exceptions
import PaymentProcessing.Python.Float64

/-!
# Retry delays and the retry policy (`application/retry/`)

Durations are numbers of microseconds; a duration or a time that Python cannot hold raises.
-/

namespace PaymentProcessing

open Python

/-- `ExponentialDelay`. -/
structure ExponentialDelay where
  initial : Float64
  cap : Float64
  useJitter : Bool

namespace ExponentialDelay

/-- What `random.random()` returns when its 53 random bits are `r`. -/
def randomValue (r : Fin (2 ^ 53)) : Float64 := .finite ((r.val : ℚ) / 2 ^ 53)

/-- No random bit is set. -/
def noBits : Fin (2 ^ 53) := ⟨0, Nat.two_pow_pos 53⟩

/-- `min(initial * (2 ** (attempts - 1)), cap)`; the float times an integer can overflow. -/
def capped (d : ExponentialDelay) (attempts : Int) : Except Exc Float64 :=
  match d.initial.mulInt? (2 ^ (attempts - 1).toNat) with
  | some product => .ok (product.min d.cap)
  | none => .error (.overflowError "int too large to convert to float")

/-- The jitter factor `0.5 + random.random() * 0.5`. -/
def jitter (r : Fin (2 ^ 53)) : Float64 :=
  (Float64.finite (1 / 2)).add ((randomValue r).mul (.finite (1 / 2)))

/-- `ExponentialDelay.delay_for`, with the random bits it draws when there is jitter. -/
def delayFor (d : ExponentialDelay) (attempts : Int) (r : Fin (2 ^ 53)) : Except Exc Float64 :=
  if attempts < 1 then .ok (.finite 0)
  else do
    let delay ← d.capped attempts
    if !d.useJitter then .ok delay else .ok (delay.mul (jitter r))

end ExponentialDelay

/-- A number of microseconds as a `timedelta`, whose days have at most nine digits. -/
def timedeltaMicroseconds (micros : Int) : Except Exc Int :=
  let days := micros / 86400000000
  if -999999999 ≤ days ∧ days ≤ 999999999 then .ok micros
  else if -2 ^ 31 ≤ days ∧ days < 2 ^ 31 then
    .error (.overflowError ("days=" ++ toString days ++ "; must have magnitude <= 999999999"))
  else .error (.overflowError "Python int too large to convert to C int")

/-- `timedelta(seconds=x)` in microseconds: whole seconds exactly, the fraction rounded half to
even after a float multiplication. -/
def timedeltaSeconds (x : Float64) : Except Exc Int :=
  match x with
  | .finite q =>
    let whole : Int := if 0 ≤ q then ⌊q⌋ else -⌊-q⌋
    match Float64.round64 ((q - whole) * 1000000) with
    | .finite micros => timedeltaMicroseconds (whole * 1000000 + roundHalfEven micros)
    | _ => .error (.overflowError "cannot convert float infinity to integer")
  | .inf _ => .error (.overflowError "cannot convert float infinity to integer")
  | .nan => .error (.valueError "cannot convert float NaN to integer")

/-- The times that a `datetime` can hold: the years 1 to 9999. -/
def IsDatetime (t : Time) : Prop := -62135596800000000 ≤ t ∧ t ≤ 253402300799999999

instance (t : Time) : Decidable (IsDatetime t) := inferInstanceAs (Decidable (_ ∧ _))

/-- The result of date arithmetic. -/
def datetimeOf (t : Time) : Except Exc Time :=
  if IsDatetime t then .ok t else .error (.overflowError "date value out of range")

/-- `t + delta`. -/
def datetimeAdd (t : Time) (delta : Int) : Except Exc Time := datetimeOf (t + delta)

/-- `t - delta`. -/
def datetimeSub (t : Time) (delta : Int) : Except Exc Time := datetimeOf (t - delta)

theorem datetimeOf_eq_ok {t t' : Time} : datetimeOf t = .ok t' ↔ t' = t ∧ IsDatetime t := by
  unfold datetimeOf
  split
  · simp [eq_comm, *]
  · simp [*]

theorem datetimeAdd_of {t : Time} {delta : Int} (h : IsDatetime (t + delta)) :
    datetimeAdd t delta = .ok (t + delta) := datetimeOf_eq_ok.2 ⟨rfl, h⟩

theorem datetimeSub_of {t : Time} {delta : Int} (h : IsDatetime (t - delta)) :
    datetimeSub t delta = .ok (t - delta) := datetimeOf_eq_ok.2 ⟨rfl, h⟩

/-- `DispatchAction`. -/
inductive DispatchAction where
  | retry
  | dlq
deriving DecidableEq, Repr

/-- `RetryPolicy`. -/
structure RetryPolicy where
  maxAttempts : Int
  delay : ExponentialDelay

namespace RetryPolicy

/-- `RetryPolicy()`: three attempts, one second doubled up to four, without jitter. -/
def default : RetryPolicy where
  maxAttempts := 3
  delay := ⟨.finite 1, .finite 4, false⟩

/-- `is_retryable`. -/
def isRetryable (error : Exc) : Bool :=
  match error with
  | .transientDependency _ => true
  | error => !(error.isApplicationError || error.isDomainError)

/-- `decide_action`. -/
def decideAction (policy : RetryPolicy) (retryCount : Int) (error : Exc) : DispatchAction :=
  if !isRetryable error then .dlq
  else if policy.maxAttempts ≤ retryCount + 1 then .dlq
  else .retry

/-- `int(x)` of a float, which raises on an infinity and on NaN. -/
def intOfFloat (x : Float64) : Except Exc Int :=
  match x with
  | .finite q => .ok (if 0 ≤ q then ⌊q⌋ else -⌊-q⌋)
  | .inf _ => .error (.overflowError "cannot convert float infinity to integer")
  | .nan => .error (.valueError "cannot convert float NaN to integer")

/-- `compute_delay_seconds`. -/
def computeDelaySeconds (policy : RetryPolicy) (retryCount : Int) (r : Fin (2 ^ 53)) :
    Except Exc Int := do
  let delay ← policy.delay.delayFor (max retryCount 0 + 1) r
  let seconds ← intOfFloat delay
  .ok (max 1 seconds)

end RetryPolicy

end PaymentProcessing
