import PaymentProcessing.Application.Retry

/-!
# The relay loop (`presentation/outbox_relay.py`, `presentation/backoff.py`)

`_run` between two of its awaits is one function of what the event loop resumes it with: `resume`
says where it suspends next, or how it ends. The stop flag is read in between, so it is an argument.
Log calls have no effect here.
-/

namespace PaymentProcessing

open Python

/-! ## Backoff -/

/-- `ExponentialBackoff`. -/
structure ExponentialBackoff where
  schedule : ExponentialDelay
  failures : Nat

namespace ExponentialBackoff

/-- `_ERROR_BACKOFF_MIN`. -/
def errorBackoffMin : Float64 := .finite 1

/-- `_ERROR_BACKOFF_MAX`. -/
def errorBackoffMax : Float64 := .finite 30

/-- `ExponentialBackoff(initial, cap=…, use_jitter=…)`. -/
def new (initial : Float64) (cap : Float64 := errorBackoffMax) (useJitter : Bool := true) :
    ExponentialBackoff :=
  ⟨⟨initial, cap, useJitter⟩, 0⟩

/-- `for_interval`. -/
def forInterval (interval : Float64) (useJitter : Bool := true) : ExponentialBackoff :=
  new (interval.max errorBackoffMin) errorBackoffMax useJitter

/-- `reset`. -/
def reset (self : ExponentialBackoff) : ExponentialBackoff := { self with failures := 0 }

/-- `next_delay`, with the random bits it draws; the failure is counted before the delay is
computed. -/
def nextDelay (self : ExponentialBackoff) (bits : Fin (2 ^ 53)) :
    Except Exc Float64 × ExponentialBackoff :=
  let self := { self with failures := self.failures + 1 }
  (self.schedule.delayFor self.failures bits, self)

end ExponentialBackoff

/-- `WorkerLoop.isolate`: what the awaited action comes to. -/
def WorkerLoop.isolate {α : Type} (action : Except Exc α) : Except Exc (Option α) :=
  match action with
  | .ok a => .ok (some a)
  | .error e => if e.isException then .ok none else .error e

/-! ## The loop -/

/-- `OutboxRelay`, without the use case it polls. -/
structure OutboxRelay where
  interval : Float64
  batchSize : Nat := 50

/-- Where `_run` is suspended. -/
inductive RelayAwait where
  /-- in `isolate(publish_outbox.execute)` -/
  | publishing
  /-- in `wait(timeout)` -/
  | waiting (timeout : Float64)
  /-- in `sleep(0)` -/
  | yielding
deriving DecidableEq

/-- What `_run` comes to when it is resumed. -/
inductive Turn where
  | suspended (at' : RelayAwait)
  | returned
  | raised (e : Exc)
deriving DecidableEq

/-- What the event loop resumes `_run` with. -/
inductive Wake where
  /-- The execution has ended; the bits are for the backoff. -/
  | polled (outcome : Except Exc Nat) (bits : Fin (2 ^ 53))
  /-- The task has its first turn, or the wait is over: the timeout, the stop flag or a
  cancellation. -/
  | ended (outcome : Except Exc Unit)

namespace OutboxRelay

/-- `while not self._loop.is_stopped()`: the next execution begins without an await in between. -/
def loopHead (stopped : Bool) : Turn := if stopped then .returned else .suspended .publishing

/-- The body of the loop after the execution. -/
def afterPoll (self : OutboxRelay) (backoff : ExponentialBackoff) (stopped : Bool)
    (outcome : Except Exc Nat) (bits : Fin (2 ^ 53)) : Turn × ExponentialBackoff :=
  match WorkerLoop.isolate outcome with
  | .error e => (.raised e, backoff)
  | .ok none =>
    match backoff.nextDelay bits with
    | (.ok delay, backoff) => (.suspended (.waiting delay), backoff)
    | (.error e, backoff) => (.raised e, backoff)
  | .ok (some published) =>
    if stopped then (.returned, backoff.reset)
    else if published < self.batchSize then (.suspended (.waiting self.interval), backoff.reset)
    else (.suspended .yielding, backoff.reset)

/-- `_run` from one await to the next; `none` stands for the await before its first turn. -/
def resume (self : OutboxRelay) (backoff : ExponentialBackoff) (stopped : Bool) :
    Option RelayAwait → Wake → Option (Turn × ExponentialBackoff)
  | some .publishing, .polled outcome bits => some (self.afterPoll backoff stopped outcome bits)
  | some .publishing, .ended _ => none
  | _, .polled .. => none
  | _, .ended (.ok ()) => some (loopHead stopped, backoff)
  | _, .ended (.error e) => some (.raised e, backoff)

end OutboxRelay

end PaymentProcessing
