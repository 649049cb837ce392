import PaymentProcessing.Concurrency.Transitions
import PaymentProcessing.Presentation.OutboxRelay

/-!
# Starting and stopping the relay (`presentation/worker.py`)

One `OutboxRelay` with its `WorkerLoop` on an event loop: the worker tasks that `start` has created
and the calls of `stop` that are suspended in `_join`. Code runs without interruption from one await
to the next, and the event loop may resume whatever can be resumed, in any order.

Cancelling a caller that awaits a task cancels the task; the caller sees it when the task is
finished. A caller cancelled after that is resumed with `CancelledError` (`mustCancel`).
-/

namespace PaymentProcessing

open Python Concurrency

/-- A worker task. -/
inductive WorkerTask where
  /-- Before its first turn. -/
  | created
  | suspended (at' : RelayAwait)
  /-- Finished; a cancelled task ends with `CancelledError`. -/
  | done (outcome : Except Exc Unit)

namespace WorkerTask

/-- `task.done()`. -/
def isDone : WorkerTask → Bool
  | .done _ => true
  | _ => false

/-- An execution of the relay is in flight. -/
def isPublishing : WorkerTask → Bool
  | .suspended .publishing => true
  | _ => false

end WorkerTask

/-- A call of `stop`, with the task that was current when it was made. -/
inductive StopCall where
  /-- Suspended in `await task`. -/
  | joining (task : Nat) (cancelling mustCancel : Bool)
  | returned (task : Option Nat)
  | raised (e : Exc)
deriving DecidableEq

/-- The relay on the event loop. Tasks are numbered as they are created. -/
structure RelayLoop where
  /-- `_stop` -/
  stop : Bool
  /-- `_task` -/
  task : Option Nat
  backoff : ExponentialBackoff
  tasks : List WorkerTask
  /-- The calls of `stop`, by caller. -/
  calls : Nat → Option StopCall

/-- What can happen next. -/
inductive LoopAction where
  /-- `start()` -/
  | start
  /-- Caller `k` calls `stop()`; it may have been cancelled before. -/
  | stop (k : Nat) (cancelling : Bool)
  /-- Caller `k` is cancelled in `await task`. -/
  | cancelStop (k : Nat)
  /-- Caller `k` is resumed, its task is finished. -/
  | resumeStop (k : Nat)
  /-- A worker task is resumed. -/
  | run (t : Nat) (wake : Wake)

namespace RelayLoop

/-- A relay that was just constructed. -/
def init (relay : OutboxRelay) : RelayLoop where
  stop := false
  task := none
  backoff := .forInterval relay.interval
  tasks := []
  calls := fun _ => none

/-- `task.done()`. -/
def isDone (s : RelayLoop) (t : Nat) : Bool :=
  match s.tasks[t]? with
  | some task => task.isDone
  | none => false

/-- `WorkerLoop.start`. -/
def start (s : RelayLoop) : RelayLoop :=
  if s.task.any fun t => !s.isDone t then s
  else { s with stop := false, task := some s.tasks.length, tasks := s.tasks ++ [.created] }

/-- The call of caller `k` is now `call`. -/
def setCall (s : RelayLoop) (k : Nat) (call : StopCall) : RelayLoop :=
  { s with calls := Function.update s.calls k (some call) }

/-- `_join` from `await task` on, where the task has ended with `outcome`: the handle is cleared, and
`CancelledError` is the caller's if it was cancelled. -/
def join (s : RelayLoop) (k t : Nat) (outcome : Except Exc Unit) (cancelling mustCancel : Bool) :
    RelayLoop :=
  let s := { s with task := none }
  match if mustCancel then .error .cancelled else outcome with
  | .ok () => s.setCall k (.returned (some t))
  | .error .cancelled =>
    if cancelling then s.setCall k (.raised .cancelled) else s.setCall k (.returned (some t))
  | .error e => s.setCall k (.raised e)

/-- `WorkerLoop.stop` until it is suspended or ends: awaiting a finished task does not suspend. -/
def stopCall (s : RelayLoop) (k : Nat) (cancelling : Bool) : RelayLoop :=
  let s := { s with stop := true }
  match s.task with
  | none => s.setCall k (.returned none)
  | some t =>
    match s.tasks[t]? with
    | some (.done outcome) => s.join k t outcome cancelling false
    | _ => s.setCall k (.joining t cancelling false)

/-- The worker task after its turn. -/
def turnTask : Turn → WorkerTask
  | .suspended at' => .suspended at'
  | .returned => .done (.ok ())
  | .raised e => .done (.error e)

/-- A worker task is resumed. -/
def runTask (relay : OutboxRelay) (s : RelayLoop) (t : Nat) (wake : Wake) : Option RelayLoop :=
  let at' : Option (Option RelayAwait) := match s.tasks[t]? with
    | some .created => some none
    | some (.suspended at') => some (some at')
    | _ => none
  at'.bind fun at' => (relay.resume s.backoff s.stop at' wake).map fun turn =>
    { s with backoff := turn.2, tasks := s.tasks.set t (turnTask turn.1) }

/-- One action. -/
def step (relay : OutboxRelay) (a : LoopAction) (s : RelayLoop) : Option RelayLoop :=
  match a with
  | .start => some s.start
  | .stop k cancelling => if s.calls k = none then some (s.stopCall k cancelling) else none
  | .cancelStop k =>
    match s.calls k with
    | some (.joining t _ mustCancel) =>
      some (s.setCall k (.joining t true (mustCancel || s.isDone t)))
    | _ => none
  | .resumeStop k =>
    match s.calls k with
    | some (.joining t cancelling mustCancel) =>
      match s.tasks[t]? with
      | some (.done outcome) => some (s.join k t outcome cancelling mustCancel)
      | _ => none
    | _ => none
  | .run t wake => runTask relay s t wake

end RelayLoop

end PaymentProcessing
