import PaymentProcessing.Application.PublishOutbox
import PaymentProcessing.Presentation.Dispatcher

/-!
# The system

Any number of API requests, relay executions and consumers on one world.
-/

namespace PaymentProcessing

open Python Concurrency

/-- A process starts with its program; a consumer takes its message from the queue. -/
def World.start (py : Platform) (i : Nat) (k : Kind) (s : World) : Option (World × App Reply) :=
  let s := s.note (.started i k)
  match k with
  | .createPayment command => some (s, return .payment (← CreatePayment.execute py command))
  | .getPayment paymentId => some (s, return .payment (← GetPayment.execute paymentId))
  | .charge payment => some (s, return .charged (← RandomPaymentGateway.charge py payment))
  | .processPayment paymentId messageId =>
    some (s, do ProcessPayment.execute py paymentId messageId; return .done)
  | .publishOutbox worker => some (s, return .published (← worker.execute py))
  | .dispatch n => (s.broker.deliver i n).map fun mb =>
      ({ s with broker := mb.2 }.note (.delivered i mb.1),
        do PaymentMessageDispatcher.dispatch py mb.1; return .done)

/-- The machine. -/
def machine (py : Platform) : Machine Res Exc World Choice Kind Env Reply where
  exec := World.exec
  env := World.env
  start := World.start py
  halt i s := s.endTx i

/-- A configuration of the system. -/
abbrev Config := Sys Res Exc World Kind Reply

/-- Nothing has happened yet. -/
def Config.init (clock : Time) : Config := ⟨World.init clock, fun _ => .idle⟩

end PaymentProcessing
