import PaymentProcessing.Infrastructure.World
import PaymentProcessing.Messaging.Amqp

/-!
# The queues of the service (`infrastructure/messaging/topology.py`)

What every process declares when it starts, and what the clients and the queues themselves do with
messages afterwards: on the broker as it is, and on the three queues of `Broker`.
-/

namespace PaymentProcessing

open Python Relational Concurrency

/-- `NEW_ROUTING_KEY`, `RETRY_ROUTING_KEY` and `DLQ_ROUTING_KEY`, which are names of queues, too. -/
def RoutingKey.value : RoutingKey → String
  | .new => "payments.new"
  | .retry => "payments.new.retry"
  | .dlq => "payments.new.dlq"

/-- `PAYMENTS_EXCHANGE_NAME`. -/
def paymentsExchange : String := "payments"

/-- `RabbitQueue`, as far as it is declared and bound. -/
structure RabbitQueue where
  name : String
  routingKey : String
  deadLetter : Option (String × String) := none

namespace PaymentsTopology

/-- `NEW_QUEUE`. -/
def newQueue : RabbitQueue where
  name := RoutingKey.new.value
  routingKey := RoutingKey.new.value
  deadLetter := some (paymentsExchange, RoutingKey.dlq.value)

/-- `RETRY_QUEUE`. -/
def retryQueue : RabbitQueue where
  name := RoutingKey.retry.value
  routingKey := RoutingKey.retry.value
  deadLetter := some (paymentsExchange, RoutingKey.new.value)

/-- `DLQ_QUEUE`. -/
def dlqQueue : RabbitQueue where
  name := RoutingKey.dlq.value
  routingKey := RoutingKey.dlq.value

/-- `queues`. -/
def queues : List RabbitQueue := [newQueue, retryQueue, dlqQueue]

/-- The declarations of `declare`. -/
def declare : List Amqp.Declaration :=
  .exchange paymentsExchange :: queues.flatMap fun queue =>
    let routingKey := if queue.routingKey = "" then queue.name else queue.routingKey
    [.queue ⟨queue.name, queue.deadLetter⟩, .bind ⟨paymentsExchange, routingKey, queue.name⟩]

end PaymentsTopology

/-! ## What is done with messages -/

/-- A command of a client, or a message that expires. -/
inductive Command where
  | declare
  | publish (key : RoutingKey) (msg : Message)
  | deliver (i n : Nat)
  | ack (i : Nat)
  | reject (i : Nat)
  | requeue (i : Nat)
  | expire (n : Nat)

namespace Command

/-- A client declares the topology. -/
def isDeclare : Command → Bool
  | .declare => true
  | _ => false

/-- The command on the broker: consumers subscribe to `NEW_QUEUE`, and only the messages of
`RETRY_QUEUE` have a time to live. -/
def onAmqp (b : Amqp.Broker Message) : Command → Option (Option Message × Amqp.Broker Message)
  | .declare => (b.declareAll PaymentsTopology.declare).map (none, ·)
  | .publish key msg => (b.publish paymentsExchange key.value msg).map (none, ·)
  | .deliver i n => (b.deliver PaymentsTopology.newQueue.name i n).map fun mb => (some mb.1, mb.2)
  | .ack i => some (none, b.ack i)
  | .reject i => some (none, b.reject i)
  | .requeue i => some (none, b.requeue i)
  | .expire n => (b.expire PaymentsTopology.retryQueue.name n).map (none, ·)

/-- The command on the three queues. -/
def onQueues (b : Broker) : Command → Option (Option Message × Broker)
  | .declare => some (none, b)
  | .publish key msg => some (none, b.enqueue key msg)
  | .deliver i n => (b.deliver i n).map fun mb => (some mb.1, mb.2)
  | .ack i => some (none, b.ack i)
  | .reject i => some (none, b.reject i)
  | .requeue i => some (none, b.requeue i)
  | .expire n => (b.expire n).map (none, ·)

/-- Commands, one after the other, with the messages that are delivered. -/
def runAll {σ : Type} (step : σ → Command → Option (Option Message × σ)) :
    List Command → σ → Option (List Message × σ)
  | [], s => some ([], s)
  | c :: cs, s => (step s c).bind fun os =>
      (runAll step cs os.2).map fun rest => (os.1.toList ++ rest.1, rest.2)

end Command

end PaymentProcessing
