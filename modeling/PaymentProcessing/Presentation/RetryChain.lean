import PaymentProcessing.Presentation.Dispatcher

/-!
# A message and its retries

The dispatcher again, over any raw body, any policy and any handler, and the queues one message
goes through: `payments.new`, the retry queue, whose messages expire to `payments.new`, and the
DLQ. The publisher works here and no process crashes.
-/

namespace PaymentProcessing

open Python Concurrency

/-! ## The dispatcher -/

/-- What a dispatch is given: the raw body and the headers of a message, the random source, the
publisher, and the ways to settle the message. The raw body is bytes, which `encode_message_body`
returns as they are. -/
structure Delivery {Op : Type} (Res : Op → Type) (Body : Type) where
  body : Body
  headers : Headers
  random : Prog Res Exc (Fin (2 ^ 53))
  publish : RoutingKey → Body → Headers → Option Int → Prog Res Exc Unit
  ack : Prog Res Exc Unit
  reject : Prog Res Exc Unit

namespace Delivery

variable {Op : Type} {Res : Op → Type} {Body : Type} (d : Delivery Res Body) (policy : RetryPolicy)

/-- `FailureRouter._schedule_retry`. -/
def scheduleRetry (retryCount : Int) : Prog Res Exc Unit := do
  let bits ← if policy.delay.useJitter then d.random else pure ExponentialDelay.noBits
  let delay ← .ofExcept (policy.computeDelaySeconds retryCount bits)
  d.publish .retry d.body
    (FailureRouter.setHeader d.headers retryCountHeader (.int (retryCount + 1))) (some delay)

/-- `FailureRouter._to_dlq`. -/
def toDlq : Prog Res Exc Unit := d.publish .dlq d.body d.headers none

/-- `FailureRouter.route`. -/
def route (retryCount : Int) (error : Exc) : Prog Res Exc Unit :=
  match policy.decideAction retryCount error with
  | .dlq => d.toDlq
  | .retry => d.scheduleRetry policy retryCount

/-- `PaymentMessageDispatcher._route_failure`. -/
def routeFailure (error : Exc) : Prog Res Exc Unit := do
  let routed ← tryCatch
    (do
      let retryCount ← .ofExcept (InboundPaymentMessage.parseRetryCount d.headers)
      d.route policy retryCount error
      return true)
    fun e => if e.isException then return false else throw e
  if routed then d.ack else d.reject

/-- `PaymentMessageDispatcher.dispatch`, with what the handler does. -/
def dispatch (handle : Prog Res Exc Unit) : Prog Res Exc Unit := do
  let failure ← tryCatch
    (do
      handle
      return none)
    fun e => if e.isException then return some e else throw e
  match failure with
  | none => d.ack
  | some error => d.routeFailure policy error

end Delivery

/-- The delivery of a message in the system. -/
def Message.delivery (msg : Message) : Delivery Res (List (String × Json)) where
  body := msg.body
  headers := msg.headers
  random := call .random
  publish key body headers expiration := call (.publish key body headers expiration)
  ack := call .ack
  reject := call .reject

/-- The consumers of the system run this dispatcher. -/
theorem dispatch_eq_delivery (py : Platform) (msg : Message) :
    PaymentMessageDispatcher.dispatch py msg =
      msg.delivery.dispatch RetryPolicy.default (PaymentMessageHandler.handle py msg) := rfl

/-! ## The queues of one message -/

/-- A message on a queue. -/
structure Letter (Body : Type) where
  body : Body
  headers : Headers

/-- What a dispatch asks of the outside. -/
inductive ChannelOp (Body : Type) where
  | random
  | publish (key : RoutingKey) (letter : Letter Body) (expiration : Option Int)
  | ack
  | reject

/-- What it is answered. -/
@[reducible] def ChannelOp.Res {Body : Type} : ChannelOp Body → Type
  | .random => Fin (2 ^ 53)
  | _ => Unit

/-- The queues, and what the present dispatch has done. -/
structure Channel (Body : Type) where
  ready : List (Letter Body)
  unacked : List (Letter Body)
  retry : List (Letter Body)
  dlq : List (Letter Body)
  performed : List (ChannelOp Body)

/-- A dispatch of a chain: the message, what its handling came to, and what was done. -/
structure Link (Body : Type) where
  letter : Letter Body
  outcome : Except Exc Unit
  performed : List (ChannelOp Body)

variable {Body : Type}

/-- The delivery of a letter. -/
def Letter.delivery (letter : Letter Body) : Delivery (@ChannelOp.Res Body) Body where
  body := letter.body
  headers := letter.headers
  random := .perform ChannelOp.random
  publish key body headers expiration :=
    .perform (ChannelOp.publish key ⟨body, headers⟩ expiration)
  ack := .perform ChannelOp.ack
  reject := .perform ChannelOp.reject

namespace Channel

/-- A message arrives on the queue bound to its routing key. -/
def enqueue (s : Channel Body) (key : RoutingKey) (letter : Letter Body) : Channel Body :=
  match key with
  | .new => { s with ready := s.ready ++ [letter] }
  | .retry => { s with retry := s.retry ++ [letter] }
  | .dlq => { s with dlq := s.dlq ++ [letter] }

/-- What an operation does. -/
def effect (s : Channel Body) : ChannelOp Body → Channel Body
  | .random => s
  | .publish key letter _ => s.enqueue key letter
  | .ack => { s with unacked := [] }
  | .reject => { s with unacked := [], dlq := s.dlq ++ s.unacked }

/-- What an operation answers and does; `bits` is what the random source says. -/
def answer (bits : Fin (2 ^ 53)) (op : ChannelOp Body) (s : Channel Body) :
    Except Exc op.Res × Channel Body :=
  let s' := s.effect op
  (.ok (match op with
    | .random => bits
    | .publish .. | .ack | .reject => ()), { s' with performed := s'.performed ++ [op] })

/-- The first message that is ready is dispatched, with what its handling comes to. -/
def dispatchNext (policy : RetryPolicy) (bits : Fin (2 ^ 53)) (outcome : Except Exc Unit)
    (s : Channel Body) : Option (Link Body × Channel Body) :=
  match s.ready with
  | [] => none
  | letter :: ready =>
    let s' := ((letter.delivery.dispatch policy (.ofExcept outcome)).eval (answer bits)
      { s with ready := ready, unacked := letter :: s.unacked, performed := [] }).2
    some (⟨letter, outcome, s'.performed⟩, s')

/-- The messages of the retry queue expire to `payments.new`. -/
def expire (s : Channel Body) : Channel Body :=
  { s with ready := s.ready ++ s.retry, retry := [] }

/-- What is ready is dispatched again and again, with what its handling comes to each time, until
nothing is ready or no more outcomes are given: the dispatches and the queues. -/
def chain (policy : RetryPolicy) (bits : Fin (2 ^ 53)) :
    List (Except Exc Unit) → Channel Body → List (Link Body) × Channel Body
  | [], s => ([], s)
  | outcome :: outcomes, s =>
    match s.dispatchNext policy bits outcome with
    | none => ([], s)
    | some (link, s') =>
      let rest := chain policy bits outcomes s'.expire
      (link :: rest.1, rest.2)

/-- One message has just arrived on `payments.new`. -/
def arrived (letter : Letter Body) : Channel Body := ⟨[letter], [], [], [], []⟩

end Channel

namespace Link

/-- The publishes of the dispatch. -/
def forwarded (link : Link Body) : List (RoutingKey × Letter Body × Option Int) :=
  link.performed.filterMap fun
    | .publish key letter expiration => some (key, letter, expiration)
    | _ => none

/-- How often the dispatch settled its delivery. -/
def settled (link : Link Body) : Nat :=
  link.performed.countP fun
    | .ack | .reject => true
    | _ => false

/-- The expirations it set, in seconds. -/
def expirations (link : Link Body) : List Int := link.forwarded.filterMap fun f => f.2.2

end Link

end PaymentProcessing
