import Mathlib.Data.List.Sort
import Mathlib.Data.List.Infix
import PaymentProcessing.Application.Codec
import PaymentProcessing.Application.Retry
import PaymentProcessing.Concurrency.Machine
import PaymentProcessing.Infrastructure.Models
import PaymentProcessing.Relational.Locks
import PaymentProcessing.Relational.Table

/-!
# The world the program acts on

PostgreSQL at READ COMMITTED, the broker with the three queues, the clock, the random sources and
the webhook receivers, as the operations the program calls on them. A transaction stages its
writes, which `commit` applies at once; a statement that needs a row another transaction has locked
does not proceed. An operation may fail without an effect or take effect and raise all the same
(`Outcome`); what the outside decides is in the `Choice`.

`log` records what has happened, the newest entry first. No operation reads it.
-/

namespace PaymentProcessing

open Python Relational Concurrency

/-! ## The database -/

/-- What a transaction locks: a row, or a key it is about to insert. -/
inductive Lock where
  | payment (id : UUID)
  | idempotencyKey (key : String)
  | outbox (id : UUID)
  | inbox (id : UUID)
  | charge (id : UUID)
deriving DecidableEq

/-- The committed tables. -/
structure Tables where
  payments : Table PaymentModel.id
  outbox : Table OutboxModel.id
  inbox : Table InboxModel.messageId
  charges : Table GatewayChargeModel.paymentId

/-- A write of one row, staged until commit. -/
inductive Write where
  | insertPayment (row : PaymentModel)
  | updatePayment (row : PaymentModel)
  | insertOutbox (row : OutboxModel)
  | updateOutbox (id : UUID) (patch : OutboxPatch)
  | deleteOutbox (id : UUID)
  | insertInbox (row : InboxModel)
  | insertCharge (row : GatewayChargeModel)

/-- The tables after one write. -/
def Tables.write (db : Tables) : Write → Tables
  | .insertPayment row => { db with payments := db.payments.insert row }
  | .updatePayment row => { db with payments := db.payments.replace row }
  | .insertOutbox row => { db with outbox := db.outbox.insert row }
  | .updateOutbox id patch => { db with outbox := db.outbox.modify id patch.apply }
  | .deleteOutbox id => { db with outbox := db.outbox.erase id }
  | .insertInbox row => { db with inbox := db.inbox.insert row }
  | .insertCharge row => { db with charges := db.charges.insert row }

/-- The tables after the writes of a transaction. -/
def Tables.writeAll (db : Tables) (ws : List Write) : Tables := ws.foldl Tables.write db

/-! ## The broker -/

/-- A message: the document its body encodes, and its headers. -/
structure Message where
  body : List (String × Json)
  headers : Headers

/-- The queues. `unacked` are the deliveries of `payments.new` not settled yet, each with the
process it went to. -/
structure Broker where
  ready : List Message
  unacked : List (Nat × Message)
  retry : List Message
  dlq : List Message

namespace Broker

/-- A message arrives on the queue bound to its routing key. -/
def enqueue (b : Broker) (key : RoutingKey) (msg : Message) : Broker :=
  match key with
  | .new => { b with ready := b.ready ++ [msg] }
  | .retry => { b with retry := b.retry ++ [msg] }
  | .dlq => { b with dlq := b.dlq ++ [msg] }

/-- `ack`: the delivery of process `i` is done with. -/
def ack (b : Broker) (i : Nat) : Broker :=
  { b with unacked := b.unacked.filter fun d => d.1 ≠ i }

/-- `reject(requeue=False)`: `payments.new` dead-letters to the DLQ. -/
def reject (b : Broker) (i : Nat) : Broker :=
  { b with
    unacked := b.unacked.filter fun d => d.1 ≠ i
    dlq := b.dlq ++ (b.unacked.filter fun d => d.1 = i).map Prod.snd }

/-- The channel of process `i` is gone: its delivery goes back to the queue. -/
def requeue (b : Broker) (i : Nat) : Broker :=
  { b with
    unacked := b.unacked.filter fun d => d.1 ≠ i
    ready := (b.unacked.filter fun d => d.1 = i).map Prod.snd ++ b.ready }

/-- The `n`-th message of the retry queue expires; the queue dead-letters to `payments.new`. -/
def expire (b : Broker) (n : Nat) : Option Broker :=
  b.retry[n]?.map fun msg => { b with retry := b.retry.eraseIdx n, ready := b.ready ++ [msg] }

/-- The `n`-th ready message is delivered to process `i`. -/
def deliver (b : Broker) (i n : Nat) : Option (Message × Broker) :=
  b.ready[n]?.map fun msg =>
    (msg, { b with ready := b.ready.eraseIdx n, unacked := (i, msg) :: b.unacked })

end Broker

/-! ## Operations -/

/-- What the program asks of the outside. -/
inductive Op where
  -- the session
  | commit
  | rollback
  | close
  -- payments
  | getPayment (id : UUID)
  | selectPaymentForUpdate (id : UUID)
  | selectPaymentByKey (key : String)
  | insertPayment (row : PaymentModel)
  | updatePayment (row : PaymentModel)
  -- outbox
  | addOutbox (row : OutboxModel)
  | selectClaimable (limit : Nat) (now staleBefore : Time)
  | updateOutbox (ids : List UUID) (patch : OutboxPatch)
  | deleteProcessed (cutoff : Time) (limit : Nat)
  | countOutbox (statuses : List OutboxStatus)
  -- inbox and gateway charges
  | getInbox (messageId : UUID)
  | insertInbox (row : InboxModel)
  | getCharge (paymentId : UUID)
  | insertCharge (row : GatewayChargeModel)
  -- clock, random sources, event loop
  | now
  | uuid4
  | random
  | sleep
  -- the log of the service
  | log (event : String) (outboxId : UUID)
  -- broker
  | publish (key : RoutingKey) (body : List (String × Json)) (headers : Headers)
      (expiration : Option Int)
  | ack
  | reject
  -- webhook receiver
  | post (url : String) (payload : WebhookPayload) (idempotencyKey : String)

/-- What an operation answers. -/
@[reducible] def Res : Op → Type
  | .getPayment _ | .selectPaymentForUpdate _ | .selectPaymentByKey _ => Option PaymentModel
  | .selectClaimable .. => List OutboxModel
  | .deleteProcessed .. | .countOutbox _ => Nat
  | .getInbox _ => Option InboxModel
  | .getCharge _ => Option GatewayChargeModel
  | .insertCharge _ => Option Bool
  | .now => Time
  | .uuid4 => UUID
  | .random => Fin (2 ^ 53)
  | .post .. => Nat
  | _ => Unit

/-- The program's monad. -/
abbrev App := Prog Res Exc

/-- Whether an operation works, raises without an effect, or raises after its effect. -/
inductive Outcome where
  | fine
  | lost (f : Fault)
  | late (f : Fault)

/-- What the outside decides about one operation. -/
structure Choice where
  outcome : Outcome := .fine
  /-- The clock's reading. -/
  time : Time := 0
  /-- The value of `uuid4()`. -/
  uuid : UUID := UUID.ofNat 0
  /-- The bits of `random.random()`. -/
  random : Fin (2 ^ 53) := ExponentialDelay.noBits
  /-- Rows a statement does not get to see. -/
  skip : List UUID := []
  /-- The status code of the response. -/
  status : Nat := 200

/-! ## Processes -/

/-- `PublishOutbox` as it is configured; the durations are its `timedelta`s. -/
structure PublishOutbox where
  batchSize : Nat
  maxAttempts : Int
  claimTimeout : Int
  retention : Int
  backoff : ExponentialDelay

/-- What a process executes. -/
inductive Kind where
  | createPayment (command : CreatePaymentInput)
  | getPayment (paymentId : UUID)
  /-- `PaymentGateway.charge` on its own. -/
  | charge (payment : Payment)
  | processPayment (paymentId : UUID) (messageId : Option UUID)
  | publishOutbox (worker : PublishOutbox)
  /-- The consumer gets the `n`-th message that is ready. -/
  | dispatch (n : Nat)

/-- What a process returns. -/
inductive Reply where
  | payment (output : PaymentOutput)
  | charged (result : GatewayResult)
  | published (count : Nat)
  | done

/-- What has happened. -/
inductive Entry where
  | started (i : Nat) (k : Kind)
  | delivered (i : Nat) (msg : Message)
  | did (i : Nat) (op : Op) (r : Except Exc (Res op))
  | committed (i : Nat) (ws : List Write)

/-- The process an entry is about. -/
def Entry.process : Entry → Nat
  | .started i _ | .delivered i _ | .did i _ _ | .committed i _ => i

/-! ## States -/

/-- The shared state. -/
structure World where
  db : Tables
  /-- The writes of each process's open transaction, in order. -/
  staged : Nat → List Write
  locks : Locks Lock
  /-- The values `uuid4` has given, each with the process that asked. -/
  issued : Table (Prod.snd : Nat × UUID → UUID)
  clock : Time
  broker : Broker
  log : List Entry

namespace World

/-- An empty database, empty queues, nothing happened. -/
def init (clock : Time) : World where
  db := ⟨Table.empty, Table.empty, Table.empty, Table.empty⟩
  staged := fun _ => []
  locks := Locks.none
  issued := Table.empty
  clock := clock
  broker := ⟨[], [], [], []⟩
  log := []

/-- What process `i` reads: the committed tables with its own writes. -/
def view (s : World) (i : Nat) : Tables := s.db.writeAll (s.staged i)

/-- An entry is added to the log. -/
def note (s : World) (e : Entry) : World := { s with log := e :: s.log }

/-- Process `i` stages writes. -/
def stage (s : World) (i : Nat) (ws : List Write) : World :=
  { s with staged := Function.update s.staged i (s.staged i ++ ws) }

/-- The transaction of process `i` is over: what it staged is dropped, its locks are free. -/
def endTx (s : World) (i : Nat) : World :=
  { s with staged := Function.update s.staged i [], locks := s.locks.releaseAll i }

/-- The staged writes of process `i` become visible, all at once. -/
def commit (s : World) (i : Nat) : World :=
  ({ s with
      db := s.db.writeAll (s.staged i)
      log := .committed i (s.staged i) :: s.log }).endTx i

/-- Process `i` takes locks and stages writes under them. -/
def lockAndStage (s : World) (i : Nat) (ls : List Lock) (ws : List Write) : Option World :=
  (s.locks.acquireAll? i ls).map fun locks => { s with locks := locks }.stage i ws

/-- The rows `claim_batch` selects `FOR UPDATE SKIP LOCKED`, oldest first. -/
def claimable (s : World) (i : Nat) (skip : List UUID) (limit : Nat) (now staleBefore : Time) :
    List OutboxModel :=
  ((((s.view i).outbox.rows.filter fun row =>
    OutboxClaimFilter.build now staleBefore row && decide (s.locks.Free i (.outbox row.id)) &&
      decide (row.id ∉ skip))).insertionSort fun a b => a.createdAt ≤ b.createdAt).take limit

/-- The rows `delete_processed_before` deletes. -/
def purgeable (s : World) (i : Nat) (skip : List UUID) (limit : Nat) (cutoff : Time) :
    List OutboxModel :=
  ((s.view i).outbox.rows.filter fun row =>
    decide (row.status = .processed) && decide (row.id ∉ skip) &&
      match row.publishedAt with
      | none => false
      | some publishedAt => publishedAt < cutoff).take limit

/-- What an operation of process `i` answers and leaves behind when nothing fails; `none` while it
waits for a lock. -/
def effect (s : World) (i : Nat) (c : Choice) :
    (op : Op) → Option (Except Exc (Res op) × World)
  | .commit => some (.ok (), s.commit i)
  | .rollback => some (.ok (), s.endTx i)
  | .close => some (.ok (), s.endTx i)
  | .getPayment id => some (.ok ((s.view i).payments.find? id), s)
  | .selectPaymentForUpdate id =>
    match (s.view i).payments.find? id with
    | none => some (.ok none, s)
    | some row => (s.lockAndStage i [.payment id] []).map fun s' => (.ok (some row), s')
  | .selectPaymentByKey key =>
    some (.ok ((s.view i).payments.rows.find? fun row => row.idempotencyKey = key), s)
  | .insertPayment row =>
    (s.lockAndStage i [.payment row.id, .idempotencyKey row.idempotencyKey]
      [.insertPayment row]).map fun s' =>
        if ((s.view i).payments.find? row.id).isSome then
          (.error (.integrityError "payments_pkey"), s)
        else if (s.view i).payments.rows.any fun r => r.idempotencyKey = row.idempotencyKey then
          (.error (.integrityError "uq_payments_idempotency_key"), s)
        else (.ok (), s')
  | .updatePayment row =>
    (s.lockAndStage i [.payment row.id] [.updatePayment row]).map fun s' => (.ok (), s')
  | .addOutbox row => some (.ok (), s.stage i [.insertOutbox row])
  | .selectClaimable limit now staleBefore =>
    let rows := s.claimable i c.skip limit now staleBefore
    (s.lockAndStage i (rows.map fun row => .outbox row.id) []).map fun s' => (.ok rows, s')
  | .updateOutbox ids patch =>
    -- an update without a matching row does nothing
    let ids := ids.filter fun id => ((s.view i).outbox.find? id).isSome
    (s.lockAndStage i (ids.map .outbox) (ids.map fun id => .updateOutbox id patch)).map fun s' =>
      (.ok (), s')
  | .deleteProcessed cutoff limit =>
    let rows := s.purgeable i c.skip limit cutoff
    (s.lockAndStage i (rows.map fun row => .outbox row.id)
      (rows.map fun row => .deleteOutbox row.id)).map fun s' => (.ok rows.length, s')
  | .countOutbox statuses =>
    some (.ok ((s.view i).outbox.rows.filter fun row => row.status ∈ statuses).length, s)
  | .getInbox messageId => some (.ok ((s.view i).inbox.find? messageId), s)
  | .insertInbox row =>
    (s.lockAndStage i [.inbox row.messageId] [.insertInbox row]).map fun s' =>
      if ((s.view i).inbox.find? row.messageId).isSome then (.ok (), s) else (.ok (), s')
  | .getCharge paymentId => some (.ok ((s.view i).charges.find? paymentId), s)
  | .insertCharge row =>
    (s.lockAndStage i [.charge row.paymentId] [.insertCharge row]).map fun s' =>
      if ((s.view i).charges.find? row.paymentId).isSome then (.ok none, s)
      else (.ok (some row.isSuccessful), s')
  | .now => some (.ok c.time, s)
  | .uuid4 =>
    if s.issued.find? c.uuid = none then
      some (.ok c.uuid, { s with issued := s.issued.insert (i, c.uuid) })
    else none
  | .random => some (.ok c.random, s)
  | .sleep => some (.ok (), s)
  | .log _ _ => some (.ok (), s)
  | .publish key body headers _ =>
    some (.ok (), { s with broker := s.broker.enqueue key ⟨body, headers⟩ })
  | .ack => some (.ok (), { s with broker := s.broker.ack i })
  | .reject => some (.ok (), { s with broker := s.broker.reject i })
  | .post .. => some (.ok c.status, s)

/-- What an operation leaves behind when it fails before its effect. A session whose rollback or
close fails has lost its connection, and with it the transaction. -/
def fail (s : World) (i : Nat) : Op → World
  | .rollback | .close => s.endTx i
  | _ => s

end World

/-- Operations that are plain calls and cannot fail. -/
def Op.isLocal : Op → Bool
  | .now | .uuid4 | .random | .log .. => true
  | _ => false

/-- An operation of process `i`, resolved by a choice. -/
def World.exec (i : Nat) (op : Op) (c : Choice) (s : World) :
    Option (Except Exc (Res op) × World) :=
  let outcome := if op.isLocal then .fine else c.outcome
  match outcome with
  | .fine => (s.effect i c op).map fun rs => (rs.1, rs.2.note (.did i op rs.1))
  | .late f => (s.effect i c op).map fun rs =>
      (.error f.toExc, rs.2.note (.did i op (.error f.toExc)))
  | .lost f => some (.error f.toExc, (s.fail i op).note (.did i op (.error f.toExc)))

/-- What the outside does by itself. -/
inductive Env where
  /-- Time passes. -/
  | tick (d : Nat)
  /-- The broker notices that the channel of process `i` is gone. -/
  | requeue (i : Nat)
  /-- A message of the retry queue expires. -/
  | expire (n : Nat)

/-- The outside's own actions. -/
def World.env (e : Env) (s : World) : Option World :=
  match e with
  | .tick d => some { s with clock := s.clock + d }
  | .requeue i => some { s with broker := s.broker.requeue i }
  | .expire n => (s.broker.expire n).map fun b => { s with broker := b }

end PaymentProcessing
