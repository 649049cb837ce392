import PaymentProcessing.Concurrency.RelyGuarantee
import PaymentProcessing.Protocol.Effects

/-!
# What processes know and promise

The facts about the shared state that the code of one process relies on (`Inv`, `Evolves`, `Rely`)
and what it must know when it performs an operation (`Req`). A commit is the interesting one:
`CommitLegit` lists every batch of writes the program commits, with what holds when it does.

Most facts say that something is in the log. The log only grows, so nobody undoes them.
-/

namespace PaymentProcessing

open Python Relational Concurrency

/-- The process executes `ProcessPayment`. -/
def Kind.isConsumer : Kind → Bool
  | .processPayment .. | .dispatch _ => true
  | _ => false

/-- Every operation but a webhook. -/
def Op.notPost : Op → Prop
  | .post .. => False
  | _ => True

/-- Operations that mark the row as processed, in a transaction of their own. -/
def Op.marks (id : UUID) : Op → Prop
  | .now | .commit | .rollback | .close => True
  | .updateOutbox ids patch => ids = [id] ∧ ∃ now, patch = SqlOutboxQueue.processedPatch now
  | _ => False

/-- The operations a process has performed, the newest first. -/
abbrev History : Type := List (Performed Res Exc)

/-- The operation of process `i` that an entry records. -/
def Entry.performed (i : Nat) : Entry → Option (Performed Res Exc)
  | .did j op r => if j = i then some ⟨op, r⟩ else none
  | _ => none

/-- The row was selected to be claimed at `now`. -/
def SelectedIn (row : OutboxModel) (now : Time) (h : History) : Prop :=
  ∃ limit staleBefore rows, row ∈ rows ∧ ⟨.selectClaimable limit now staleBefore, .ok rows⟩ ∈ h

/-- What is performed, oldest first, where the delivery of `row`, claimed at `now`, raises `e`: its
event cannot be encoded, or the broker does not take it, or the broker has taken it and an operation
that marks the row raises. -/
inductive FailedDelivery (py : Platform) (row : OutboxModel) (now : Time) (e : Exc) :
    History → Prop where
  | encode
      (h : OutboxEventCodec.encode py (OutboxMapper.toClaimedRecord row now) = .error e) :
    FailedDelivery py row now e []
  | publish (body : List (String × Json)) (headers : Headers)
      (h : OutboxEventCodec.encode py (OutboxMapper.toClaimedRecord row now) = .ok (body, headers)) :
    FailedDelivery py row now e [⟨.publish .new body headers none, .error e⟩]
  | mark (body : List (String × Json)) (headers : Headers) (marking : History)
      (h : OutboxEventCodec.encode py (OutboxMapper.toClaimedRecord row now) = .ok (body, headers))
      (marks : ∀ x ∈ marking, x.1.marks row.id) (raised : ∃ op, ⟨op, .error e⟩ ∈ marking) :
    FailedDelivery py row now e (⟨.publish .new body headers none, .ok ()⟩ :: marking)

/-- Every operation but the selection of a batch. -/
def Op.notSelect : Op → Prop
  | .selectClaimable .. => False
  | _ => True

namespace World

/-! ## The log -/

/-- The entry is in the log. -/
def Logged (e : Entry) (s : World) : Prop := e ∈ s.log

/-- Process `i` performed `op` and it answered `r`. -/
def Did (i : Nat) (op : Op) (r : Except Exc (Res op)) (s : World) : Prop :=
  s.Logged (.did i op r)

/-- Process `i` performed no operation but those with `φ`. -/
def DidOnly (φ : Op → Prop) (i : Nat) (s : World) : Prop := ∀ op r, s.Did i op r → φ op

/-- `e` happened before `e'`. -/
def Before (e e' : Entry) (s : World) : Prop := ∃ l₁ l₂, s.log = l₁ ++ e' :: l₂ ∧ e ∈ l₂

/-- The entries about process `i`, newest first. -/
def own (s : World) (i : Nat) : List Entry := s.log.filter fun e => e.process = i

theorem mem_own {s : World} {i : Nat} {e : Entry} :
    e ∈ s.own i ↔ s.Logged e ∧ e.process = i := by
  simp [own, Logged]

theorem not_logged_of_own {s : World} {i : Nat} {e : Entry} (h : s.own i = []) (he : s.Logged e) :
    e.process ≠ i := by
  intro hp
  have hmem : e ∈ s.own i := mem_own.2 ⟨he, hp⟩
  rw [h] at hmem
  cases hmem

theorem logged_of_own_eq {s s' : World} {i : Nat} {e : Entry} (h : s'.own i = s.own i)
    (he : s'.Logged e) (hp : e.process = i) : s.Logged e := by
  have hmem : e ∈ s'.own i := mem_own.2 ⟨he, hp⟩
  rw [h] at hmem
  exact (mem_own.1 hmem).1

/-- What process `i` has performed. -/
def history (i : Nat) (s : World) : History := s.log.filterMap (Entry.performed i)

theorem performed_eq_some {i : Nat} {e : Entry} {op : Op} {r : Except Exc (Res op)} :
    e.performed i = some ⟨op, r⟩ ↔ e = .did i op r := by
  cases e with
  | did j op' r' =>
    simp only [Entry.performed, Entry.did.injEq]
    split_ifs with hj
    · subst hj
      simp only [Option.some.injEq, true_and]
      exact Sigma.mk.injEq ..  ▸ Iff.rfl
    · simp [hj]
  | _ => simp [Entry.performed]

theorem mem_history {s : World} {i : Nat} {op : Op} {r : Except Exc (Res op)} :
    ⟨op, r⟩ ∈ s.history i ↔ s.Did i op r := by
  rw [history, List.mem_filterMap]
  constructor
  · rintro ⟨e, he, hp⟩
    rwa [performed_eq_some.1 hp] at he
  · intro hd
    exact ⟨_, hd, performed_eq_some.2 rfl⟩

theorem history_append {s s' : World} {i : Nat} {l : List Entry} (hl : s'.log = l ++ s.log)
    (he : ∀ e ∈ l, ∀ op r, e ≠ .did i op r) : s'.history i = s.history i := by
  have hnone : l.filterMap (Entry.performed i) = [] := by
    refine List.filterMap_eq_nil_iff.2 fun e hm => ?_
    cases hp : e.performed i with
    | none => rfl
    | some x => exact absurd (performed_eq_some.1 hp) (he e hm x.1 x.2)
  rw [history, hl, List.filterMap_append, hnone]
  rfl

theorem history_suffix {s s' : World} (h : s.log <:+ s'.log) (i : Nat) :
    s.history i <:+ s'.history i := by
  obtain ⟨l, hl⟩ := h
  exact ⟨l.filterMap (Entry.performed i), by rw [history, history, ← hl, List.filterMap_append]⟩

/-- A process that performs an operation has performed it. -/
theorem exec_history {i : Nat} {op : Op} {r : Except Exc (Res op)} {c : Choice} {s s' : World}
    (h : World.exec i op c s = some (r, s')) : s'.history i = ⟨op, r⟩ :: s.history i := by
  obtain ⟨l, hl, he⟩ := exec_log h
  have hnew : s'.history i = ⟨op, r⟩ :: history i { s with log := l ++ s.log } := by
    rw [history, hl, List.filterMap_cons_some (performed_eq_some.2 rfl)]
    rfl
  have hsame : history i { s with log := l ++ s.log } = s.history i := by
    refine history_append rfl fun e hm op' r' hd => ?_
    cases (he e hm).2.symm.trans hd
  rw [hnew, hsame]

theorem performed_of_process {i : Nat} {e : Entry} (h : e.process ≠ i) :
    e.performed i = none := by
  cases e with
  | did j op r => exact if_neg h
  | _ => rfl

/-- The history is determined by the entries about the process. -/
theorem history_eq_own (s : World) (i : Nat) :
    s.history i = (s.own i).filterMap (Entry.performed i) := by
  rw [history, own, List.filterMap_filter]
  refine List.filterMap_congr fun e _ => ?_
  by_cases he : e.process = i
  · simp [he]
  · simp [he, performed_of_process he]

theorem history_of_own_eq {s s' : World} {i : Nat} (h : s'.own i = s.own i) :
    s'.history i = s.history i := by
  rw [history_eq_own, history_eq_own, h]

/-- The `uuid4` value was given to process `i`. -/
def IssuedTo (i : Nat) (u : UUID) (s : World) : Prop := s.issued.find? u = some (i, u)

/-- An outbox row with this id has been committed. -/
def Used (id : UUID) (s : World) : Prop :=
  ∃ i ws row, s.Logged (.committed i ws) ∧ .insertOutbox row ∈ ws ∧ row.id = id

/-- The row of a payment is in the table. -/
def Stored (p : Payment) (s : World) : Prop :=
  s.db.payments.find? p.id = some (PaymentMapper.toModel p)

/-- The gateway's recorded result for a payment. -/
def Charged (paymentId : UUID) (isSuccessful : Bool) (s : World) : Prop :=
  ∃ row, s.db.charges.find? paymentId = some row ∧ row.isSuccessful = isSuccessful

/-- The message id is in the inbox. -/
def Seen (messageId : UUID) (s : World) : Prop :=
  ∃ row, s.db.inbox.find? messageId = some row

/-! ## Processes -/

/-- Process `i` has started. -/
def Started (i : Nat) (s : World) : Prop := ∃ k, s.Logged (.started i k)

/-- Process `i` executes the relay with this configuration. -/
def Relays (i : Nat) (worker : PublishOutbox) (s : World) : Prop :=
  s.Logged (.started i (.publishOutbox worker))

/-- Process `i` executes `ProcessPayment` for this payment and this message id: it was started so,
or it got a message that says so. -/
def Executes (py : Platform) (i : Nat) (paymentId : UUID) (messageId : Option UUID) (s : World) :
    Prop :=
  s.Logged (.started i (.processPayment paymentId messageId)) ∨
  ∃ msg, s.Logged (.delivered i msg) ∧
    InboundPaymentMessage.parsePaymentId py msg.body = .ok paymentId ∧
    InboundPaymentMessage.parseOutboxId py msg = messageId

/-- Process `i` executes no `ProcessPayment`, or it found its message id missing in the inbox. -/
def Cleared (py : Platform) (i : Nat) (s : World) : Prop :=
  (∃ k, s.Logged (.started i k) ∧ k.isConsumer = false) ∨
  ∃ paymentId messageId, s.Executes py i paymentId messageId ∧
    ∀ m, messageId = some m → s.Did i (.getInbox m) (.ok none)

/-- A webhook of process `i` for this payment was answered with success. -/
def Posted (i : Nat) (paymentId : UUID) (s : World) : Prop :=
  ∃ url payload status, s.Did i (.post url payload paymentId.str) (.ok status) ∧
    200 ≤ status ∧ status < 300

/-- Process `i` forwarded the message it got. -/
def Forwarded (i : Nat) (s : World) : Prop :=
  ∃ msg key headers expiration, s.Logged (.delivered i msg) ∧ key ≠ .new ∧
    s.Did i (.publish key msg.body headers expiration) (.ok ())

/-- Process `i` got its message processed, now or earlier. -/
def Handled (py : Platform) (i : Nat) (s : World) : Prop :=
  ∃ paymentId messageId, s.Executes py i paymentId messageId ∧
    (s.Posted i paymentId ∨ ∃ m, messageId = some m ∧ s.Seen m)

/-- Process `i` selected `rows` to be claimed at `now`. -/
def Selected (i : Nat) (rows : List OutboxModel) (now : Time) (s : World) : Prop :=
  ∃ limit staleBefore, s.Did i (.selectClaimable limit now staleBefore) (.ok rows)

/-- What a claim of `rows` at `now` writes. -/
def claimWrites (rows : List OutboxModel) (now : Time) : List Write :=
  (rows.map (·.id)).map fun id => .updateOutbox id (SqlOutboxQueue.claimPatch now)

/-- Process `i` claimed `row`, as it was then, at `now`. -/
def Claimed (i : Nat) (row : OutboxModel) (now : Time) (s : World) : Prop :=
  ∃ rows, s.Selected i rows now ∧ row ∈ rows ∧ s.Logged (.committed i (claimWrites rows now))

/-- The event of `row`, claimed at `now`, was published by process `i`. -/
def Published (py : Platform) (i : Nat) (row : OutboxModel) (now : Time) (s : World) : Prop :=
  ∃ body headers,
    OutboxEventCodec.encode py (OutboxMapper.toClaimedRecord row now) = .ok (body, headers) ∧
      s.Did i (.publish .new body headers none) (.ok ())

/-- Process `i` claimed `row`, then its delivery of the row failed, and it logged the failure. -/
def DeliveryFailed (py : Platform) (i : Nat) (row : OutboxModel) (s : World) : Prop :=
  ∃ claimedAt e run before, s.Claimed i row claimedAt ∧ SelectedIn row claimedAt before ∧
    FailedDelivery py row claimedAt e run ∧ e.isException = true ∧
    ⟨.log "outbox.publish_failed" row.id, .ok ()⟩ :: (run.reverse ++ before) <:+ s.history i

/-- Process `i` has read the clock and determined what its release of `row` sets. -/
def Decided (i : Nat) (worker : PublishOutbox) (row : OutboxModel) (claimedAt : Time)
    (patch : OutboxPatch) (s : World) : Prop :=
  ∃ now status availableAt, s.Did i .now (.ok now) ∧
    (worker.nextAttempt (OutboxMapper.toClaimedRecord row claimedAt) (row.retryCount + 1)
      now).CanReturn (status, availableAt) ∧
    patch = SqlOutboxQueue.releasePatch status (row.retryCount + 1) availableAt

/-- The ids whose `retry_count` the writes set. -/
def releases : List Write → List UUID
  | [] => []
  | .updateOutbox id patch :: ws =>
    if patch.retryCount.isSome then id :: releases ws else releases ws
  | _ :: ws => releases ws

/-- Process `i` has committed no release of the row. -/
def NotReleased (i : Nat) (id : UUID) (s : World) : Prop :=
  ∀ ws, s.Logged (.committed i ws) → id ∉ releases ws

end World

/-! ## Commits -/

/-- The event written with a payment. -/
def createdEvent (id paymentId : UUID) (createdAt : Time) : OutboxModel where
  id := id
  eventType := paymentCreated
  payload := CreatePayment.createdPayload paymentId
  createdAt := createdAt
  publishedAt := none
  status := .new
  retryCount := 0
  claimedAt := none
  availableAt := none

/-- The payment completed with the gateway's result. -/
def Payment.completed (p : Payment) (isSuccessful : Bool) (now : Time) : Payment :=
  { p with
    status := if isSuccessful then .succeeded else .failed
    processedAt := some now }

/-- What a release of `row` by a worker sets. -/
inductive ReleaseLegit (worker : PublishOutbox) (row : OutboxModel) : OutboxPatch → Prop where
  | failed (h : worker.maxAttempts ≤ row.retryCount + 1) :
    ReleaseLegit worker row (SqlOutboxQueue.releasePatch .failed (row.retryCount + 1) none)
  | new (h : row.retryCount + 1 < worker.maxAttempts) (t : Time) :
    ReleaseLegit worker row (SqlOutboxQueue.releasePatch .new (row.retryCount + 1) (some t))

/-- The batches of writes the program commits, with what holds when it does. -/
inductive CommitLegit (py : Platform) (i : Nat) (s : World) : List Write → Prop where
  | nothing : CommitLegit py i s []
  /-- `CreatePayment`. -/
  | create (p : Payment) (id : UUID)
      (pending : p.status = .pending) (unprocessed : p.processedAt = none)
      (locked : s.locks.Holds i (.payment p.id))
      (keyLocked : s.locks.Holds i (.idempotencyKey p.idempotencyKey.value))
      (fresh : s.db.payments.find? p.id = none)
      (freshKey : ∀ row ∈ s.db.payments.rows, row.idempotencyKey ≠ p.idempotencyKey.value)
      (issued : s.IssuedTo i id) (unused : ¬ s.Used id) :
    CommitLegit py i s
      [.insertPayment (PaymentMapper.toModel p), .insertOutbox (createdEvent id p.id p.createdAt)]
  /-- `ChargePayment._complete`. -/
  | complete (p : Payment) (isSuccessful : Bool) (now : Time)
      (pending : p.status = .pending) (stored : s.Stored p) (charged : s.Charged p.id isSuccessful)
      (locked : s.locks.Holds i (.payment p.id)) :
    CommitLegit py i s [.updatePayment (PaymentMapper.toModel (p.completed isSuccessful now))]
  /-- `SqlGatewayResultCache.put_if_absent`. -/
  | charge (row : GatewayChargeModel) (locked : s.locks.Holds i (.charge row.paymentId))
      (fresh : s.db.charges.find? row.paymentId = none) :
    CommitLegit py i s [.insertCharge row]
  /-- `ProcessedMessageInbox.remember`. -/
  | remember (row : InboxModel) (paymentId : UUID)
      (locked : s.locks.Holds i (.inbox row.messageId))
      (fresh : s.db.inbox.find? row.messageId = none)
      (executes : s.Executes py i paymentId (some row.messageId)) (posted : s.Posted i paymentId) :
    CommitLegit py i s [.insertInbox row]
  /-- `PublishOutbox._claim`. -/
  | claim (worker : PublishOutbox) (rows : List OutboxModel) (now : Time)
      (relays : s.Relays i worker) (read : s.Did i .now (.ok now)) (selected : s.Selected i rows now)
      (locked : ∀ row ∈ rows, s.locks.Holds i (.outbox row.id))
      (current : ∀ row ∈ rows, s.db.outbox.find? row.id = some row)
      (due : ∀ row ∈ rows, OutboxClaimFilter.build now (now - worker.claimTimeout) row = true)
      (first : ∀ row ∈ rows, s.NotReleased i row.id) :
    CommitLegit py i s (World.claimWrites rows now)
  /-- `PublishOutbox._mark_processed`. -/
  | mark (row : OutboxModel) (claimedAt publishedAt : Time)
      (claimed : s.Claimed i row claimedAt) (published : s.Published py i row claimedAt)
      (first : s.NotReleased i row.id)
      (locked : s.locks.Holds i (.outbox row.id)) :
    CommitLegit py i s [.updateOutbox row.id (SqlOutboxQueue.processedPatch publishedAt)]
  /-- `PublishOutbox._retry_or_fail`. -/
  | release (worker : PublishOutbox) (row : OutboxModel) (claimedAt : Time) (patch : OutboxPatch)
      (relays : s.Relays i worker) (claimed : s.Claimed i row claimedAt)
      (failed : s.DeliveryFailed py i row)
      (first : s.NotReleased i row.id)
      (locked : s.locks.Holds i (.outbox row.id)) (legit : ReleaseLegit worker row patch)
      (decided : s.Decided i worker row claimedAt patch) :
    CommitLegit py i s [.updateOutbox row.id patch]
  /-- `PurgeProcessedOutbox`. -/
  | purge (rows : List OutboxModel)
      (locked : ∀ row ∈ rows, s.locks.Holds i (.outbox row.id))
      (current : ∀ row ∈ rows, s.db.outbox.find? row.id = some row)
      (processed : ∀ row ∈ rows, row.status = .processed)
      (old : ∃ cutoff, ∀ row ∈ rows, ∃ t, row.publishedAt = some t ∧ t < cutoff) :
    CommitLegit py i s ((rows.map (·.id)).map .deleteOutbox)

/-! ## The other operations -/

/-- What a relay publishes is the event of a row it claimed and has not released; what a consumer
publishes is the message it got, for the DLQ as it is or for the retry queue with one more attempt
counted. -/
inductive PublishLegit (py : Platform) (i : Nat) (s : World) :
    RoutingKey → List (String × Json) → Headers → Prop where
  | event (row : OutboxModel) (claimedAt : Time) (body : List (String × Json)) (headers : Headers)
      (claimed : s.Claimed i row claimedAt) (unreleased : s.NotReleased i row.id)
      (encoded : OutboxEventCodec.encode py (OutboxMapper.toClaimedRecord row claimedAt) =
        .ok (body, headers)) : PublishLegit py i s .new body headers
  | dlq (msg : Message) (delivered : s.Logged (.delivered i msg)) :
    PublishLegit py i s .dlq msg.body msg.headers
  | retry (msg : Message) (count : Int) (delivered : s.Logged (.delivered i msg))
      (counted : InboundPaymentMessage.parseRetryCount msg.headers = .ok count) :
    PublishLegit py i s .retry msg.body
      (FailureRouter.setHeader msg.headers retryCountHeader (.int (count + 1)))

/-- A webhook tells the committed outcome of the payment the process executes. -/
inductive PostLegit (py : Platform) (i : Nat) (s : World) :
    String → WebhookPayload → String → Prop where
  | outcome (p : Payment) (messageId : Option UUID) (executes : s.Executes py i p.id messageId)
      (stored : s.Stored p) (terminal : p.isTerminal = true)
      (first : s.DidOnly Op.notPost i) :
    PostLegit py i s p.webhookUrl (WebhookPayload.build py p) p.id.str

/-- A claim is selected once, with the worker's own parameters and a reading of the clock. -/
structure SelectLegit (i : Nat) (s : World) (worker : PublishOutbox) (limit : Nat)
    (now staleBefore : Time) : Prop where
  relays : s.Relays i worker
  limit : limit = worker.batchSize
  staleBefore : staleBefore = now - worker.claimTimeout
  read : s.Did i .now (.ok now)
  clean : s.staged i = []
  first : s.DidOnly Op.notSelect i

/-- Operations a suppressed duplicate does not perform. -/
def Op.isWork : Op → Bool
  | .getInbox _ | .rollback | .close | .publish .. | .ack | .reject => false
  | _ => true

/-- What process `i` has to know when it performs `op`. -/
def Req (py : Platform) (i : Nat) (op : Op) (s : World) : Prop :=
  s.Started i ∧ (op.isWork = true → s.Cleared py i) ∧
  match op with
  | .commit => CommitLegit py i s (s.staged i)
  | .selectClaimable limit now staleBefore =>
    ∃ worker, SelectLegit i s worker limit now staleBefore
  | .publish key body headers _ => PublishLegit py i s key body headers
  | .post url payload key => PostLegit py i s url payload key
  | .ack => s.Forwarded i ∨ s.Handled py i
  | .insertCharge _ => s.staged i = []
  | _ => True

/-! ## The discipline -/

/-- What completing a payment keeps, and a completed payment keeps everything. -/
structure Payment.Extends (p p' : Payment) : Prop where
  id : p'.id = p.id
  money : p'.money = p.money
  description : p'.description = p.description
  metadata : p'.metadata = p.metadata
  idempotencyKey : p'.idempotencyKey = p.idempotencyKey
  webhookUrl : p'.webhookUrl = p.webhookUrl
  createdAt : p'.createdAt = p.createdAt
  terminal : p.isTerminal = true → p' = p

/-- What holds of the tables. -/
structure TablesInv (s : World) : Prop where
  /-- Every row of `payments` is the row of a payment, processed when it is not pending. -/
  payments : ∀ id row, s.db.payments.find? id = some row → ∃ p : Payment,
    row = PaymentMapper.toModel p ∧ (p.status = .pending ↔ p.processedAt = none)
  /-- Idempotency keys are unique. -/
  keys : ∀ row ∈ s.db.payments.rows, ∀ row' ∈ s.db.payments.rows,
    row.idempotencyKey = row'.idempotencyKey → row = row'
  /-- Outbox rows were committed. -/
  outbox : ∀ id row, s.db.outbox.find? id = some row → s.Used id
  /-- Their ids come from `uuid4`. -/
  used : ∀ id, s.Used id → ∃ i, s.IssuedTo i id

/-- What holds of every shared state. -/
structure Inv (s : World) : Prop extends TablesInv s where
  /-- A process starts once. -/
  started : ∀ i k k', s.Logged (.started i k) → s.Logged (.started i k') → k = k'
  /-- A process that gets a message is a consumer, and gets one. -/
  delivered : ∀ i msg, s.Logged (.delivered i msg) → ∃ n, s.Logged (.started i (.dispatch n))
  message : ∀ i msg msg', s.Logged (.delivered i msg) → s.Logged (.delivered i msg') → msg = msg'
  /-- Whatever a process did, it did after its start. -/
  active : ∀ e, s.Logged e → s.Started e.process

/-- What nobody undoes. -/
structure Evolves (s s' : World) : Prop where
  log : s.log <:+ s'.log
  payments : ∀ p, s.Stored p → ∃ p', s'.Stored p' ∧ p.Extends p'
  charges : ∀ id row, s.db.charges.find? id = some row → s'.db.charges.find? id = some row
  inbox : ∀ id row, s.db.inbox.find? id = some row → s'.db.inbox.find? id = some row
  issued : ∀ u o, s.issued.find? u = some o → s'.issued.find? u = some o

/-- What the others leave to process `i`. -/
structure Rely (i : Nat) (s s' : World) : Prop extends Evolves s s' where
  own : s'.own i = s.own i
  staged : s'.staged i = s.staged i
  locks : ∀ l, s'.locks.Holds i l ↔ s.locks.Holds i l
  unused : ∀ id, s.IssuedTo i id → s'.Used id → s.Used id
  payment : ∀ id, s.locks.Holds i (.payment id) →
    s'.db.payments.find? id = s.db.payments.find? id
  key : ∀ key, s.locks.Holds i (.idempotencyKey key) →
    (∀ row ∈ s.db.payments.rows, row.idempotencyKey ≠ key) →
      ∀ row ∈ s'.db.payments.rows, row.idempotencyKey ≠ key
  outbox : ∀ id row, s.locks.Holds i (.outbox id) → s.db.outbox.find? id = some row →
    s'.db.outbox.find? id = some row
  inboxRow : ∀ id, s.locks.Holds i (.inbox id) → s'.db.inbox.find? id = s.db.inbox.find? id
  charge : ∀ id, s.locks.Holds i (.charge id) → s'.db.charges.find? id = s.db.charges.find? id

/-- The discipline the program follows. -/
def discipline (py : Platform) : Discipline (machine py) where
  inv := Inv
  evolves := Evolves
  rely := Rely
  req := Req py
  idle i s := s.own i = [] ∧ s.staged i = []

end PaymentProcessing
