import PaymentProcessing.Infrastructure.World

/-!
# Unit of work and repositories

`infrastructure/persistence/uow.py` and `infrastructure/persistence/repositories/`. A repository
call is the operations it makes on the session of the unit of work it belongs to.
-/

namespace PaymentProcessing

open Python Concurrency

/-- Call an operation. -/
def call (op : Op) : App (Res op) := Prog.perform op

/-- What `Except` says. -/
def orRaise {α : Type} (r : Except Exc α) : App α := Prog.ofExcept r

/-! ## Sessions -/

/-- `async with self._uow_factory() as uow: …` -/
def withUow {α : Type} (body : App α) : App α := do
  let a ← tryCatch body fun e => do
    call .rollback
    call .close
    throw e
  call .close
  return a

/-- `async with self._session_factory() as session: …` -/
def withSession {α : Type} (body : App α) : App α := Prog.tryFinally body (call .close)

/-- `async with session.begin(): …` -/
def withBegin {α : Type} (body : App α) : App α := do
  let a ← tryCatch body fun e => do
    call .rollback
    throw e
  tryCatch (call .commit) fun e => do
    call .rollback
    throw e
  return a

/-! ## Payments -/

/-- `IdempotencyConstraint.is_idempotency_conflict`. -/
def isIdempotencyConflict (constraint : String) : Bool :=
  constraint = "uq_payments_idempotency_key"

namespace SqlPaymentRepository

/-- `add`. -/
def add (payment : Payment) : App Unit :=
  tryCatch (call (.insertPayment (PaymentMapper.toModel payment))) fun
    | .integrityError constraint =>
      if isIdempotencyConflict constraint then throw .duplicateIdempotencyKey
      else throw (.integrityError constraint)
    | e => throw e

/-- `save`. -/
def save (payment : Payment) : App Unit := do
  match ← call (.getPayment payment.id) with
  | none => throw (.runtimeError ("payment " ++ payment.id.str ++ " missing for save"))
  | some model => call (.updatePayment (PaymentMapper.apply model payment))

/-- The payment of a row that was found. -/
def toPayment : Option PaymentModel → App (Option Payment)
  | none => return none
  | some model => do return some (← orRaise (PaymentMapper.toDomain model))

/-- `get`. -/
def get (paymentId : UUID) : App (Option Payment) := do
  toPayment (← call (.getPayment paymentId))

/-- `get_for_update`. -/
def getForUpdate (paymentId : UUID) : App (Option Payment) := do
  toPayment (← call (.selectPaymentForUpdate paymentId))

/-- `get_by_idempotency_key`. -/
def getByIdempotencyKey (key : IdempotencyKey) : App (Option Payment) := do
  toPayment (← call (.selectPaymentByKey key.value))

end SqlPaymentRepository

/-! ## Outbox -/

/-- `SqlOutboxWriter.add`. -/
def SqlOutboxWriter.add (eventType : String) (payload : JsonObject) (createdAt : Time) :
    App Unit := do
  let id ← call .uuid4
  call (.addOutbox
    { id := id
      eventType := eventType
      payload := payload
      createdAt := createdAt
      publishedAt := none
      status := .new
      retryCount := 0
      claimedAt := none
      availableAt := none })

namespace SqlOutboxQueue

/-- What `claim_batch` sets. -/
def claimPatch (now : Time) : OutboxPatch where
  status := .processing
  claimedAt := some now
  availableAt := none

/-- What `mark_processed` sets. -/
def processedPatch (publishedAt : Time) : OutboxPatch where
  status := .processed
  claimedAt := none
  availableAt := none
  publishedAt := some publishedAt

/-- What `release` sets. -/
def releasePatch (status : OutboxStatus) (retryCount : Int) (availableAt : Option Time) :
    OutboxPatch where
  status := status
  claimedAt := none
  availableAt := availableAt
  retryCount := some retryCount

/-- What `unclaim` sets. -/
def unclaimPatch : OutboxPatch where
  status := .new
  claimedAt := none
  availableAt := none

/-- `claim_batch`. -/
def claimBatch (limit : Nat) (now staleBefore : Time) : App (List OutboxRecord) := do
  let rows ← call (.selectClaimable limit now staleBefore)
  if rows.isEmpty then return []
  call (.updateOutbox (rows.map (·.id)) (claimPatch now))
  return rows.map fun row => OutboxMapper.toClaimedRecord row now

/-- `mark_processed`. -/
def markProcessed (recordId : UUID) (publishedAt : Time) : App Unit :=
  call (.updateOutbox [recordId] (processedPatch publishedAt))

/-- `release`. -/
def release (recordId : UUID) (status : OutboxStatus) (retryCount : Int)
    (availableAt : Option Time) : App Unit :=
  call (.updateOutbox [recordId] (releasePatch status retryCount availableAt))

/-- `unclaim`. -/
def unclaim (ids : List UUID) : App Unit := do
  if ids.isEmpty then return ()
  call (.updateOutbox ids unclaimPatch)

/-- `count_pending`. -/
def countPending : App Nat := call (.countOutbox [.new, .processing])

/-- `count_failed`. -/
def countFailed : App Nat := call (.countOutbox [.failed])

/-- `delete_processed_before`. -/
def deleteProcessedBefore (cutoff : Time) (limit : Nat) : App Nat :=
  call (.deleteProcessed cutoff limit)

end SqlOutboxQueue

/-! ## Inbox -/

namespace SqlInboxRepository

/-- `has_message`. -/
def hasMessage (messageId : UUID) : App Bool := do
  return (← call (.getInbox messageId)).isSome

/-- `add`. -/
def add (messageId : UUID) (processedAt : Time) : App Unit :=
  call (.insertInbox { messageId := messageId, processedAt := processedAt })

end SqlInboxRepository

end PaymentProcessing
