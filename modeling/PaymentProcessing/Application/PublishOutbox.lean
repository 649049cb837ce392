import PaymentProcessing.Infrastructure.Repositories

/-!
# The outbox relay (`application/use_cases/publish_outbox.py`)

One execution claims a batch, publishes its records one by one and settles each in a transaction of
its own. Metrics calls have no effect here; the clock they read is read. What the relay logs about a
record is an operation, so that a failed delivery leaves a trace.
-/

namespace PaymentProcessing

open Python Concurrency

/-- `PurgeProcessedOutbox.execute`. -/
def PurgeProcessedOutbox.execute (retention : Int) (batchSize : Nat) : App Unit := do
  let now ← call .now
  let cutoff ← orRaise (datetimeSub now retention)
  withUow do
    let _ ← SqlOutboxQueue.deleteProcessedBefore cutoff batchSize
    call .commit

/-- `OutboxQueueGauges.refresh`. -/
def OutboxQueueGauges.refresh : App Unit := do
  let _ ← withUow do
    let pending ← SqlOutboxQueue.countPending
    let failed ← SqlOutboxQueue.countFailed
    return (pending, failed)
  return ()

namespace PublishOutbox

/-- `_claim`. -/
def claim (self : PublishOutbox) : App (List OutboxRecord) := do
  let now ← call .now
  withUow do
    let staleBefore ← orRaise (datetimeSub now self.claimTimeout)
    let records ← SqlOutboxQueue.claimBatch self.batchSize now staleBefore
    if !records.isEmpty then call .commit
    return records

/-- `_publish_one`. -/
def publishOne (py : Platform) (record : OutboxRecord) : App Unit := do
  let (body, headers) ← orRaise (OutboxEventCodec.encode py record)
  call (.publish .new body headers none)

/-- `_mark_processed`. -/
def markProcessed (record : OutboxRecord) : App Unit :=
  withUow do
    let now ← call .now
    SqlOutboxQueue.markProcessed record.id now
    call .commit

/-- `_deliver`. -/
def deliver (py : Platform) (record : OutboxRecord) : App Unit := do
  publishOne py record
  markProcessed record

/-- The delay before the next attempt; random bits are drawn only with jitter. -/
def retryDelay (backoff : ExponentialDelay) (attempts : Int) : App Int := do
  let bits ← if backoff.useJitter then call .random else pure ExponentialDelay.noBits
  let delay ← orRaise (backoff.delayFor attempts bits)
  orRaise (timedeltaSeconds delay)

/-- The status and due time of a record after `attempts` failures. -/
def nextAttempt (self : PublishOutbox) (record : OutboxRecord) (attempts : Int) (now : Time) :
    App (OutboxStatus × Option Time) :=
  if self.maxAttempts ≤ attempts then do
    call (.log "outbox.permanently_failed" record.id)
    return (.failed, none)
  else do
    let delay ← retryDelay self.backoff attempts
    let availableAt ← orRaise (datetimeAdd now delay)
    return (.new, some availableAt)

/-- `_retry_or_fail`. -/
def retryOrFail (self : PublishOutbox) (record : OutboxRecord) : App Unit := do
  let attempts := record.retryCount + 1
  let now ← call .now
  let (status, availableAt) ← self.nextAttempt record attempts now
  withUow do
    SqlOutboxQueue.release record.id status attempts availableAt
    call .commit

/-- The body of the loop of `execute`: whether the record was published. -/
def attempt (py : Platform) (self : PublishOutbox) (record : OutboxRecord) : App Bool := do
  let delivered ← tryCatch (do deliver py record; return true) fun e =>
    if e.isException then do
      call (.log "outbox.publish_failed" record.id)
      self.retryOrFail record
      return false
    else throw e
  if delivered then
    -- the lag that is reported
    let _ ← call .now
    return true
  return false

/-- The loop of `execute`. -/
def attemptAll (py : Platform) (self : PublishOutbox) : List OutboxRecord → Nat → App Nat
  | [], published => return published
  | record :: records, published => do
    let delivered ← attempt py self record
    attemptAll py self records (if delivered then published + 1 else published)

/-- `execute`. -/
def execute (py : Platform) (self : PublishOutbox) : App Nat := do
  let records ← self.claim
  Prog.tryFinally
    (if records.isEmpty then do
      PurgeProcessedOutbox.execute self.retention self.batchSize
      return 0
    else attemptAll py self records 0)
    OutboxQueueGauges.refresh

end PublishOutbox

end PaymentProcessing
