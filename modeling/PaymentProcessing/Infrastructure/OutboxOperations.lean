import PaymentProcessing.Application.PublishOutbox
import PaymentProcessing.Application.Delays

/-!
# The outbox under any sequence of operations

The migrations that made the `outbox` table (`alembic/versions/`), and what the operations of any
number of workers do to it, one transaction after the other. A worker may act on a clock reading
that is old by then, on a row it has lost, or on one that is gone.
-/

namespace PaymentProcessing

open Python Relational Concurrency

/-! ## Migrations -/

/-- A row of `outbox` after `001_payments_outbox`. -/
structure OutboxRow001 where
  id : UUID
  eventType : String
  payload : JsonObject
  createdAt : Time
  publishedAt : Option Time

/-- A row of `outbox` after `002_outbox_status_inbox`. -/
structure OutboxRow002 extends OutboxRow001 where
  status : OutboxStatus
  retryCount : Int
  claimedAt : Option Time

/-- `upgrade` of `002_outbox_status_inbox`: new columns with their defaults, then
`UPDATE outbox SET status = 'PROCESSED' WHERE published_at IS NOT NULL`. -/
def upgrade002 (row : OutboxRow001) : OutboxRow002 :=
  let added : OutboxRow002 := { row with status := .new, retryCount := 0, claimedAt := none }
  if row.publishedAt.isSome then { added with status := .processed } else added

/-- `upgrade` of `003_outbox_available_at`. -/
def upgrade003 (row : OutboxRow002) : OutboxModel :=
  { row with availableAt := none }

theorem upgrade_id (row : OutboxRow001) : (upgrade003 (upgrade002 row)).id = row.id := by
  unfold upgrade002
  split <;> rfl

/-- The table after both. -/
def migrated (t : Table OutboxRow001.id) : Table OutboxModel.id :=
  ⟨t.rows.map fun row => upgrade003 (upgrade002 row), by
    rw [List.map_map]
    have hkeys : (OutboxModel.id ∘ fun row => upgrade003 (upgrade002 row)) = OutboxRow001.id :=
      funext upgrade_id
    rw [hkeys]
    exact t.nodup⟩

/-! ## Operations -/

/-- Whether `delete_processed_before` may delete the row. -/
def SqlOutboxQueue.isPurgeable (cutoff : Time) (row : OutboxModel) : Bool :=
  row.status = .processed && match row.publishedAt with
    | none => false
    | some publishedAt => publishedAt < cutoff

/-- The tables and the clock. -/
structure Shared where
  db : Tables
  clock : Time

namespace Shared

/-- A batch of writes is committed. -/
def writeAll (s : Shared) (ws : List Write) : Shared := { s with db := s.db.writeAll ws }

/-- One operation of a worker, or time passes. All workers have this claim timeout and this cap of
retry delays. -/
inductive Step (claimTimeout : Int) (cap : Float64) (s : Shared) : Shared → Prop where
  | tick (d : Nat) : Step claimTimeout cap s { s with clock := s.clock + d }
  /-- `SqlOutboxWriter.add`. -/
  | add (id : UUID) (eventType : String) (payload : JsonObject) (createdAt : Time)
      (fresh : s.db.outbox.find? id = none) :
    Step claimTimeout cap s (s.writeAll [.insertOutbox
      { id := id
        eventType := eventType
        payload := payload
        createdAt := createdAt
        publishedAt := none
        status := .new
        retryCount := 0
        claimedAt := none
        availableAt := none }])
  /-- `claim_batch`, at a reading of the clock: rows that pass the filter, as many as fit the batch
  and are not locked. -/
  | claimBatch (rows : List OutboxModel) (now : Time) (read : now ≤ s.clock)
      (found : ∀ row ∈ rows, s.db.outbox.find? row.id = some row)
      (due : ∀ row ∈ rows, OutboxClaimFilter.build now (now - claimTimeout) row = true) :
    Step claimTimeout cap s (s.writeAll
      ((rows.map (·.id)).map fun id => .updateOutbox id (SqlOutboxQueue.claimPatch now)))
  | markProcessed (recordId : UUID) (publishedAt : Time) :
    Step claimTimeout cap s (s.writeAll
      [.updateOutbox recordId (SqlOutboxQueue.processedPatch publishedAt)])
  /-- `release`, as `_retry_or_fail` calls it. -/
  | release (worker : PublishOutbox) (record : OutboxRecord) (now : Time) (status : OutboxStatus)
      (availableAt : Option Time) (hcap : worker.backoff.cap = cap) (read : now ≤ s.clock)
      (next : (worker.nextAttempt record (record.retryCount + 1) now).CanReturn
        (status, availableAt)) :
    Step claimTimeout cap s (s.writeAll [.updateOutbox record.id
      (SqlOutboxQueue.releasePatch status (record.retryCount + 1) availableAt)])
  | unclaim (ids : List UUID) :
    Step claimTimeout cap s (s.writeAll
      (ids.map fun id => .updateOutbox id SqlOutboxQueue.unclaimPatch))
  /-- `delete_processed_before`: rows that were published before the cutoff, a batch at most. -/
  | purge (rows : List OutboxModel) (cutoff : Time)
      (found : ∀ row ∈ rows, s.db.outbox.find? row.id = some row)
      (old : ∀ row ∈ rows, SqlOutboxQueue.isPurgeable cutoff row = true) :
    Step claimTimeout cap s (s.writeAll ((rows.map (·.id)).map .deleteOutbox))

/-- Any sequence of operations. -/
inductive Steps (claimTimeout : Int) (cap : Float64) (s₀ : Shared) : Shared → Prop where
  | refl : Steps claimTimeout cap s₀ s₀
  | step {s s' : Shared} (h : Steps claimTimeout cap s₀ s) (hs : Step claimTimeout cap s s') :
    Steps claimTimeout cap s₀ s'

end Shared

theorem waits_of_canReturn {backoff : ExponentialDelay} {attempts micros : Int}
    (h : (PublishOutbox.retryDelay backoff attempts).CanReturn micros) :
    backoff.Waits attempts micros := by
  have hrest : ∀ bits, (orRaise (backoff.delayFor attempts bits) >>= fun delay =>
      orRaise (timedeltaSeconds delay)).CanReturn micros → backoff.Waits attempts micros := by
    intro bits hbits
    obtain ⟨delay, hfloat, hmicros⟩ := Prog.CanReturn.bind hbits
    exact ⟨bits, delay, Prog.canReturn_ofExcept hfloat, Prog.canReturn_ofExcept hmicros⟩
  unfold PublishOutbox.retryDelay at h
  split at h
  · obtain ⟨bits, -, h⟩ := Prog.CanReturn.bind h
    exact hrest bits h
  · exact hrest _ h

/-- What `_retry_or_fail` makes of a record that has failed so often. -/
theorem nextAttempt_cases {worker : PublishOutbox} {record : OutboxRecord} {attempts : Int}
    {now : Time} {status : OutboxStatus} {availableAt : Option Time}
    (h : (worker.nextAttempt record attempts now).CanReturn (status, availableAt)) :
    (status = .failed ∧ availableAt = none) ∨
      (status = .new ∧ ∃ micros, worker.backoff.Waits attempts micros ∧
        availableAt = some (now + micros)) := by
  unfold PublishOutbox.nextAttempt at h
  split at h
  · obtain ⟨_, -, h⟩ := Prog.CanReturn.bind h
    cases h
    exact .inl ⟨rfl, rfl⟩
  · obtain ⟨micros, hdelay, h⟩ := Prog.CanReturn.bind h
    obtain ⟨due, hdue, h⟩ := Prog.CanReturn.bind h
    obtain ⟨rfl, -⟩ := datetimeOf_eq_ok.1 (Prog.canReturn_ofExcept hdue)
    cases h
    exact .inr ⟨rfl, micros, waits_of_canReturn hdelay, rfl⟩

end PaymentProcessing
