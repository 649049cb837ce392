import PaymentProcessing.Infrastructure.OutboxOperations
import PaymentProcessing.Protocol.Rows

/-!
# No row gets stuck

Four columns say where an outbox row is, and every operation sets them together. So whatever the
workers do and in whatever order, a row that is not settled can be claimed again once the longest
delay and the claim timeout have passed, and a processed row can be purged.
-/

namespace PaymentProcessing

open Python Relational Concurrency World

variable {claimTimeout : Int} {cap : Float64} {s s' s₀ : Shared} {row : OutboxModel}

/-- What holds of every row. -/
structure RowInv (cap : Float64) (clock : Time) (row : OutboxModel) : Prop where
  processing : row.status = .processing ↔ row.claimedAt ≠ none
  claimed : ∀ t, row.claimedAt = some t → t ≤ clock
  available : ∀ t, row.availableAt = some t → row.status = .new ∧ t ≤ clock + longest cap
  published : row.status = .processed → row.publishedAt ≠ none

/-- Every row has it. -/
def OutboxInv (cap : Float64) (s : Shared) : Prop :=
  ∀ id row, s.db.outbox.find? id = some row → RowInv cap s.clock row

/-! ## One operation -/

theorem RowInv.later {clock clock' : Time} (h : RowInv cap clock row) (hle : clock ≤ clock') :
    RowInv cap clock' row where
  processing := h.processing
  claimed t ht := (h.claimed t ht).trans hle
  available t ht := by
    obtain ⟨hst, hle'⟩ := h.available t ht
    exact ⟨hst, hle'.trans (Int.add_le_add_right hle _)⟩
  published := h.published

/-- A row that is new without any of the other columns. -/
theorem rowInv_new {clock : Time} (hst : row.status = .new) (hc : row.claimedAt = none)
    (ha : row.availableAt = none) : RowInv cap clock row where
  processing := by
    rw [hst, hc]
    decide
  claimed t ht := by
    rw [hc] at ht
    cases ht
  available t ht := by
    rw [ha] at ht
    cases ht
  published hp := by
    rw [hst] at hp
    cases hp

theorem rowInv_claimPatch {clock now : Time} (h : now ≤ clock) :
    RowInv cap clock ((SqlOutboxQueue.claimPatch now).apply row) where
  processing := ⟨fun _ => (fun hn => by cases hn), fun _ => rfl⟩
  claimed t ht := by
    cases ht
    exact h
  available t ht := by cases ht
  published hp := by cases hp

theorem rowInv_processedPatch {clock publishedAt : Time} :
    RowInv cap clock ((SqlOutboxQueue.processedPatch publishedAt).apply row) where
  processing := ⟨(fun hp => by cases hp), fun hn => absurd rfl hn⟩
  claimed t ht := by cases ht
  available t ht := by cases ht
  published _ hn := by cases hn

theorem rowInv_releasePatch {clock : Time} {status : OutboxStatus} {retryCount : Int}
    {availableAt : Option Time} (hst : status = .new ∨ status = .failed)
    (ha : ∀ t, availableAt = some t → status = .new ∧ t ≤ clock + longest cap) :
    RowInv cap clock ((SqlOutboxQueue.releasePatch status retryCount availableAt).apply row) where
  processing := by
    refine ⟨fun hp => ?_, fun hn => absurd rfl hn⟩
    have hp' : status = .processing := hp
    rcases hst with rfl | rfl <;> cases hp'
  claimed t ht := by cases ht
  available t ht := ha t ht
  published hp := by
    have hp' : status = .processed := hp
    rcases hst with rfl | rfl <;> cases hp'

/-- An update of some rows keeps the invariant if the rows it leaves behind have it. -/
theorem OutboxInv.updates (h : OutboxInv cap s) (ids : List UUID) {patch : OutboxPatch}
    (hpatch : ∀ row, RowInv cap s.clock row → RowInv cap s.clock (patch.apply row)) :
    OutboxInv cap (s.writeAll (ids.map fun id => .updateOutbox id patch)) := by
  intro id row hrow
  have hfind := Tables.find?_updates s.db patch ids id
  rw [show (s.db.writeAll _).outbox.find? id = some row from hrow] at hfind
  split at hfind
  · obtain ⟨row₀, hrow₀, rfl⟩ := Option.map_eq_some_iff.1 hfind.symm
    exact hpatch row₀ (h id row₀ hrow₀)
  · exact h id row hfind.symm

/-- **Every operation keeps it.** -/
theorem OutboxInv.step (hcap : NonNegative cap) (h : OutboxInv cap s)
    (hs : Shared.Step claimTimeout cap s s') : OutboxInv cap s' := by
  cases hs with
  | tick d =>
    exact fun id row hrow =>
      (h id row hrow).later (Int.le_add_of_nonneg_right (Int.natCast_nonneg d))
  | add id eventType payload createdAt fresh =>
    intro id' row hrow
    have hfind := Table.find?_insert (r := (⟨id, eventType, payload, createdAt, none, .new, 0, none,
      none⟩ : OutboxModel)) fresh id'
    rw [show (s.db.outbox.insert _).find? id' = some row from hrow] at hfind
    split at hfind
    · cases hfind
      exact rowInv_new rfl rfl rfl
    · exact h id' row hfind.symm
  | claimBatch rows now read => exact h.updates _ fun row _ => rowInv_claimPatch read
  | markProcessed recordId publishedAt =>
    exact h.updates [recordId] fun row _ => rowInv_processedPatch
  | release worker record now status availableAt hcap' read next =>
    apply h.updates [record.id]
    intro row _
    rcases nextAttempt_cases next with ⟨rfl, rfl⟩ | ⟨rfl, micros, hwaits, rfl⟩
    · exact rowInv_releasePatch (.inr rfl) fun t ht => by cases ht
    · apply rowInv_releasePatch (.inl rfl)
      intro t ht
      cases ht
      have hle := hwaits.le_longest (by rw [hcap']; exact hcap)
      rw [hcap'] at hle
      exact ⟨rfl, Int.add_le_add read hle⟩
  | unclaim ids => exact h.updates _ fun row _ => rowInv_new rfl rfl rfl
  | purge rows cutoff =>
    intro id row hrow
    have hfind := Tables.find?_deletes s.db (rows.map (·.id)) id
    rw [show (s.db.writeAll _).outbox.find? id = some row from hrow] at hfind
    split at hfind
    · cases hfind
    · exact h id row hfind.symm

/-! ## Any sequence of operations -/

/-- The outbox is empty, or was migrated from the first schema. -/
inductive Initial (s : Shared) : Prop where
  | empty (h : s.db.outbox = Table.empty)
  | migrated (t : Table OutboxRow001.id) (h : s.db.outbox = PaymentProcessing.migrated t)

theorem rowInv_upgraded {clock : Time} (row : OutboxRow001) :
    RowInv cap clock (upgrade003 (upgrade002 row)) := by
  unfold upgrade002
  split
  · rename_i hpub
    refine ⟨⟨(fun hp => by cases hp), fun hn => absurd rfl hn⟩, (fun t ht => by cases ht),
      (fun t ht => by cases ht), fun _ => ?_⟩
    exact Option.isSome_iff_ne_none.1 hpub
  · exact rowInv_new rfl rfl rfl

theorem Initial.inv (h : Initial s) : OutboxInv cap s := by
  intro id row hrow
  cases h with
  | empty h =>
    rw [h] at hrow
    cases hrow
  | migrated t h =>
    rw [h] at hrow
    obtain ⟨row₁, -, rfl⟩ := List.mem_map.1 (Table.mem_of_find? hrow)
    exact rowInv_upgraded row₁

theorem Shared.Steps.inv (hcap : NonNegative cap) (h₀ : Initial s₀)
    (h : Shared.Steps claimTimeout cap s₀ s) : OutboxInv cap s := by
  induction h with
  | refl => exact h₀.inv
  | step _ hs ih => exact ih.step hcap hs

/-- A row that is not settled can be claimed from then on. -/
theorem RowInv.claimable {clock t : Time} (h : RowInv cap clock row)
    (hst : row.status = .new ∨ row.status = .processing)
    (ht : clock + (claimTimeout ⊔ longest cap) ≤ t) :
    OutboxClaimFilter.build t (t - claimTimeout) row = true := by
  have hle₁ : claimTimeout ≤ claimTimeout ⊔ longest cap := le_max_left _ _
  have hle₂ : longest cap ≤ claimTimeout ⊔ longest cap := le_max_right _ _
  rcases hst with hst | hst
  · refine OutboxClaimFilter.build_iff.2 (.inl ⟨hst, fun a ha => ?_⟩)
    exact (h.available a ha).2.trans ((Int.add_le_add_left hle₂ clock).trans ht)
  · obtain ⟨c, hc⟩ := Option.ne_none_iff_exists'.1 (h.processing.1 hst)
    refine OutboxClaimFilter.build_iff.2 (.inr ⟨hst, c, hc, ?_⟩)
    exact (h.claimed c hc).trans
      (Int.le_sub_right_of_add_le ((Int.add_le_add_left hle₁ clock).trans ht))

/-- A processed row can be purged from its time of publication on. -/
theorem RowInv.purgeable {clock : Time} (h : RowInv cap clock row)
    (hst : row.status = .processed) : ∃ publishedAt, row.publishedAt = some publishedAt ∧
      ∀ cutoff, publishedAt < cutoff → SqlOutboxQueue.isPurgeable cutoff row = true := by
  obtain ⟨p, hp⟩ := Option.ne_none_iff_exists'.1 (h.published hst)
  refine ⟨p, hp, fun cutoff hlt => ?_⟩
  unfold SqlOutboxQueue.isPurgeable
  rw [hst, hp]
  simpa using hlt

/-- **No row gets stuck**, whatever the workers do with the outbox, starting from an empty or a
migrated one. -/
theorem no_row_stuck (hcap : NonNegative cap) (h₀ : Initial s₀)
    (h : Shared.Steps claimTimeout cap s₀ s) : ∀ row ∈ s.db.outbox.rows,
    ((row.status = .new ∨ row.status = .processing) → ∀ t,
      s.clock + (claimTimeout ⊔ longest cap) ≤ t →
        OutboxClaimFilter.build t (t - claimTimeout) row = true) ∧
    (row.status = .processing ↔ row.claimedAt ≠ none) ∧
    (row.availableAt ≠ none → row.status = .new) ∧
    (row.status = .processed → ∃ publishedAt, row.publishedAt = some publishedAt ∧
      ∀ cutoff, publishedAt < cutoff → SqlOutboxQueue.isPurgeable cutoff row = true) := by
  intro row hrow
  have hinv := h.inv hcap h₀ row.id row (Table.find?_key hrow)
  refine ⟨fun hst t ht => hinv.claimable hst ht, hinv.processing, fun hne => ?_,
    fun hst => hinv.purgeable hst⟩
  obtain ⟨t, ht⟩ := Option.ne_none_iff_exists'.1 hne
  exact (hinv.available t ht).1

/-- An outbox with an event that the first schema had not published. -/
def sampleMigrated : Shared :=
  ⟨⟨Table.empty, migrated ⟨[⟨UUID.ofNat 2, paymentCreated,
    CreatePayment.createdPayload (UUID.ofNat 1), 0, none⟩], List.nodup_singleton _⟩, Table.empty,
    Table.empty⟩, 0⟩

theorem no_row_stuck_sample : ∃ (s : Shared) (row : OutboxModel),
    Shared.Steps 60 (.finite 4) sampleMigrated s ∧ row ∈ s.db.outbox.rows ∧
      row.status = .processing ∧ row.claimedAt ≠ none ∧
      OutboxClaimFilter.build 4000000 (4000000 - 60) row = true := by
  have hcap : NonNegative (.finite 4) := .inr ⟨4, rfl, exact_four, by norm_num⟩
  have hclaim : Shared.Step 60 (.finite 4) sampleMigrated _ :=
    .claimBatch sampleMigrated.db.outbox.rows 0 (le_refl _)
      (fun row hrow => Table.find?_key hrow) (by decide +kernel)
  have hsteps := Shared.Steps.refl.step hclaim
  obtain ⟨row, hrow, hst⟩ : ∃ row ∈ (sampleMigrated.writeAll ((sampleMigrated.db.outbox.rows.map
      (·.id)).map fun id => .updateOutbox id (SqlOutboxQueue.claimPatch 0))).db.outbox.rows,
        row.status = .processing := by decide +kernel
  have h := no_row_stuck hcap (.migrated _ rfl) hsteps row hrow
  exact ⟨_, row, hsteps, hrow, hst, h.2.1.1 hst, h.1 (.inr hst) 4000000 (by decide +kernel)⟩

/-! ## The commits of the system -/

/-- All relays have this claim timeout and this cap of retry delays, and nobody reads a time that is
still to come. -/
structure SharedSettings (claimTimeout : Int) (cap : Float64) (y : Config)
    (a : Action Choice Kind Env) : Prop where
  relays : ∀ i worker, a = .spawn i (.publishOutbox worker) →
    worker.claimTimeout = claimTimeout ∧ worker.backoff.cap = cap
  clock : ∀ i c k f, a = .run i c → y.procs i = .running k (.call .now f) → c.time ≤ y.state.clock

/-- The outbox and the clock of the system. -/
structure Shared.Of (w : World) (s : Shared) : Prop where
  outbox : s.db.outbox = w.db.outbox
  clock : s.clock = w.clock

section System

variable {py : Platform} {A : Allowed} {i : Nat} {w : World} {y : Config}

theorem Shared.Of.writeAll (h : s.Of w) {ws : List Write} (r : Except Exc (Res .commit))
    (hws : (w.db.writeAll (w.staged i)).outbox = (w.db.writeAll ws).outbox) :
    (s.writeAll ws).Of ((w.commit i).note (.did i .commit r)) :=
  ⟨(Tables.writeAll_outbox_congr h.outbox ws).trans hws.symm, h.clock⟩

/-- **One commit is one operation on the outbox**, or leaves it alone. -/
theorem commit_shared (hi : Inv w) (h : CommitLegit py i w (w.staged i))
    (hrelays : ∀ i worker, w.Relays i worker →
      worker.claimTimeout = claimTimeout ∧ worker.backoff.cap = cap)
    (hread : ∀ i now, w.Did i .now (.ok now) → now ≤ w.clock) (hs : s.Of w)
    (r : Except Exc (Res .commit)) : ∃ s', (s' = s ∨ Shared.Step claimTimeout cap s s') ∧
      s'.Of ((w.commit i).note (.did i .commit r)) := by
  have hof := @Shared.Of.writeAll s i w hs
  generalize hws : w.staged i = ws at h hof
  have hkept : (w.db.writeAll ws).outbox = w.db.outbox → ∃ s', (s' = s ∨
      Shared.Step claimTimeout cap s s') ∧ s'.Of ((w.commit i).note (.did i .commit r)) := by
    intro hsame
    exact ⟨s, .inl rfl, by rw [hs.outbox, ← hsame, ← hws]; rfl, hs.clock⟩
  cases h with
  | nothing | complete | charge | remember => exact hkept rfl
  | create p id pending unprocessed locked keyLocked fresh freshKey issued unused =>
    have hnone : s.db.outbox.find? id = none := by
      rw [hs.outbox, ← Option.not_isSome_iff_eq_none, Option.isSome_iff_exists]
      rintro ⟨row, hrow⟩
      exact unused (hi.outbox id row hrow)
    exact ⟨_, .inr (.add id paymentCreated (CreatePayment.createdPayload p.id) p.createdAt hnone),
      hof r rfl⟩
  | claim worker rows now relays read selected locked current due first =>
    refine ⟨_, .inr (.claimBatch rows now (hs.clock ▸ hread i now read) (fun row hrow => ?_)
      fun row hrow => ?_), hof r rfl⟩
    · rw [hs.outbox]
      exact current row hrow
    · rw [← (hrelays i worker relays).1]
      exact due row hrow
  | mark row claimedAt publishedAt => exact ⟨_, .inr (.markProcessed row.id publishedAt), hof r rfl⟩
  | release worker row claimedAt patch relays claimed failed first locked legit decided =>
    obtain ⟨now, status, availableAt, read, next, rfl⟩ := decided
    exact ⟨_, .inr (.release worker (OutboxMapper.toClaimedRecord row claimedAt) now status
      availableAt (hrelays i worker relays).2 (hs.clock ▸ hread i now read) next), hof r rfl⟩
  | purge rows locked current processed old =>
    obtain ⟨cutoff, hold⟩ := old
    refine ⟨_, .inr (.purge rows cutoff (fun row hrow => ?_) fun row hrow => ?_), hof r rfl⟩
    · rw [hs.outbox]
      exact current row hrow
    · obtain ⟨t, ht, hlt⟩ := hold row hrow
      simp [SqlOutboxQueue.isPurgeable, processed row hrow, ht, hlt]

theorem read_past (h : Reachable py (SharedSettings claimTimeout cap) y) : ∀ i now,
    y.state.Did i .now (.ok now) → now ≤ y.state.clock := by
  refine h.invariant (P := fun y => ∀ i now, y.state.Did i .now (.ok now) → now ≤ y.state.clock)
    (fun _ _ _ hd => by cases hd) fun y y' a hr _ hP ha hl i now hd => ?_
  rcases hl.read hd with hd | ⟨k, f, c, hrun, hi, rfl⟩
  · exact (hP i now hd).trans hl.clock_le
  · exact (ha.clock i c k f hrun hi).trans hl.clock_le

/-- **Every run of the system is a sequence of operations** on an empty outbox. -/
theorem Reachable.shared (h : Reachable py (SharedSettings claimTimeout cap) y) :
    ∃ s₀ s, Initial s₀ ∧ Shared.Steps claimTimeout cap s₀ s ∧ s.Of y.state := by
  refine h.invariant (P := fun y => ∃ s₀ s, Initial s₀ ∧ Shared.Steps claimTimeout cap s₀ s ∧
    s.Of y.state) (fun clock => ?_) fun y y' a hr _ hP _ hl => ?_
  · exact ⟨⟨(World.init clock).db, clock⟩, _, .empty rfl, .refl, rfl, rfl⟩
  obtain ⟨s₀, s, h₀, hsteps, hof⟩ := hP
  cases hl.change with
  | commit i r commits legit hs =>
    obtain ⟨s', hstep, hof'⟩ := commit_shared hr.inv legit
      (relays_spawned (φ := fun worker => worker.claimTimeout = claimTimeout ∧
        worker.backoff.cap = cap) (fun _ _ ha => ha.relays) hr) (read_past hr) hof r
    rw [hs]
    rcases hstep with rfl | hstep
    · exact ⟨s₀, s', h₀, hsteps, hof'⟩
    · exact ⟨s₀, s', h₀, hsteps.step hstep, hof'⟩
  | same db log committed =>
    -- the outbox stays, and time may have passed
    have hle := hl.clock_le
    refine ⟨s₀, _, h₀, hsteps.step (.tick (y'.state.clock - y.state.clock).toNat),
      hof.outbox.trans (congrArg Tables.outbox db.symm), ?_⟩
    have hpassed : ∀ t t' : Int, t ≤ t' → t + ((t' - t).toNat : Int) = t' := by omega
    exact (congrArg (· + _) hof.clock).trans (hpassed _ _ hle)

/-- So the rows of the system do not get stuck either. -/
theorem Reachable.rowInv (hcap : NonNegative cap)
    (h : Reachable py (SharedSettings claimTimeout cap) y) :
    ∀ row ∈ y.state.db.outbox.rows, RowInv cap y.state.clock row := by
  intro row hrow
  obtain ⟨s₀, s, h₀, hsteps, hof⟩ := h.shared
  rw [← hof.outbox] at hrow
  rw [← hof.clock]
  exact hsteps.inv hcap h₀ row.id row (Table.find?_key hrow)

end System

end PaymentProcessing
