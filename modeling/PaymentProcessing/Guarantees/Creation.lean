import PaymentProcessing.Guarantees.Payments

/-!
# Creating a payment once

However many requests with one idempotency key run, and however they fail, one payment is committed
for the key, with its one event, and every request is answered about that payment.
-/

namespace PaymentProcessing

open Python Relational Concurrency World

variable {py : Platform} {A : Allowed} {s : World} {y y' : Config}

/-! ## Events -/

namespace World

/-- A committed transaction wrote this event. -/
def Emitted (event : OutboxModel) (s : World) : Prop :=
  ∃ i ws, s.Logged (.committed i ws) ∧ .insertOutbox event ∈ ws

end World

instance (event : OutboxModel) : (discipline py).Persistent (Emitted event) :=
  inferInstanceAs ((discipline py).Persistent fun s => ∃ i ws, s.Logged (.committed i ws) ∧ _)

/-- The batch of a creation. -/
def IsCreation (p : Payment) (eventId : UUID) (ws : List Write) : Prop :=
  ws = [.insertPayment (PaymentMapper.toModel p),
    .insertOutbox (createdEvent eventId p.id p.createdAt)]

/-- A batch with an event is a creation, of a payment that was not there, under a new id. -/
theorem CommitLegit.event_cases {i : Nat} {ws : List Write} {event : OutboxModel}
    (h : CommitLegit py i s ws) (hw : .insertOutbox event ∈ ws) :
    ∃ p eventId, IsCreation p eventId ws ∧ s.db.payments.find? p.id = none ∧
      s.IssuedTo i eventId ∧ ¬ s.Used eventId := by
  cases h with
  | create p eventId pending unprocessed locked keyLocked fresh freshKey issued unused =>
    exact ⟨p, eventId, rfl, fresh, issued, unused⟩
  | nothing => cases hw
  | complete | charge | remember | mark | release => simp at hw
  | claim | purge => simp [claimWrites] at hw

/-- **A payment and its event are committed together**: whatever batch has one has both. -/
theorem creation_atomic (h : Reachable py A y) : ∀ i ws, y.state.Logged (.committed i ws) →
    (∃ row, Write.insertPayment row ∈ ws) ∨ (∃ event, Write.insertOutbox event ∈ ws) →
      ∃ p eventId, IsCreation p eventId ws := by
  refine h.tables (P := fun s => ∀ i ws, s.Logged (.committed i ws) →
    (∃ row, Write.insertPayment row ∈ ws) ∨ (∃ event, Write.insertOutbox event ∈ ws) →
      ∃ p eventId, IsCreation p eventId ws) (fun _ _ _ hw => by cases hw)
    (fun s s' _ _ hback hP i ws hw => hP i ws (hback i ws hw)) ?_
  intro i s r hi hc hP j ws hw hins
  rcases committed_commit.1 hw with ⟨rfl, rfl⟩ | hw
  · rcases hins with ⟨row, hrow⟩ | ⟨event, hevent⟩
    · obtain ⟨p, eventId, hws, -⟩ := hc.insert_cases hrow
      exact ⟨p, eventId, hws⟩
    · obtain ⟨p, eventId, hws, -⟩ := hc.event_cases hevent
      exact ⟨p, eventId, hws⟩
  · exact hP j ws hw hins

theorem emitted_created (h : Reachable py A y) {event : OutboxModel}
    (he : y.state.Emitted event) : ∃ p : Payment, y.state.Inserted (PaymentMapper.toModel p) ∧
      event = createdEvent event.id p.id p.createdAt := by
  obtain ⟨i, ws, hw, hevent⟩ := he
  obtain ⟨p, eventId, hws⟩ := creation_atomic h i ws hw (.inr ⟨event, hevent⟩)
  rw [IsCreation] at hws
  subst hws
  have hev : event = createdEvent eventId p.id p.createdAt := by simpa using hevent
  exact ⟨p, ⟨i, _, hw, List.mem_cons_self ..⟩, by rw [hev]; rfl⟩

theorem createdPayload_injective {id id' : UUID}
    (h : CreatePayment.createdPayload id = CreatePayment.createdPayload id') : id = id' := by
  have he := congrArg JsonObject.entries h
  simp only [CreatePayment.createdPayload, JsonObject.single, List.cons.injEq, Prod.mk.injEq,
    Json.str.injEq, true_and, and_true] at he
  exact UUID.str_injective he

theorem emitted_unique (h : Reachable py A y) : ∀ event event', y.state.Emitted event →
    y.state.Emitted event' → event.payload = event'.payload → event = event' := by
  refine h.invariant (P := fun y => ∀ event event', y.state.Emitted event →
    y.state.Emitted event' → event.payload = event'.payload → event = event')
    (fun _ _ _ ⟨_, _, hw, _⟩ => by cases hw) ?_
  intro y y' a hr _ hP _ hl event event' he he' hp
  -- an event that is new is of a payment that was not there
  have hnew : ∀ {event}, y'.state.Emitted event → ¬ y.state.Emitted event → ∃ i ws p eventId,
      y.state.staged i = ws ∧ IsCreation p eventId ws ∧ y.state.db.payments.find? p.id = none ∧
        (∃ r, y'.state = (y.state.commit i).note (.did i .commit r)) ∧
        event = createdEvent eventId p.id p.createdAt := by
    rintro event ⟨i, ws, hw, hevent⟩ hold
    rcases hl.committed hw with hw | ⟨hc, hst, -, hr⟩
    · exact absurd ⟨i, ws, hw, hevent⟩ hold
    · obtain ⟨p, eventId, hws, hfresh, -⟩ := hc.event_cases hevent
      refine ⟨i, ws, p, eventId, hst, hws, hfresh, hr, ?_⟩
      rw [IsCreation] at hws
      subst hws
      simpa using hevent
  have hclash : ∀ {event event'}, y'.state.Emitted event → ¬ y.state.Emitted event →
      y.state.Emitted event' → event.payload ≠ event'.payload := by
    intro event event' he hold he' hp
    obtain ⟨i, ws, p, eventId, -, -, hfresh, -, rfl⟩ := hnew he hold
    obtain ⟨q, hin, hq⟩ := emitted_created hr he'
    rw [hq] at hp
    have hid : p.id = q.id := createdPayload_injective hp
    obtain ⟨q', hq', -, -, q'', hst, hext⟩ := inserted_row hr _ hin
    obtain rfl := PaymentMapper.toModel_injective hq'
    have hid' : p.id = q''.id := hid.trans hext.id.symm
    rw [hid'] at hfresh
    rw [Stored, hfresh] at hst
    cases hst
  by_cases hold : y.state.Emitted event <;> by_cases hold' : y.state.Emitted event'
  · exact hP _ _ hold hold' hp
  · exact absurd hp.symm (hclash he' hold' hold)
  · exact absurd hp (hclash he hold hold')
  · obtain ⟨i, ws, p, eventId, hst, hws, -, ⟨r, hs⟩, rfl⟩ := hnew he hold
    obtain ⟨j, ws', p', eventId', hst', hws', -, ⟨r', hs'⟩, rfl⟩ := hnew he' hold'
    -- one action commits one batch
    have hij : j = i := by
      have hlog := congrArg World.log (hs'.symm.trans hs)
      simp only [note, commit, endTx, List.cons.injEq, Entry.did.injEq] at hlog
      exact hlog.1.1
    subst hij
    obtain rfl : ws' = ws := hst'.symm.trans hst
    have heq := hws.symm.trans hws'
    simp only [List.cons.injEq, Write.insertPayment.injEq, Write.insertOutbox.injEq, and_true] at heq
    exact heq.2

theorem inserted_emits (h : Reachable py A y) {p : Payment}
    (hin : y.state.Inserted (PaymentMapper.toModel p)) :
    ∃ eventId, y.state.Emitted (createdEvent eventId p.id p.createdAt) := by
  obtain ⟨i, ws, hw, hrow⟩ := hin
  obtain ⟨q, eventId, hws⟩ := creation_atomic h i ws hw (.inl ⟨_, hrow⟩)
  rw [IsCreation] at hws
  subst hws
  obtain rfl : p = q := by simpa using PaymentMapper.toModel_injective (p := p) (q := q) (by
    simpa using hrow)
  exact ⟨eventId, i, _, hw, by simp⟩

/-! ## Keys -/

/-- Two inserted rows with the input of one row are one row. -/
theorem inserted_same {row row' row₀ : PaymentModel} (h : SameInput row row₀)
    (h' : SameInput row' row₀) (hs : row.status = row'.status)
    (hp : row.processedAt = row'.processedAt) : row = row' := by
  obtain ⟨h1, h2, h3, h4, h5, h6, h7, h8⟩ := h
  obtain ⟨h1', h2', h3', h4', h5', h6', h7', h8'⟩ := h'
  cases row
  cases row'
  simp_all

/-- For one key one row was ever inserted. -/
theorem inserted_key_unique (h : Reachable py A y) {row row' : PaymentModel}
    (hin : y.state.Inserted row) (hin' : y.state.Inserted row')
    (hk : row.idempotencyKey = row'.idempotencyKey) : row = row' := by
  obtain ⟨p, rfl, hp, hn, q, hst, hext⟩ := inserted_row h _ hin
  obtain ⟨p', rfl, hp', hn', q', hst', hext'⟩ := inserted_row h _ hin'
  have hsame := hext.sameInput
  have hsame' := hext'.sameInput
  have hrow : PaymentMapper.toModel q = PaymentMapper.toModel q' :=
    h.inv.keys _ (Table.mem_of_find? hst) _ (Table.mem_of_find? hst')
      (hsame.idempotencyKey.trans (hk.trans hsame'.idempotencyKey.symm))
  rw [← hrow] at hsame'
  refine inserted_same hsame hsame' ?_ (hn.trans hn'.symm)
  simp only [PaymentMapper.toModel, hp, hp']

/-- **Creating is idempotent per key.** For one key one payment is ever committed, together with its
one event; whoever gets an answer gets that payment, and it matches the command; a conflict is
raised only with the committed payment of the key, which does not. -/
theorem create_once_per_key (h : Reachable py anyAction y)
    (hs : (machine py).Steps anyAction y y') :
    (∀ row row', y.state.Inserted row → y.state.Inserted row' →
      row.idempotencyKey = row'.idempotencyKey → row = row') ∧
    (∀ row ∈ y.state.db.payments.rows, ∀ row' ∈ y.state.db.payments.rows,
      row.idempotencyKey = row'.idempotencyKey → row = row') ∧
    (∀ i ws, y.state.Logged (.committed i ws) →
      (∃ row, Write.insertPayment row ∈ ws) ∨ (∃ event, Write.insertOutbox event ∈ ws) →
        ∃ p eventId, IsCreation p eventId ws) ∧
    (∀ p, y.state.Inserted (PaymentMapper.toModel p) → ∃! event, y.state.Emitted event ∧
      event.eventType = paymentCreated ∧ event.payload = CreatePayment.createdPayload p.id) ∧
    (∀ i command reply, y.procs i = .running (.createPayment command) (.ret reply) →
      ∃ output p, reply = .payment output ∧ y'.state.Stored p ∧ output.paymentId = p.id ∧
        output.createdAt = p.createdAt ∧ Matches command p true) ∧
    ∀ i command id, y.procs i = .running (.createPayment command) (.raise (.idempotencyConflict id)) →
      ∃ p, id = some p.id ∧ y'.state.Stored p ∧ Matches command p false := by
  refine ⟨fun row row' hin hin' => inserted_key_unique h hin hin', h.inv.keys, creation_atomic h,
    fun p hin => ?_, fun i command reply hi => ?_, fun i command id hi => ?_⟩
  · obtain ⟨eventId, he⟩ := inserted_emits h hin
    exact ⟨_, ⟨he, rfl, rfl⟩, fun event' he' => emitted_unique h _ _ he'.1 he he'.2.2⟩
  · obtain ⟨output, rfl, p, hk, rfl, hm⟩ := h.returned hi
    obtain ⟨q, hst, hext⟩ := h.persistent (P := Known p) hs hk
    exact ⟨_, q, rfl, hst, hext.id.symm, hext.createdAt.symm, hm.extends hext⟩
  · have hraised : y.state.Conflicting command (.idempotencyConflict id) := h.raised hi
    cases id with
    | none => exact absurd rfl hraised.2
    | some id =>
      obtain ⟨p, hk, rfl, hm⟩ := hraised.1 id rfl
      obtain ⟨q, hst, hext⟩ := h.persistent (P := Known p) hs hk
      exact ⟨q, congrArg some hext.id.symm, hst, hm.extends hext⟩

theorem create_once_per_key_sample : ∃ y, sampleEnd = some y ∧
    y.state.db.payments.rows.map (·.idempotencyKey) = ["order-1"] ∧
    ∀ i command reply, y.procs i = .running (.createPayment command) (.ret reply) →
      ∃ output p, reply = .payment output ∧ y.state.Stored p ∧ output.paymentId = p.id ∧
        output.createdAt = p.createdAt ∧ Matches command p true := by
  obtain ⟨y, hy⟩ := Option.isSome_iff_exists.1 (by decide +kernel : sampleEnd.isSome = true)
  have hk : (sampleEnd.map fun y => y.state.db.payments.rows.map (·.idempotencyKey)) =
      some ["order-1"] := by decide +kernel
  rw [hy, Option.map_some, Option.some.injEq] at hk
  exact ⟨y, hy, hk, (create_once_per_key (reachable_sample hy) .refl).2.2.2.2.1⟩

end PaymentProcessing
