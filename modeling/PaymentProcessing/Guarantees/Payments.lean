import PaymentProcessing.Protocol.Runs

/-!
# What holds of payments

A payment is decided once, as its one gateway charge says, and every webhook and every later read
tells that decision. All of it holds in every run, with any failures, crashes and duplicates.
-/

namespace PaymentProcessing

open Python Relational Concurrency World

variable {py : Platform} {A : Allowed} {i : Nat} {s : World} {y y' : Config}

/-! ## The rows of payments -/

namespace World

/-- A committed transaction inserted this row. -/
def Inserted (row : PaymentModel) (s : World) : Prop :=
  ∃ i ws, s.Logged (.committed i ws) ∧ .insertPayment row ∈ ws

end World

instance (row : PaymentModel) : (discipline py).Persistent (Inserted row) :=
  inferInstanceAs ((discipline py).Persistent fun s => ∃ i ws, s.Logged (.committed i ws) ∧ _)

/-- The columns that processing a payment does not touch. -/
structure SameInput (row row' : PaymentModel) : Prop where
  id : row'.id = row.id
  amount : row'.amount = row.amount
  currency : row'.currency = row.currency
  description : row'.description = row.description
  extra : row'.extra = row.extra
  idempotencyKey : row'.idempotencyKey = row.idempotencyKey
  webhookUrl : row'.webhookUrl = row.webhookUrl
  createdAt : row'.createdAt = row.createdAt

theorem Payment.Extends.sameInput {p q : Payment} (h : p.Extends q) :
    SameInput (PaymentMapper.toModel p) (PaymentMapper.toModel q) where
  id := h.id
  amount := by simp only [PaymentMapper.toModel, h.money]
  currency := by simp only [PaymentMapper.toModel, h.money]
  description := h.description
  extra := h.metadata
  idempotencyKey := by simp only [PaymentMapper.toModel, h.idempotencyKey]
  webhookUrl := h.webhookUrl
  createdAt := h.createdAt

/-- **Where a row of payments comes from**: it was there, it is inserted, or it is completed. -/
theorem CommitLegit.payment_cases {ws : List Write} {id : UUID} {row : PaymentModel}
    (h : CommitLegit py i s ws) (hrow : (s.db.writeAll ws).payments.find? id = some row) :
    s.db.payments.find? id = some row ∨
    (∃ p eventId, ws = [.insertPayment (PaymentMapper.toModel p),
        .insertOutbox (createdEvent eventId p.id p.createdAt)] ∧ row = PaymentMapper.toModel p ∧
      p.status = .pending ∧ p.processedAt = none) ∨
    (∃ p isSuccessful now, s.Stored p ∧ p.status = .pending ∧ s.Charged p.id isSuccessful ∧
      row = PaymentMapper.toModel (p.completed isSuccessful now)) := by
  cases h with
  | nothing | charge | remember => exact .inl hrow
  | create p eventId pending unprocessed locked keyLocked fresh =>
    have hr : (s.db.payments.insert (PaymentMapper.toModel p)).find? id = some row := hrow
    rw [Table.find?_insert (r := PaymentMapper.toModel p) fresh] at hr
    split at hr
    · cases hr
      exact .inr (.inl ⟨p, eventId, rfl, rfl, pending, unprocessed⟩)
    · exact .inl hr
  | complete p isSuccessful now pending stored charged =>
    have hr : (s.db.payments.replace
      (PaymentMapper.toModel (p.completed isSuccessful now))).find? id = some row := hrow
    rw [Table.find?_replace] at hr
    split at hr
    · obtain ⟨row₀, -, hrow₀⟩ := Option.map_eq_some_iff.1 hr
      exact .inr (.inr ⟨p, isSuccessful, now, stored, pending, charged, hrow₀.symm⟩)
    · exact .inl hr
  | claim worker rows now =>
    have hp := (s.db.writeAll_updates_frame (SqlOutboxQueue.claimPatch now) (rows.map (·.id))).1
    rw [claimWrites, hp] at hrow
    exact .inl hrow
  | mark row claimedAt publishedAt => exact .inl hrow
  | release worker row claimedAt patch => exact .inl hrow
  | purge rows =>
    rw [(s.db.writeAll_deletes_frame (rows.map (·.id))).1] at hrow
    exact .inl hrow

theorem CommitLegit.insert_cases {ws : List Write} {row : PaymentModel}
    (h : CommitLegit py i s ws) (hrow : .insertPayment row ∈ ws) :
    ∃ p eventId, ws = [.insertPayment (PaymentMapper.toModel p),
        .insertOutbox (createdEvent eventId p.id p.createdAt)] ∧ row = PaymentMapper.toModel p ∧
      p.status = .pending ∧ p.processedAt = none ∧ s.db.payments.find? p.id = none ∧
      (∀ row ∈ s.db.payments.rows, row.idempotencyKey ≠ p.idempotencyKey.value) ∧
      s.IssuedTo i eventId ∧ ¬ s.Used eventId := by
  cases h with
  | create p eventId pending unprocessed locked keyLocked fresh freshKey issued unused =>
    have he : row = PaymentMapper.toModel p := by simpa using hrow
    exact ⟨p, eventId, rfl, he, pending, unprocessed, fresh, freshKey, issued, unused⟩
  | nothing => cases hrow
  | complete | charge | remember | mark | release => simp at hrow
  | claim | purge => simp [claimWrites] at hrow

theorem committed_commit {r : Except Exc (Res .commit)} {j : Nat} {ws : List Write} :
    ((s.commit i).note (.did i .commit r)).Logged (.committed j ws) ↔
      (j = i ∧ ws = s.staged i) ∨ s.Logged (.committed j ws) := by
  simp [Logged, note, commit, endTx]

/-- Every row of payments was inserted, pending, and has kept its input. -/
theorem row_inserted (h : Reachable py A y) :
    ∀ id row, y.state.db.payments.find? id = some row → ∃ row₀, y.state.Inserted row₀ ∧
      row₀.status = "pending" ∧ row₀.processedAt = none ∧ SameInput row₀ row := by
  refine h.tables (P := fun s => ∀ id row, s.db.payments.find? id = some row →
    ∃ row₀, s.Inserted row₀ ∧ row₀.status = "pending" ∧ row₀.processedAt = none ∧
      SameInput row₀ row) (fun _ _ _ h => by cases h) (fun s s' hdb hlog _ hP id row hrow => ?_)
    fun i s r hi hc hP id row hrow => ?_
  · rw [hdb] at hrow
    obtain ⟨row₀, ⟨j, ws, hw, hin⟩, hrest⟩ := hP id row hrow
    exact ⟨row₀, ⟨j, ws, hlog.subset hw, hin⟩, hrest⟩
  · have hold : ∀ {row₀}, s.Inserted row₀ →
        ((s.commit i).note (.did i .commit r)).Inserted row₀ := fun ⟨j, ws, hw, hin⟩ =>
      ⟨j, ws, committed_commit.2 (.inr hw), hin⟩
    rcases hc.payment_cases hrow with hrow | ⟨p, eventId, hws, rfl, hp, hn⟩ |
      ⟨p, b, now, hst, hp, -, rfl⟩
    · obtain ⟨row₀, hin, hrest⟩ := hP id row hrow
      exact ⟨row₀, hold hin, hrest⟩
    · refine ⟨PaymentMapper.toModel p, ⟨i, _, committed_commit.2 (.inl ⟨rfl, rfl⟩), ?_⟩, ?_, hn,
        (Payment.Extends.refl p).sameInput⟩
      · rw [hws]; exact List.mem_cons_self ..
      · rw [PaymentMapper.toModel, hp]; rfl
    · obtain ⟨row₀, hin, hs₀, hn₀, hsame⟩ := hP _ _ hst
      have hext := (Payment.Extends.completed hp b now).sameInput
      exact ⟨row₀, hold hin, hs₀, hn₀, hext.id.trans hsame.id, hext.amount.trans hsame.amount,
        hext.currency.trans hsame.currency, hext.description.trans hsame.description,
        hext.extra.trans hsame.extra, hext.idempotencyKey.trans hsame.idempotencyKey,
        hext.webhookUrl.trans hsame.webhookUrl, hext.createdAt.trans hsame.createdAt⟩

theorem inserted_row (h : Reachable py A y) :
    ∀ row₀, y.state.Inserted row₀ → ∃ p, row₀ = PaymentMapper.toModel p ∧ p.status = .pending ∧
      p.processedAt = none ∧ y.state.Known p := by
  refine h.tables (P := fun s => ∀ row₀, s.Inserted row₀ → ∃ p, row₀ = PaymentMapper.toModel p ∧
    p.status = .pending ∧ p.processedAt = none ∧ s.Known p)
    (fun _ _ ⟨_, _, hw, _⟩ => by cases hw) (fun s s' hdb _ hback hP row₀ hin => ?_)
    fun i s r hi hc hP row₀ hin => ?_
  · obtain ⟨j, ws, hw, hrow⟩ := hin
    obtain ⟨p, hp, hpend, hn, p', hst, hext⟩ := hP row₀ ⟨j, ws, hback j ws hw, hrow⟩
    exact ⟨p, hp, hpend, hn, p', by rw [Stored, hdb]; exact hst, hext⟩
  · have hev := commit_evolves (hc.effect hi) rfl r
    obtain ⟨j, ws, hw, hrow⟩ := hin
    rcases committed_commit.1 hw with ⟨rfl, rfl⟩ | hw
    · obtain ⟨p, eventId, hws, rfl, hpend, hn, hfresh, -⟩ := hc.insert_cases hrow
      refine ⟨p, rfl, hpend, hn, p, ?_, .refl p⟩
      show (s.db.writeAll (s.staged j)).payments.find? p.id = _
      rw [hws]
      exact (Table.find?_insert (r := PaymentMapper.toModel p) hfresh _).trans (if_pos rfl)
    · obtain ⟨p, hp, hpend, hn, p', hst, hext⟩ := hP row₀ ⟨j, ws, hw, hrow⟩
      obtain ⟨p'', hst', hext'⟩ := hev.payments p' hst
      exact ⟨p, hp, hpend, hn, p'', hst', hext.trans hext'⟩

/-- A row of payments is the row of a payment, which is processed when it is not pending. -/
theorem row_payment (h : Reachable py A y) {row : PaymentModel}
    (hrow : row ∈ y.state.db.payments.rows) : ∃ p, row = PaymentMapper.toModel p ∧
      y.state.Stored p ∧ (p.status = .pending ↔ p.processedAt = none) := by
  obtain ⟨p, rfl, hp⟩ := h.inv.payments _ row (Table.find?_key hrow)
  exact ⟨p, rfl, Table.find?_key hrow, hp⟩

/-- **A payment is decided once.** Its row is pending exactly while it has no `processed_at`; once
decided it never changes; and all other columns are for ever as `CreatePayment` inserted them. -/
theorem payment_decided_once (h : Reachable py anyAction y)
    (hs : (machine py).Steps anyAction y y') :
    (∀ row ∈ y.state.db.payments.rows, (row.status = "pending" ↔ row.processedAt = none)) ∧
    (∀ row ∈ y.state.db.payments.rows, row.status = "succeeded" ∨ row.status = "failed" →
      y'.state.db.payments.find? row.id = some row) ∧
    (∀ row ∈ y.state.db.payments.rows, ∃ row₀, y.state.Inserted row₀ ∧ SameInput row₀ row) ∧
    ∀ row₀, y.state.Inserted row₀ → row₀.status = "pending" ∧ row₀.processedAt = none ∧
      ∃ row, y'.state.db.payments.find? row₀.id = some row ∧ SameInput row₀ row := by
  refine ⟨fun row hrow => ?_, fun row hrow hterm => ?_, fun row hrow => ?_, fun row₀ hin => ?_⟩
  · obtain ⟨p, rfl, -, hp⟩ := row_payment h hrow
    refine Iff.trans ⟨fun hv => ?_, fun hv => ?_⟩ hp
    · exact PaymentStatus.value_injective (t := .pending) hv
    · rw [PaymentMapper.toModel, hv]; rfl
  · obtain ⟨p, rfl, hst, -⟩ := row_payment h hrow
    have ht : p.isTerminal = true := PaymentStatus.isTerminal_iff.2 fun hp => by
      rw [PaymentMapper.toModel, hp] at hterm
      simp [PaymentStatus.value] at hterm
    exact (h.persistent (P := Settled p) hs ⟨hst, ht⟩).1
  · obtain ⟨row₀, hin, -, -, hsame⟩ := row_inserted h _ _ (Table.find?_key hrow)
    exact ⟨row₀, hin, hsame⟩
  · obtain ⟨p, rfl, hp, hn, p', hst, hext⟩ :=
      inserted_row (h.steps hs) row₀ (h.persistent (P := Inserted row₀) hs hin)
    refine ⟨by rw [PaymentMapper.toModel, hp]; rfl, hn, _, ?_, hext.sameInput⟩
    have hid : (PaymentMapper.toModel p).id = p'.id := hext.id.symm
    rw [hid]
    exact hst

theorem payment_decided_once_sample : ∃ y, sampleEnd = some y ∧
    y.state.db.payments.rows.map (·.status) = ["succeeded"] ∧
    ∀ row ∈ y.state.db.payments.rows, y.state.db.payments.find? row.id = some row := by
  obtain ⟨y, hy⟩ := Option.isSome_iff_exists.1 (by decide +kernel : sampleEnd.isSome = true)
  have hst : (sampleEnd.map fun y => y.state.db.payments.rows.map (·.status)) =
      some ["succeeded"] := by decide +kernel
  rw [hy, Option.map_some, Option.some.injEq] at hst
  refine ⟨y, hy, hst, fun row hrow => ?_⟩
  refine (payment_decided_once (reachable_sample hy) .refl).2.1 row hrow (.inl ?_)
  exact List.mem_singleton.1 (hst ▸ List.mem_map_of_mem hrow)

/-! ## Charges -/

theorem committed_charge (h : Reachable py A y) :
    ∀ i ws row, y.state.Logged (.committed i ws) → .insertCharge row ∈ ws →
      y.state.db.charges.find? row.paymentId = some row := by
  refine h.tables (P := fun s => ∀ i ws row, s.Logged (.committed i ws) → .insertCharge row ∈ ws →
    s.db.charges.find? row.paymentId = some row) (fun _ _ _ _ hw => by cases hw)
    (fun s s' hdb _ hback hP i ws row hw hrow => ?_) fun i s r hi hc hP j ws row hw hrow => ?_
  · rw [hdb]
    exact hP i ws row (hback i ws hw) hrow
  · rcases committed_commit.1 hw with ⟨rfl, rfl⟩ | hw
    · show (s.db.writeAll (s.staged j)).charges.find? row.paymentId = _
      generalize s.staged j = ws at hc hrow
      cases hc with
      | charge row' locked fresh =>
        obtain rfl : row = row' := by simpa using hrow
        exact (Table.find?_insert fresh _).trans (if_pos rfl)
      | nothing => cases hrow
      | create | complete | remember | mark | release => simp at hrow
      | claim | purge => simp [claimWrites] at hrow
    · exact (commit_evolves (hc.effect hi) rfl r).charges _ _ (hP j ws row hw hrow)

/-- A payment that is not pending is as its charge says. -/
theorem settled_charged (h : Reachable py A y) :
    ∀ id row, y.state.db.payments.find? id = some row → row.status ≠ "pending" →
      ∃ isSuccessful, y.state.Charged id isSuccessful ∧
        row.status = if isSuccessful then "succeeded" else "failed" := by
  refine h.tables (P := fun s => ∀ id row, s.db.payments.find? id = some row →
    row.status ≠ "pending" → ∃ isSuccessful, s.Charged id isSuccessful ∧
      row.status = if isSuccessful then "succeeded" else "failed") (fun _ _ _ h => by cases h)
    (fun s s' hdb _ _ hP id row hrow hne => ?_) fun i s r hi hc hP id row hrow hne => ?_
  · rw [hdb] at hrow
    obtain ⟨b, ⟨c, hc, hb⟩, hst⟩ := hP id row hrow hne
    exact ⟨b, ⟨c, by rw [hdb]; exact hc, hb⟩, hst⟩
  · have hev := commit_evolves (hc.effect hi) rfl r
    have hold : ∀ {id b}, s.Charged id b → ((s.commit i).note (.did i .commit r)).Charged id b :=
      fun ⟨c, hc, hb⟩ => ⟨c, hev.charges _ _ hc, hb⟩
    rcases hc.payment_cases hrow with hrow' | ⟨p, eventId, hws, rfl, hp, hn⟩ |
      ⟨p, b, now, hst, hp, hb, rfl⟩
    · obtain ⟨b, hb, hst⟩ := hP id row hrow' hne
      exact ⟨b, hold hb, hst⟩
    · rw [PaymentMapper.toModel, hp] at hne
      exact absurd rfl hne
    · have hid : (PaymentMapper.toModel (p.completed b now)).id = id := Table.key_of_find? hrow
      refine ⟨b, hold (hid ▸ hb), ?_⟩
      cases b <;> rfl

theorem lost_charge (h : Reachable py A y) : ∀ i row,
    y.state.Did i (.insertCharge row) (.ok none) → ∃ b, y.state.Charged row.paymentId b := by
  refine h.invariant (P := fun y => ∀ i row, y.state.Did i (.insertCharge row) (.ok none) →
    ∃ b, y.state.Charged row.paymentId b) (fun _ _ _ hd => by cases hd) ?_
  intro y y' a hr _ hP _ hl i row hd
  rcases hl.did hd with hd | ⟨hreq, c, hs⟩
  · obtain ⟨b, c, hc, hb⟩ := hP i row hd
    exact ⟨b, c, (hl.evolves (sound py) hr.inv).charges _ _ hc, hb⟩
  · rcases insertCharge_ok hreq.2.2 hs with ⟨he, -⟩ | ⟨-, -, hb⟩
    · cases he
    · exact hb

/-- `put_if_absent` finds the charge it lost against. -/
theorem lost_charge_found (h : Reachable py A y) : ∀ i row a,
    y.state.Before (.did i (.insertCharge row) (.ok none))
      (.did i (.getCharge row.paymentId) (.ok a)) → a ≠ none := by
  refine h.invariant (P := fun y => ∀ i row a,
    y.state.Before (.did i (.insertCharge row) (.ok none))
      (.did i (.getCharge row.paymentId) (.ok a)) → a ≠ none)
    (fun _ _ _ _ hb => by obtain ⟨l₁, l₂, hl, -⟩ := hb; cases l₁ <;> cases hl) ?_
  intro y y' a hr _ hP _ hl i row a hb
  rcases hl.before hb with hb | ⟨-, ⟨c, hs⟩, hold⟩
  · exact hP i row a hb
  · obtain ⟨b, row', hrow', -⟩ := lost_charge hr i row (hold.resolve_right (by simp))
    obtain ⟨s₁, he, -⟩ := exec_ok hs
    cases he
    simp [view, Tables.writeAll_charges _ _ hrow']

/-- **One charge outcome per payment, and the ledger agrees with it.** A committed charge is the
payment's one row of the ledger for ever, `charge` answers what that row says and never misses it,
and a decided payment is as its row says. -/
theorem one_charge_outcome (h : Reachable py anyAction y)
    (hs : (machine py).Steps anyAction y y') :
    (∀ i ws row, y.state.Logged (.committed i ws) → .insertCharge row ∈ ws →
      y'.state.db.charges.find? row.paymentId = some row) ∧
    (∀ row ∈ y.state.db.charges.rows, y'.state.db.charges.find? row.paymentId = some row) ∧
    (∀ i payment reply, y.procs i = .running (.charge payment) (.ret reply) →
      ∃ row, y'.state.db.charges.find? payment.id = some row ∧
        reply = .charged { isSuccessful := row.isSuccessful }) ∧
    (∀ i payment e, y.procs i = .running (.charge payment) (.raise e) →
      ∀ id, e ≠ missingCharge id) ∧
    (∀ i paymentId messageId e,
      y.procs i = .running (.processPayment paymentId messageId) (.raise e) →
        ∀ id, e ≠ missingCharge id) ∧
    (∀ i row a, y.state.Before (.did i (.insertCharge row) (.ok none))
      (.did i (.getCharge row.paymentId) (.ok a)) → a ≠ none) ∧
    (∀ row ∈ y.state.db.payments.rows, row.status ≠ "pending" →
      ∃ charge, y.state.db.charges.find? row.id = some charge ∧
        row.status = if charge.isSuccessful then "succeeded" else "failed") := by
  refine ⟨fun i ws row hw hrow => ?_, fun row hrow => ?_, fun i payment reply hi => ?_,
    fun i payment e hi => h.raised hi, fun i paymentId messageId e hi => h.raised hi,
    lost_charge_found h, fun row hrow hne => ?_⟩
  · exact (h.evolves hs).charges _ _ (committed_charge h i ws row hw hrow)
  · exact (h.evolves hs).charges _ _ (Table.find?_key hrow)
  · obtain ⟨⟨b⟩, rfl, row, hrow, rfl⟩ := h.returned hi
    exact ⟨row, (h.evolves hs).charges _ _ hrow, rfl⟩
  · obtain ⟨b, ⟨row', hrow', rfl⟩, hst⟩ := settled_charged h _ _ (Table.find?_key hrow) hne
    exact ⟨row', hrow', hst⟩

theorem one_charge_outcome_sample : ∃ y, sampleEnd = some y ∧
    y.state.db.charges.rows.map (·.isSuccessful) = [true] ∧
    ∀ row ∈ y.state.db.payments.rows, row.status ≠ "pending" →
      ∃ charge, y.state.db.charges.find? row.id = some charge ∧
        row.status = if charge.isSuccessful then "succeeded" else "failed" := by
  obtain ⟨y, hy⟩ := Option.isSome_iff_exists.1 (by decide +kernel : sampleEnd.isSome = true)
  have hc : (sampleEnd.map fun y => y.state.db.charges.rows.map (·.isSuccessful)) =
      some [true] := by decide +kernel
  rw [hy, Option.map_some, Option.some.injEq] at hc
  exact ⟨y, hy, hc, (one_charge_outcome (reachable_sample hy) .refl).2.2.2.2.2.2⟩

/-! ## Webhooks -/

/-- A process executes `ProcessPayment` for one payment and one message id. -/
theorem executes_unique {id id' : UUID} {m m' : Option UUID} (hi : Inv s)
    (h : s.Executes py i id m) (h' : s.Executes py i id' m') : id = id' ∧ m = m' := by
  rcases h with h | ⟨msg, hmsg, hid, hm⟩ <;> rcases h' with h' | ⟨msg', hmsg', hid', hm'⟩
  · cases hi.started i _ _ h h'
    exact ⟨rfl, rfl⟩
  · obtain ⟨n, hn⟩ := hi.delivered i _ hmsg'
    cases hi.started i _ _ h hn
  · obtain ⟨n, hn⟩ := hi.delivered i _ hmsg
    cases hi.started i _ _ h' hn
  · obtain rfl := hi.message i _ _ hmsg hmsg'
    exact ⟨Except.ok.inj (hid.symm.trans hid'), hm.symm.trans hm'⟩

/-- Process `i` is about to send this webhook, or it has tried to. -/
def Attempts (y : Config) (i : Nat) (url : String) (payload : WebhookPayload) (key : String) :
    Prop :=
  (∃ k f, y.procs i = .running k (.call (.post url payload key) f)) ∨
  ∃ r, y.state.Did i (.post url payload key) r

/-- The webhook of a payment, by its row. -/
structure WebhookOf (py : Platform) (row : PaymentModel) (url : String) (payload : WebhookPayload)
    (key : String) : Prop where
  url : url = row.webhookUrl
  payload : payload.Tells py row
  key : key = row.id.str

/-- A webhook is the one of the payment its process executes, which is completed. -/
theorem attempts_settled (h : Reachable py A y) {url : String} {payload : WebhookPayload}
    {key : String} (ha : Attempts y i url payload key) : ∃ p m, y.state.Executes py i p.id m ∧
      y.state.Settled p ∧ WebhookOf py (PaymentMapper.toModel p) url payload key := by
  have hreq : ∀ {s : World}, Req py i (.post url payload key) s → ∃ p m,
      s.Executes py i p.id m ∧ s.Settled p ∧
        WebhookOf py (PaymentMapper.toModel p) url payload key := fun hreq => by
    obtain ⟨-, -, hpost⟩ := hreq
    cases hpost with
    | outcome p m hx hst ht =>
      exact ⟨p, m, hx, ⟨hst, ht⟩, rfl, WebhookPayload.build_tells py p, rfl⟩
  rcases ha with ⟨k, f, hi⟩ | ⟨r, hd⟩
  · exact hreq (h.req hi)
  · revert hd
    refine h.invariant (P := fun y => y.state.Did i (.post url payload key) r → ∃ p m,
      y.state.Executes py i p.id m ∧ y.state.Settled p ∧
        WebhookOf py (PaymentMapper.toModel p) url payload key) (fun _ hd => by cases hd) ?_
    intro y y' a hr _ hP _ hl hd
    have hpers : (discipline py).Persistent fun s => ∃ p m, s.Executes py i p.id m ∧
        s.Settled p ∧ WebhookOf py (PaymentMapper.toModel p) url payload key := inferInstance
    refine hpers.persistent _ _ (hl.evolves (sound py) hr.inv) ?_
    exact (hl.did hd).elim hP fun hd => hreq hd.1

theorem attempts_of_payment (h : Reachable py A y) {id : UUID} {m : Option UUID} {url : String}
    {payload : WebhookPayload} {key : String} (hx : y.state.Executes py i id m)
    (ha : Attempts y i url payload key) : ∃ p, p.id = id ∧ y.state.Settled p ∧
      WebhookOf py (PaymentMapper.toModel p) url payload key := by
  obtain ⟨p, m', hx', hset, hof⟩ := attempts_settled h ha
  exact ⟨p, (executes_unique h.inv hx' hx).1, hset, hof⟩

theorem settled_unique {p q : Payment} (hp : s.Settled p) (hq : s.Settled q) (hid : p.id = q.id) :
    p = q := by
  have h : s.db.payments.find? q.id = some (PaymentMapper.toModel p) := by rw [← hid]; exact hp.1
  exact PaymentMapper.toModel_injective (Option.some.inj (h.symm.trans hq.1))

/-- The row of a completed payment says how and when. -/
theorem settled_row (h : Reachable py A y) {p : Payment} (hset : y.state.Settled p) :
    ((PaymentMapper.toModel p).status = "succeeded" ∨ (PaymentMapper.toModel p).status = "failed") ∧
      (PaymentMapper.toModel p).processedAt ≠ none := by
  obtain ⟨q, hq, -, hpending⟩ := row_payment h (Table.mem_of_find? hset.1)
  obtain rfl := PaymentMapper.toModel_injective hq
  have hne : p.status ≠ .pending := PaymentStatus.isTerminal_iff.1 hset.2
  refine ⟨?_, fun hn => hne (hpending.2 hn)⟩
  show p.status.value = _ ∨ p.status.value = _
  cases hst : p.status with
  | pending => exact absurd hst hne
  | succeeded => exact .inl rfl
  | failed => exact .inr rfl

/-- **All webhooks of a payment agree.** A webhook is attempted only when the outcome of the payment
is committed, and tells what its row says; any two attempts for one payment are the same; and
whoever gets the payment afterwards is shown that row. -/
theorem webhooks_agree (h : Reachable py anyAction y) {id : UUID} {m : Option UUID} {url : String}
    {payload : WebhookPayload} {key : String} (hx : y.state.Executes py i id m)
    (ha : Attempts y i url payload key) :
    ∃ row, (y.state.db.payments.find? id = some row ∧ row.id = id ∧
        (row.status = "succeeded" ∨ row.status = "failed") ∧ row.processedAt ≠ none ∧
        WebhookOf py row url payload key) ∧
      (∀ y' j m' url' payload' key', (machine py).Steps anyAction y y' →
        y'.state.Executes py j id m' → Attempts y' j url' payload' key' →
          url' = url ∧ payload' = payload ∧ key' = key) ∧
      ∀ y₁ y₂ y₃ j, (machine py).Steps anyAction y y₁ →
        (machine py).step (.spawn j (.getPayment id)) y₁ = some y₂ →
        (machine py).Steps anyAction y₂ y₃ →
          (∀ reply, y₃.procs j = .running (.getPayment id) (.ret reply) →
            ∃ output : PaymentOutput, reply = .payment output ∧ output.Shows row) ∧
          ∀ e, y₃.procs j = .running (.getPayment id) (.raise e) → ∃ f, e = Fault.toExc f := by
  obtain ⟨p, rfl, hset, hof⟩ := attempts_of_payment h hx ha
  obtain ⟨hterminal, hprocessed⟩ := settled_row h hset
  refine ⟨PaymentMapper.toModel p, ⟨hset.1, rfl, hterminal, hprocessed, hof⟩,
    fun y' j m' url' payload' key' hs hx' ha' => ?_, fun y₁ y₂ y₃ j hs₁ hspawn hs₃ => ?_⟩
  · obtain ⟨q, hid, hset', hof'⟩ := attempts_of_payment (h.steps hs) hx' ha'
    obtain rfl := settled_unique hset' (h.persistent (P := Settled p) hs hset) hid
    exact ⟨hof'.url.trans hof.url.symm, hof'.payload.unique hof.payload,
      hof'.key.trans hof.key.symm⟩
  · have h₁ := h.steps hs₁
    have hone : (machine py).Steps anyAction y₁ y₂ := .step _ .refl trivial hspawn
    have h₂ := h₁.steps hone
    have hset₂ : y₂.state.Settled p :=
      h.persistent (P := Settled p) (hs₁.trans hone) hset
    obtain ⟨prog, hst, hrun, hf, hinv⟩ := h₁.spawned hspawn
    have hwork : y₂.state.Working py j := ⟨⟨_, hf.started⟩, .inl ⟨_, hf.started, rfl⟩⟩
    have hsafe := Runs.reply .payment (runs_getPayment_settled p : Runs py j _ _ _ _) y₂.state hinv
      ⟨⟨hwork, hset₂⟩, hf.staged⟩
    have hprog : (do return Reply.payment (← GetPayment.execute p.id)) = prog :=
      congrArg Prod.snd (Option.some.inj hst)
    subst hprog
    obtain ⟨hret, hraise⟩ := h₂.ended_of_safe hrun hsafe hs₃
    refine ⟨fun reply he => ?_, fun e he => (hraise e he).1⟩
    obtain ⟨⟨output, rfl, rfl⟩, -⟩ := hret reply he
    exact ⟨_, rfl, PaymentOutput.fromPayment_shows p⟩

/-- The entry starts process 1 of the sample run. -/
def Entry.startsSample : Entry → Bool
  | .started i (.processPayment id m) => i = 1 && id = UUID.ofNat 1 && m = some (UUID.ofNat 2)
  | _ => false

/-- The entry is a webhook of process 1. -/
def Entry.postsSample : Entry → Bool
  | .did i (.post ..) _ => i = 1
  | _ => false

theorem webhooks_agree_sample : ∃ y row url payload key, sampleEnd = some y ∧
    Attempts y 1 url payload key ∧ y.state.db.payments.find? (UUID.ofNat 1) = some row ∧
    WebhookOf samplePlatform row url payload key := by
  obtain ⟨y, hy⟩ := Option.isSome_iff_exists.1 (by decide +kernel : sampleEnd.isSome = true)
  have hlog : (sampleEnd.map fun y => y.state.log.any Entry.startsSample &&
      y.state.log.any Entry.postsSample) = some true := by decide +kernel
  rw [hy, Option.map_some, Option.some.injEq, Bool.and_eq_true, List.any_eq_true,
    List.any_eq_true] at hlog
  obtain ⟨⟨e, he, hstart⟩, e', he', hpost⟩ := hlog
  have hx : y.state.Executes samplePlatform 1 (UUID.ofNat 1) (some (UUID.ofNat 2)) := by
    unfold Entry.startsSample at hstart
    split at hstart
    · simp only [Bool.and_eq_true, decide_eq_true_eq] at hstart
      obtain ⟨⟨rfl, rfl⟩, rfl⟩ := hstart
      exact .inl he
    · cases hstart
  unfold Entry.postsSample at hpost
  split at hpost
  · rename_i i url payload key r
    obtain rfl : i = 1 := by simpa using hpost
    have ha : Attempts y 1 url payload key := .inr ⟨r, he'⟩
    obtain ⟨row, ⟨hrow, -, -, -, hof⟩, -⟩ := webhooks_agree (reachable_sample hy) hx ha
    exact ⟨y, row, url, payload, key, hy, ha, hrow, hof⟩
  · cases hpost

end PaymentProcessing
