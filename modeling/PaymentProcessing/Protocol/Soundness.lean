import PaymentProcessing.Protocol.Facts

/-!
# The discipline is sound

Every operation performed as `Req` asks, every start, kill and action of the outside keeps `Inv`,
is seen by the others as `Rely` and undoes nothing. Only a commit changes tables: `CommitEffect` is
what each of its batches does to them. Everything else is `Quiet`.
-/

namespace PaymentProcessing

open Python Relational Concurrency World

variable {py : Platform} {i j : Nat} {s s' : World}

/-! ## Orders -/

namespace Payment.Extends

variable {p q r : Payment}

theorem refl (p : Payment) : p.Extends p := ⟨rfl, rfl, rfl, rfl, rfl, rfl, rfl, fun _ => rfl⟩

theorem trans (h₁ : p.Extends q) (h₂ : q.Extends r) : p.Extends r where
  id := h₂.id.trans h₁.id
  money := h₂.money.trans h₁.money
  description := h₂.description.trans h₁.description
  metadata := h₂.metadata.trans h₁.metadata
  idempotencyKey := h₂.idempotencyKey.trans h₁.idempotencyKey
  webhookUrl := h₂.webhookUrl.trans h₁.webhookUrl
  createdAt := h₂.createdAt.trans h₁.createdAt
  terminal ht := by
    have hq : q = p := h₁.terminal ht
    rw [h₂.terminal (by rw [hq]; exact ht), hq]

theorem completed (h : p.status = .pending) (isSuccessful : Bool) (now : Time) :
    p.Extends (p.completed isSuccessful now) :=
  ⟨rfl, rfl, rfl, rfl, rfl, rfl, rfl, fun ht => by
    simp [Payment.isTerminal, h, PaymentStatus.isTerminal] at ht⟩

end Payment.Extends

theorem Evolves.refl (s : World) : Evolves s s :=
  ⟨List.suffix_refl _, fun p hp => ⟨p, hp, .refl p⟩, fun _ _ h => h, fun _ _ h => h,
    fun _ _ h => h⟩

theorem Evolves.trans {s₁ s₂ s₃ : World} (h₁ : Evolves s₁ s₂) (h₂ : Evolves s₂ s₃) :
    Evolves s₁ s₃ where
  log := h₁.log.trans h₂.log
  payments p hp := by
    obtain ⟨q, hq, hpq⟩ := h₁.payments p hp
    obtain ⟨r, hr, hqr⟩ := h₂.payments q hq
    exact ⟨r, hr, hpq.trans hqr⟩
  charges id row h := h₂.charges id row (h₁.charges id row h)
  inbox id row h := h₂.inbox id row (h₁.inbox id row h)
  issued u o h := h₂.issued u o (h₁.issued u o h)

theorem Rely.refl (i : Nat) (s : World) : Rely i s s :=
  ⟨.refl s, rfl, rfl, fun _ => Iff.rfl, fun _ _ h => h, fun _ _ => rfl, fun _ _ h => h,
    fun _ _ _ h => h, fun _ _ => rfl, fun _ _ => rfl⟩

theorem Rely.trans {s₁ s₂ s₃ : World} (h₁ : Rely i s₁ s₂) (h₂ : Rely i s₂ s₃) : Rely i s₁ s₃ where
  toEvolves := h₁.toEvolves.trans h₂.toEvolves
  own := h₂.own.trans h₁.own
  staged := h₂.staged.trans h₁.staged
  locks l := (h₂.locks l).trans (h₁.locks l)
  unused id hi h := h₁.unused id hi (h₂.unused id (h₁.issued _ _ hi) h)
  payment id h := (h₂.payment id ((h₁.locks _).2 h)).trans (h₁.payment id h)
  key k h hk := h₂.key k ((h₁.locks _).2 h) (h₁.key k h hk)
  outbox id row h hrow := h₂.outbox id row ((h₁.locks _).2 h) (h₁.outbox id row h hrow)
  inboxRow id h := (h₂.inboxRow id ((h₁.locks _).2 h)).trans (h₁.inboxRow id h)
  charge id h := (h₂.charge id ((h₁.locks _).2 h)).trans (h₁.charge id h)

/-! ## Steps that change no table -/

/-- A step of process `i` that changes no table and commits nothing. -/
structure Quiet (i : Nat) (s s' : World) : Prop where
  db : s'.db = s.db
  log : ∃ l, s'.log = l ++ s.log ∧ ∀ e ∈ l, e.process = i ∧ ∀ j ws, e ≠ .committed j ws
  staged : ∀ j, j ≠ i → s'.staged j = s.staged j
  locks : ∀ j, j ≠ i → ∀ l, s'.locks.Holds j l ↔ s.locks.Holds j l
  issued : ∀ u o, s.issued.find? u = some o → s'.issued.find? u = some o

theorem World.Frame.quiet {s₁ : World} (h : Frame i s s₁) {l : List Entry}
    (hl : ∀ e ∈ l, e.process = i ∧ ∀ j ws, e ≠ .committed j ws) :
    Quiet i s { s₁ with log := l ++ s₁.log } :=
  ⟨h.db, ⟨l, by rw [h.log], hl⟩, h.staged, h.locks, h.issued⟩

theorem World.Frame.silent (h : Frame i s s') : Quiet i s s' :=
  ⟨h.db, ⟨[], h.log, by simp⟩, h.staged, h.locks, h.issued⟩

theorem exec_quiet {op : Op} {c : Choice} {r : Except Exc (Res op)} (hop : op ≠ .commit)
    (h : World.exec i op c s = some (r, s')) : Quiet i s s' := by
  obtain ⟨s₁, hf, rfl⟩ := exec_frame hop h
  exact hf.quiet (l := [.did i op r]) (by simp [Entry.process])

theorem start_quiet {k : Kind} {p : App Reply} (h : World.start py i k s = some (s', p)) :
    Quiet i s s' := by
  cases k with
  | dispatch n =>
    obtain ⟨⟨msg, b⟩, -, he⟩ := Option.map_eq_some_iff.1 h
    cases he
    exact (frame_broker (b := b)).quiet
      (l := [.delivered i msg, .started i (.dispatch n)]) (by simp [Entry.process])
  | _ => cases h; exact (Frame.refl i s).quiet (l := [.started i _]) (by simp [Entry.process])

theorem env_quiet {e : Env} (h : World.env e s = some s') (i : Nat) : Quiet i s s' := by
  cases e with
  | tick d =>
    cases h
    exact ⟨rfl, ⟨[], rfl, by simp⟩, fun _ _ => rfl, fun _ _ _ => Iff.rfl, fun _ _ h => h⟩
  | requeue j => cases h; exact frame_broker.silent
  | expire n =>
    obtain ⟨b, -, rfl⟩ := Option.map_eq_some_iff.1 h
    exact frame_broker.silent

namespace Quiet

variable (h : Quiet i s s')
include h

theorem suffix : s.log <:+ s'.log := by
  obtain ⟨l, hl, -⟩ := h.log
  exact ⟨l, hl.symm⟩

theorem evolves : Evolves s s' :=
  ⟨h.suffix, fun p hp => ⟨p, by rw [Stored, h.db]; exact hp, .refl p⟩,
    fun _ _ hc => by rw [h.db]; exact hc, fun _ _ hc => by rw [h.db]; exact hc, h.issued⟩

theorem used {id : UUID} (hu : s'.Used id) : s.Used id := by
  obtain ⟨k, ws, row, hw, hrow⟩ := hu
  obtain ⟨l, hl, hle⟩ := h.log
  rw [Logged, hl, List.mem_append] at hw
  exact hw.elim (fun hw => absurd rfl ((hle _ hw).2 k ws)) fun hw => ⟨k, ws, row, hw, hrow⟩

theorem own (hj : j ≠ i) : s'.own j = s.own j := by
  obtain ⟨l, hl, hle⟩ := h.log
  have hnil : l.filter (fun e => e.process = j) = [] :=
    List.filter_eq_nil_iff.2 fun e he hp =>
      hj (by rw [← (hle e he).1]; exact (of_decide_eq_true hp).symm)
  rw [World.own, hl, List.filter_append, hnil, List.nil_append, World.own]

theorem rely (hj : j ≠ i) : Rely j s s' where
  toEvolves := h.evolves
  own := h.own hj
  staged := h.staged j hj
  locks := h.locks j hj
  unused _ _ := h.used
  payment _ _ := by rw [h.db]
  key _ _ hk := by rw [h.db]; exact hk
  outbox _ _ _ hrow := by rw [h.db]; exact hrow
  inboxRow _ _ := by rw [h.db]
  charge _ _ := by rw [h.db]

theorem tablesInv (hi : Inv s) : TablesInv s' := by
  refine ⟨?_, ?_, fun id row hrow => ?_, fun id hu => ?_⟩
  · rw [h.db]; exact hi.payments
  · rw [h.db]; exact hi.keys
  · rw [h.db] at hrow
    obtain ⟨k, ws, row', hw, hrow'⟩ := hi.outbox id row hrow
    exact ⟨k, ws, row', h.suffix.subset hw, hrow'⟩
  · obtain ⟨j, hj⟩ := hi.used id (h.used hu)
    exact ⟨j, h.issued _ _ hj⟩

end Quiet

/-- New entries that are no starts and no deliveries, of processes that have started. -/
theorem inv_of_log {l : List Entry} (hi : Inv s) (hlog : s'.log = l ++ s.log)
    (hl : ∀ e ∈ l, s.Started e.process ∧ (∀ j k, e ≠ .started j k) ∧ ∀ j m, e ≠ .delivered j m)
    (ht : TablesInv s') : Inv s' := by
  have hold : ∀ {e}, e ∈ s.log → s'.Logged e := fun he => by
    rw [Logged, hlog]; exact List.mem_append_right _ he
  have hstart : ∀ {j k}, s'.Logged (.started j k) → s.Logged (.started j k) := fun {j k} h => by
    rw [Logged, hlog, List.mem_append] at h
    exact h.elim (fun h => absurd rfl ((hl _ h).2.1 j k)) id
  have hdel : ∀ {j m}, s'.Logged (.delivered j m) → s.Logged (.delivered j m) := fun {j m} h => by
    rw [Logged, hlog, List.mem_append] at h
    exact h.elim (fun h => absurd rfl ((hl _ h).2.2 j m)) id
  refine ⟨ht, fun j k k' h h' => hi.started j k k' (hstart h) (hstart h'),
    fun j m h => ?_, fun j m m' h h' => hi.message j m m' (hdel h) (hdel h'), fun e he => ?_⟩
  · obtain ⟨n, hn⟩ := hi.delivered j m (hdel h)
    exact ⟨n, hold hn⟩
  · rw [Logged, hlog, List.mem_append] at he
    obtain ⟨k, hk⟩ := he.elim (fun he => (hl e he).1) fun he => hi.active e he
    exact ⟨k, hold hk⟩

theorem exec_quiet_inv {op : Op} {c : Choice} {r : Except Exc (Res op)} (hop : op ≠ .commit)
    (hi : Inv s) (hst : s.Started i) (h : World.exec i op c s = some (r, s')) : Inv s' := by
  obtain ⟨s₁, hf, rfl⟩ := exec_frame hop h
  refine inv_of_log (l := [.did i op r]) hi (by rw [note, hf.log]; rfl) ?_
    ((exec_quiet hop h).tablesInv hi)
  intro e he
  rw [List.mem_singleton] at he
  subst he
  exact ⟨hst, by simp, by simp⟩

theorem start_inv {k : Kind} {p : App Reply} (hi : Inv s) (hidle : s.own i = [])
    (h : World.start py i k s = some (s', p)) : Inv s' := by
  have ht := (start_quiet h).tablesInv hi
  -- nothing about process `i` is in the log yet
  have hnew : ∀ e, s.Logged e → e.process ≠ i := fun e => not_logged_of_own hidle
  have hlog : ∃ l, s'.log = l ++ s.log ∧ Entry.started i k ∈ l ∧
      (∀ e ∈ l, e = .started i k ∨ ∃ n msg, k = .dispatch n ∧ e = .delivered i msg ∧
        ∀ msg', Entry.delivered i msg' ∈ l → msg' = msg) := by
    cases k with
    | dispatch n =>
      obtain ⟨⟨msg, b⟩, -, he⟩ := Option.map_eq_some_iff.1 h
      cases he
      refine ⟨[.delivered i msg, .started i (.dispatch n)], rfl, by simp, ?_⟩
      intro e he
      simp only [List.mem_cons, List.not_mem_nil, or_false] at he
      refine he.symm.imp id fun he => ⟨n, msg, rfl, he, ?_⟩
      simp
    | _ => cases h; exact ⟨[.started i _], rfl, by simp, by simp⟩
  obtain ⟨l, hlog, hmem, hl⟩ := hlog
  have hold : ∀ {e}, s.Logged e → s'.Logged e := fun he => by
    rw [Logged, hlog]; exact List.mem_append_right _ he
  have hself : s'.Logged (.started i k) := by rw [Logged, hlog]; exact List.mem_append_left _ hmem
  have hcases : ∀ {e}, s'.Logged e → (e ∈ l ∨ s.Logged e) := fun {e} he => by
    rw [Logged, hlog, List.mem_append] at he
    exact he
  refine ⟨ht, fun j a b ha hb => ?_, fun j m hm => ?_, fun j m m' hm hm' => ?_,
    fun e he => ?_⟩
  · have key : ∀ c, s'.Logged (.started j c) → (j = i ∧ c = k) ∨
        (j ≠ i ∧ s.Logged (.started j c)) := fun c hc => by
      rcases hcases hc with hc | hc
      · rcases hl _ hc with e | ⟨n, msg, -, e, -⟩
        · cases e; exact .inl ⟨rfl, rfl⟩
        · cases e
      · exact .inr ⟨hnew _ hc, hc⟩
    rcases key a ha with ⟨rfl, rfl⟩ | ⟨hne, ha⟩
    · exact (key b hb).elim (fun hb => hb.2.symm) fun hb => absurd rfl hb.1
    · rcases key b hb with ⟨rfl, -⟩ | ⟨-, hb⟩
      · exact absurd rfl hne
      · exact hi.started j a b ha hb
  · rcases hcases hm with hm | hm
    · rcases hl _ hm with e | ⟨n, msg, rfl, e, -⟩
      · cases e
      · cases e; exact ⟨n, hself⟩
    · obtain ⟨n, hn⟩ := hi.delivered j m hm
      exact ⟨n, hold hn⟩
  · rcases hcases hm with h₁ | h₁ <;> rcases hcases hm' with h₂ | h₂
    · rcases hl _ h₁ with e | ⟨n, msg, -, e, hu⟩
      · cases e
      · cases e
        exact (hu _ h₂).symm
    · rcases hl _ h₁ with e | ⟨n, msg, -, e, -⟩
      · cases e
      · cases e; exact absurd rfl (hnew _ h₂)
    · rcases hl _ h₂ with e | ⟨n, msg, -, e, -⟩
      · cases e
      · cases e; exact absurd rfl (hnew _ h₁)
    · exact hi.message j m m' h₁ h₂
  · rcases hcases he with he | he
    · rcases hl _ he with rfl | ⟨n, msg, -, rfl, -⟩ <;> exact ⟨k, hself⟩
    · obtain ⟨k', hk'⟩ := hi.active e he
      exact ⟨k', hold hk'⟩

/-! ## Commits -/

/-- What a commit of process `i` does to the payments. -/
structure PaymentsEffect (i : Nat) (s : World) (t : Table PaymentModel.id) : Prop where
  row : ∀ id, t.find? id = s.db.payments.find? id ∨ s.locks.Holds i (.payment id)
  key : ∀ row ∈ t.rows, s.locks.Holds i (.idempotencyKey row.idempotencyKey) ∨
    ∃ row' ∈ s.db.payments.rows, row'.idempotencyKey = row.idempotencyKey
  stored : ∀ p, s.Stored p → ∃ p', t.find? p'.id = some (PaymentMapper.toModel p') ∧ p.Extends p'
  rows : ∀ id row, t.find? id = some row → ∃ p : Payment, row = PaymentMapper.toModel p ∧
    (p.status = .pending ↔ p.processedAt = none)
  keys : ∀ row ∈ t.rows, ∀ row' ∈ t.rows, row.idempotencyKey = row'.idempotencyKey → row = row'

theorem PaymentsEffect.same (hi : Inv s) : PaymentsEffect i s s.db.payments where
  row _ := .inl rfl
  key row hrow := .inr ⟨row, hrow, rfl⟩
  stored p hp := ⟨p, hp, .refl p⟩
  rows := hi.payments
  keys := hi.keys

theorem PaymentsEffect.insert (hi : Inv s) {p : Payment} (pending : p.status = .pending)
    (unprocessed : p.processedAt = none) (locked : s.locks.Holds i (.payment p.id))
    (keyLocked : s.locks.Holds i (.idempotencyKey p.idempotencyKey.value))
    (fresh : s.db.payments.find? p.id = none)
    (freshKey : ∀ row ∈ s.db.payments.rows, row.idempotencyKey ≠ p.idempotencyKey.value) :
    PaymentsEffect i s (s.db.payments.insert (PaymentMapper.toModel p)) where
  row id := by
    by_cases hid : id = p.id
    · rw [hid]; exact .inr locked
    · rw [Table.find?_insert (r := PaymentMapper.toModel p) fresh]
      exact .inl (if_neg hid)
  key row hrow := by
    rcases Table.mem_insert hrow with rfl | hrow
    · exact .inl keyLocked
    · exact .inr ⟨row, hrow, rfl⟩
  stored q hq := ⟨q, Table.find?_insert_of_some _ hq, .refl q⟩
  rows id row h := by
    rw [Table.find?_insert (r := PaymentMapper.toModel p) fresh] at h
    split at h
    · cases h
      exact ⟨p, rfl, by simp [pending, unprocessed]⟩
    · exact hi.payments id row h
  keys row hrow row' hrow' hk := by
    rcases Table.mem_insert hrow with rfl | hrow <;> rcases Table.mem_insert hrow' with rfl | hrow'
    · rfl
    · exact absurd hk.symm (freshKey _ hrow')
    · exact absurd hk (freshKey _ hrow)
    · exact hi.keys _ hrow _ hrow' hk

theorem PaymentsEffect.replace (hi : Inv s) {p : Payment} (isSuccessful : Bool) (now : Time)
    (pending : p.status = .pending) (stored : s.Stored p)
    (locked : s.locks.Holds i (.payment p.id)) :
    PaymentsEffect i s
      (s.db.payments.replace (PaymentMapper.toModel (p.completed isSuccessful now))) := by
  have hfind : ∀ id, (s.db.payments.replace
      (PaymentMapper.toModel (p.completed isSuccessful now))).find? id =
      if id = p.id then some (PaymentMapper.toModel (p.completed isSuccessful now))
      else s.db.payments.find? id := fun id => by
    rw [Table.find?_replace]
    by_cases hid : id = p.id
    · subst hid
      have h : s.db.payments.find? p.id = some (PaymentMapper.toModel p) := stored
      simp [h, PaymentMapper.toModel, Payment.completed]
    · exact (if_neg hid).trans (if_neg hid).symm
  have hmem : ∀ row ∈ (s.db.payments.replace
      (PaymentMapper.toModel (p.completed isSuccessful now))).rows,
      ∃ row₀ ∈ s.db.payments.rows, row₀.id = row.id ∧ row₀.idempotencyKey = row.idempotencyKey := by
    intro row hrow
    have h := Table.find?_key hrow
    rw [hfind] at h
    split at h
    · rename_i hid
      cases h
      exact ⟨_, Table.mem_of_find? stored, rfl, rfl⟩
    · exact ⟨row, Table.mem_of_find? h, rfl, rfl⟩
  refine ⟨fun id => ?_, fun row hrow => ?_, fun q hq => ?_, fun id row h => ?_,
    fun row hrow row' hrow' hk => ?_⟩
  · by_cases hid : id = p.id
    · rw [hid]; exact .inr locked
    · exact .inl ((hfind id).trans (if_neg hid))
  · obtain ⟨row₀, h₀, -, hk⟩ := hmem row hrow
    exact .inr ⟨row₀, h₀, hk⟩
  · by_cases hid : q.id = p.id
    · have hqp : q = p := by
        have h : s.db.payments.find? q.id = some (PaymentMapper.toModel p) := by
          rw [hid]; exact stored
        exact PaymentMapper.toModel_injective (Option.some.inj (hq.symm.trans h))
      subst hqp
      exact ⟨q.completed isSuccessful now, (hfind _).trans (if_pos rfl),
        .completed pending isSuccessful now⟩
    · exact ⟨q, (hfind _).trans ((if_neg hid).trans hq), .refl q⟩
  · rw [hfind] at h
    split at h
    · cases h
      refine ⟨_, rfl, ?_⟩
      cases isSuccessful <;> simp [Payment.completed]
    · exact hi.payments id row h
  · obtain ⟨r, hr, hid, hkr⟩ := hmem row hrow
    obtain ⟨r', hr', hid', hkr'⟩ := hmem row' hrow'
    have he : r = r' := hi.keys r hr r' hr' (hkr.trans (hk.trans hkr'.symm))
    have hids : row.id = row'.id := hid.symm.trans ((congrArg PaymentModel.id he).trans hid')
    have h₁ := Table.find?_key hrow
    have h₂ := Table.find?_key hrow'
    rw [hids] at h₁
    exact Option.some.inj (h₁.symm.trans h₂)

/-- What the commit of a batch does to the tables. -/
structure CommitEffect (i : Nat) (s : World) (ws : List Write) (db : Tables) : Prop where
  payments : PaymentsEffect i s db.payments
  outbox : ∀ id row, s.db.outbox.find? id = some row →
    db.outbox.find? id = some row ∨ s.locks.Holds i (.outbox id)
  inbox : ∀ id, db.inbox.find? id = s.db.inbox.find? id ∨ s.locks.Holds i (.inbox id)
  charge : ∀ id, db.charges.find? id = s.db.charges.find? id ∨ s.locks.Holds i (.charge id)
  inboxKept : ∀ id row, s.db.inbox.find? id = some row → db.inbox.find? id = some row
  chargeKept : ∀ id row, s.db.charges.find? id = some row → db.charges.find? id = some row
  issued : ∀ row, .insertOutbox row ∈ ws → s.IssuedTo i row.id
  used : ∀ id row, db.outbox.find? id = some row →
    (∃ row', s.db.outbox.find? id = some row') ∨ ∃ row', .insertOutbox row' ∈ ws ∧ row'.id = id

/-- A batch of updates of locked outbox rows. -/
theorem CommitEffect.updates (hi : Inv s) {patch : OutboxPatch} (ids : List UUID)
    (locked : ∀ id ∈ ids, s.locks.Holds i (.outbox id)) :
    CommitEffect i s (ids.map fun id => .updateOutbox id patch)
      (s.db.writeAll (ids.map fun id => .updateOutbox id patch)) := by
  obtain ⟨hp, hin, hc⟩ := s.db.writeAll_updates_frame patch ids
  refine ⟨by rw [hp]; exact .same hi, fun id row h => ?_, fun id => ?_, fun id => ?_,
    fun id row h => ?_, fun id row h => ?_, by simp, fun id row h => ?_⟩
  · by_cases hid : id ∈ ids
    · exact .inr (locked id hid)
    · rw [Tables.find?_updates, if_neg hid]; exact .inl h
  · rw [hin]; exact .inl rfl
  · rw [hc]; exact .inl rfl
  · rw [hin]; exact h
  · rw [hc]; exact h
  · rw [Tables.find?_updates] at h
    split at h
    · obtain ⟨row', h', -⟩ := Option.map_eq_some_iff.1 h
      exact .inl ⟨row', h'⟩
    · exact .inl ⟨row, h⟩

theorem CommitEffect.deletes (hi : Inv s) (ids : List UUID)
    (locked : ∀ id ∈ ids, s.locks.Holds i (.outbox id)) :
    CommitEffect i s (ids.map .deleteOutbox) (s.db.writeAll (ids.map .deleteOutbox)) := by
  obtain ⟨hp, hin, hc⟩ := s.db.writeAll_deletes_frame ids
  refine ⟨by rw [hp]; exact .same hi, fun id row h => ?_, fun id => ?_, fun id => ?_,
    fun id row h => ?_, fun id row h => ?_, by simp, fun id row h => ?_⟩
  · by_cases hid : id ∈ ids
    · exact .inr (locked id hid)
    · rw [Tables.find?_deletes, if_neg hid]; exact .inl h
  · rw [hin]; exact .inl rfl
  · rw [hc]; exact .inl rfl
  · rw [hin]; exact h
  · rw [hc]; exact h
  · rw [Tables.find?_deletes] at h
    split at h
    · cases h
    · exact .inl ⟨row, h⟩

/-- **What each batch of the program does to the tables.** -/
theorem CommitLegit.effect {ws : List Write} (hi : Inv s) (h : CommitLegit py i s ws) :
    CommitEffect i s ws (s.db.writeAll ws) := by
  cases h with
  | nothing =>
    exact ⟨.same hi, fun _ _ h => .inl h, fun _ => .inl rfl, fun _ => .inl rfl, fun _ _ h => h,
      fun _ _ h => h, by simp, fun _ row h => .inl ⟨row, h⟩⟩
  | create p id pending unprocessed locked keyLocked fresh freshKey issued unused =>
    refine ⟨.insert hi pending unprocessed locked keyLocked fresh freshKey,
      fun id row h => .inl (Table.find?_insert_of_some _ h), fun _ => .inl rfl, fun _ => .inl rfl,
      fun _ _ h => h, fun _ _ h => h, fun row hrow => ?_, fun id' row h => ?_⟩
    · simp only [List.mem_cons, reduceCtorEq, Write.insertOutbox.injEq, List.not_mem_nil, or_false,
        false_or] at hrow
      subst hrow
      exact issued
    · have hmem := Table.mem_insert (Table.mem_of_find? h)
      have hkey := Table.key_of_find? h
      rcases hmem with rfl | hmem
      · exact .inr ⟨_, by simp, hkey⟩
      · refine .inl ⟨row, ?_⟩
        have := Table.find?_key hmem
        rwa [hkey] at this
  | complete p isSuccessful now pending stored charged locked =>
    exact ⟨.replace hi isSuccessful now pending stored locked, fun _ _ h => .inl h,
      fun _ => .inl rfl, fun _ => .inl rfl, fun _ _ h => h, fun _ _ h => h, by simp,
      fun _ row h => .inl ⟨row, h⟩⟩
  | charge row locked fresh =>
    refine ⟨.same hi, fun _ _ h => .inl h, fun _ => .inl rfl, fun id => ?_, fun _ _ h => h,
      fun _ _ h => Table.find?_insert_of_some _ h, by simp, fun _ row h => .inl ⟨row, h⟩⟩
    by_cases hid : id = row.paymentId
    · rw [hid]; exact .inr locked
    · exact .inl ((Table.find?_insert fresh id).trans (if_neg hid))
  | remember row paymentId locked fresh executes posted =>
    refine ⟨.same hi, fun _ _ h => .inl h, fun id => ?_, fun _ => .inl rfl,
      fun _ _ h => Table.find?_insert_of_some _ h, fun _ _ h => h, by simp,
      fun _ row h => .inl ⟨row, h⟩⟩
    by_cases hid : id = row.messageId
    · rw [hid]; exact .inr locked
    · exact .inl ((Table.find?_insert fresh id).trans (if_neg hid))
  | claim worker rows now relays read selected locked current due =>
    refine .updates hi _ ?_
    intro id hid
    obtain ⟨row, hrow, rfl⟩ := List.mem_map.1 hid
    exact locked row hrow
  | mark row claimedAt publishedAt claimed published first locked =>
    exact .updates hi [row.id] (by simpa using locked)
  | release worker row claimedAt patch relays claimed failed first locked legit =>
    exact .updates hi [row.id] (by simpa using locked)
  | purge rows locked current processed =>
    refine .deletes hi _ ?_
    intro id hid
    obtain ⟨row, hrow, rfl⟩ := List.mem_map.1 hid
    exact locked row hrow

/-! ## Soundness -/

section Commit

variable {ws : List Write} (h : CommitEffect i s ws (s.db.writeAll ws)) (hs : s.staged i = ws)
include h hs

theorem commit_evolves (r : Except Exc (Res .commit)) :
    Evolves s ((s.commit i).note (.did i .commit r)) := by
  subst hs
  refine ⟨⟨[.did i .commit r, .committed i (s.staged i)], rfl⟩, fun p hp => ?_, h.chargeKept,
    h.inboxKept, fun _ _ hu => hu⟩
  obtain ⟨p', hp', hext⟩ := h.payments.stored p hp
  exact ⟨p', hp', hext⟩

theorem commit_used {r : Except Exc (Res .commit)} {id : UUID}
    (hu : ((s.commit i).note (.did i .commit r)).Used id) : s.Used id ∨ s.IssuedTo i id := by
  subst hs
  obtain ⟨k, ws, row, hw, hrow, rfl⟩ := hu
  simp only [Logged, note, commit, endTx, List.mem_cons, reduceCtorEq, Entry.committed.injEq,
    false_or] at hw
  rcases hw with ⟨-, rfl⟩ | hw
  · exact .inr (h.issued row hrow)
  · exact .inl ⟨k, ws, row, hw, hrow, rfl⟩

theorem commit_rely (hj : j ≠ i) (r : Except Exc (Res .commit)) :
    Rely j s ((s.commit i).note (.did i .commit r)) := by
  have hexcl : ∀ {l}, s.locks.Holds j l → ¬ s.locks.Holds i l := fun h₁ h₂ => hj (h₁.unique h₂)
  have hne : ¬ i = j := fun e => hj e.symm
  have hev := commit_evolves h hs r
  have hused : ∀ id, s.IssuedTo j id → ((s.commit i).note (.did i .commit r)).Used id →
      s.Used id := fun id hid hu => by
    refine (commit_used h hs hu).resolve_right ?_
    intro hid'
    have := hid.symm.trans hid'
    simp [hj] at this
  subst hs
  refine ⟨hev, ?_, Function.update_of_ne hj _ _, fun l => ?_, hused, fun id hl => ?_,
    fun key hl hk row hrow he => ?_, fun id row hl hrow => ?_, fun id hl => ?_, fun id hl => ?_⟩
  · simp [own, note, commit, endTx, Entry.process, hne]
  · simp [note, commit, endTx, hj]
  · exact (h.payments.row id).resolve_right (hexcl hl)
  · rcases h.payments.key row hrow with hi | ⟨row', hrow', hk'⟩
    · exact hexcl hl (by rw [← he]; exact hi)
    · exact hk row' hrow' (hk'.trans he)
  · exact (h.outbox id row hrow).resolve_right (hexcl hl)
  · exact (h.inbox id).resolve_right (hexcl hl)
  · exact (h.charge id).resolve_right (hexcl hl)

theorem commit_inv (hi : Inv s) (hst : s.Started i) (r : Except Exc (Res .commit)) :
    Inv ((s.commit i).note (.did i .commit r)) := by
  subst hs
  refine inv_of_log (l := [.did i .commit r, .committed i (s.staged i)]) hi rfl ?_
    ⟨h.payments.rows, h.payments.keys, fun id row hrow => ?_, fun id hu => ?_⟩
  · intro e he
    simp only [List.mem_cons, List.not_mem_nil, or_false] at he
    rcases he with rfl | rfl <;> exact ⟨hst, by simp, by simp⟩
  · rcases h.used id row hrow with ⟨row', h'⟩ | ⟨row', h', hid⟩
    · obtain ⟨k, ws, r', hw, hr'⟩ := hi.outbox id row' h'
      exact ⟨k, ws, r', List.mem_cons_of_mem _ (List.mem_cons_of_mem _ hw), hr'⟩
    · exact ⟨i, s.staged i, row', List.mem_cons_of_mem _ (List.mem_cons_self ..), h', hid⟩
  · exact (commit_used h rfl hu).elim (hi.used id) fun hid => ⟨i, hid⟩

end Commit

/-- A commit, applied or not, keeps the discipline. -/
theorem exec_commit_spec {c : Choice} {r : Except Exc (Res .commit)} (hi : Inv s)
    (hreq : Req py i .commit s) (h : World.exec i .commit c s = some (r, s')) :
    Inv s' ∧ Evolves s s' ∧ ∀ j, j ≠ i → Rely j s s' := by
  obtain ⟨hst, -, hlegit⟩ := hreq
  have heff := CommitLegit.effect hi hlegit
  rcases exec_commit h with rfl | ⟨-, rfl⟩
  · exact ⟨commit_inv heff rfl hi hst r, commit_evolves heff rfl r,
      fun j hj => commit_rely heff rfl hj r⟩
  · have hq : Quiet i s (s.note (.did i .commit r)) :=
      (Frame.refl i s).quiet (l := [.did i .commit r]) (by simp [Entry.process])
    refine ⟨inv_of_log (l := [.did i .commit r]) hi rfl ?_ (hq.tablesInv hi), hq.evolves,
      fun j hj => hq.rely hj⟩
    intro e he
    rw [List.mem_singleton] at he
    subst he
    exact ⟨hst, by simp, by simp⟩

/-- Every operation keeps the discipline. -/
theorem exec_spec {op : Op} {c : Choice} {r : Except Exc (Res op)} (hi : Inv s)
    (hreq : Req py i op s) (h : World.exec i op c s = some (r, s')) :
    Inv s' ∧ Evolves s s' ∧ ∀ j, j ≠ i → Rely j s s' := by
  by_cases hop : op = .commit
  · subst hop
    exact exec_commit_spec hi hreq h
  · have hq := exec_quiet hop h
    exact ⟨exec_quiet_inv hop hi hreq.1 h, hq.evolves, fun j hj => hq.rely hj⟩

theorem Quiet.inv_of_log_eq (h : Quiet i s s') (hl : s'.log = s.log) (hi : Inv s) : Inv s' :=
  inv_of_log (l := []) hi hl (by simp) (h.tablesInv hi)

/-- **The program's discipline is sound.** -/
theorem sound (py : Platform) : (discipline py).Sound where
  evolves_refl := Evolves.refl
  evolves_trans _ _ _ := Evolves.trans
  rely_refl := Rely.refl
  rely_trans _ _ _ _ := Rely.trans
  rely_evolves _ _ _ h := h.toEvolves
  idle_rely i s s' h hr := ⟨hr.own.trans h.1, hr.staged.trans h.2⟩
  exec_inv _ _ _ _ _ hi hreq hd := by
    obtain ⟨c, h⟩ := hd
    exact (exec_spec hi hreq h).1
  exec_evolves _ _ _ _ _ hi hreq hd := by
    obtain ⟨c, h⟩ := hd
    exact (exec_spec hi hreq h).2.1
  exec_rely _ j _ _ _ _ hi hreq hd hj := by
    obtain ⟨c, h⟩ := hd
    exact (exec_spec hi hreq h).2.2 j hj
  start_inv _ _ _ _ _ hi hidle h := start_inv hi hidle.1 h
  start_rely _ _ _ _ _ _ _ _ h hj := (start_quiet h).rely hj
  halt_inv i _ hi := (frame_endTx (i := i)).silent.inv_of_log_eq rfl hi
  halt_rely _ _ _ _ hj := frame_endTx.silent.rely hj
  env_inv e s s' hi h := by
    refine (env_quiet h 0).inv_of_log_eq ?_ hi
    cases e with
    | tick d => cases h; rfl
    | requeue j => cases h; rfl
    | expire n =>
      obtain ⟨b, -, rfl⟩ := Option.map_eq_some_iff.1 h
      rfl
  env_rely _ j _ _ _ h := (env_quiet h (j + 1)).rely (by omega)

end PaymentProcessing
