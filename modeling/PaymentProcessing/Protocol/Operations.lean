import PaymentProcessing.Protocol.Soundness

/-!
# Rules for the operations

What process `i` knows after each operation it performs. Facts in the log and facts that only grow
are `Persistent`; facts about the open transaction (what is staged, which rows are locked) are
`Steady`: the others keep them, and so do the operations that only read.
-/

namespace PaymentProcessing

open Python Relational Concurrency World

variable {py : Platform} {i : Nat}

/-- What process `i` promises to do from `P`, and what holds then. -/
abbrev Spec (py : Platform) (i : Nat) {α : Type} (P : World → Prop) (p : App α)
    (Q : Except Exc α → World → Prop) : Prop :=
  (discipline py).Triple i P p Q

/-! ## Persistent facts -/

namespace World

/-- The payment is in the table, as it is or completed. -/
def Known (p : Payment) (s : World) : Prop := ∃ p', s.Stored p' ∧ p.Extends p'

/-- The payment is in the table, completed. -/
def Settled (p : Payment) (s : World) : Prop := s.Stored p ∧ p.isTerminal = true

end World

namespace World

/-- Process `i` has started and may work. -/
def Working (py : Platform) (i : Nat) (s : World) : Prop := s.Started i ∧ s.Cleared py i

end World

section Persistent

instance (e : Entry) : (discipline py).Persistent (Logged e) :=
  ⟨fun _ _ h hl => h.log.subset hl⟩

instance (e e' : Entry) : (discipline py).Persistent (Before e e') :=
  ⟨fun s s' h ⟨l₁, l₂, hl, he⟩ => by
    obtain ⟨l, hl'⟩ := h.log
    exact ⟨l ++ l₁, l₂, by rw [← hl', hl, List.append_assoc], he⟩⟩

instance (op : Op) (r : Except Exc (Res op)) : (discipline py).Persistent (Did i op r) :=
  inferInstanceAs ((discipline py).Persistent (Logged _))

instance : (discipline py).Persistent (Started i) :=
  inferInstanceAs ((discipline py).Persistent fun s => ∃ k, s.Logged (.started i k))

instance (worker : PublishOutbox) : (discipline py).Persistent (Relays i worker) :=
  inferInstanceAs ((discipline py).Persistent (Logged _))

instance (paymentId : UUID) (messageId : Option UUID) :
    (discipline py).Persistent (Executes py i paymentId messageId) :=
  inferInstanceAs ((discipline py).Persistent fun s => _ ∨ ∃ _, s.Logged _ ∧ _ ∧ _)

instance : (discipline py).Persistent (Cleared py i) :=
  inferInstanceAs ((discipline py).Persistent fun s => (∃ k, s.Logged (.started i k) ∧ _) ∨
    ∃ paymentId messageId, s.Executes py i paymentId messageId ∧
      ∀ m, messageId = some m → s.Did i (.getInbox m) (.ok none))

instance (paymentId : UUID) : (discipline py).Persistent (Posted i paymentId) :=
  inferInstanceAs ((discipline py).Persistent fun s => ∃ url payload status,
    s.Did i (.post url payload paymentId.str) (.ok status) ∧ _)

instance : (discipline py).Persistent (Forwarded i) :=
  inferInstanceAs ((discipline py).Persistent fun s => ∃ msg key headers expiration,
    s.Logged (.delivered i msg) ∧ key ≠ .new ∧
      s.Did i (.publish key msg.body headers expiration) (.ok ()))

instance (id : UUID) : (discipline py).Persistent (Seen id) :=
  ⟨fun _ _ h ⟨row, hr⟩ => ⟨row, h.inbox id row hr⟩⟩

instance : (discipline py).Persistent (Handled py i) :=
  inferInstanceAs ((discipline py).Persistent fun s => ∃ paymentId messageId,
    s.Executes py i paymentId messageId ∧ (s.Posted i paymentId ∨
      ∃ m, messageId = some m ∧ s.Seen m))

instance (rows : List OutboxModel) (now : Time) :
    (discipline py).Persistent (Selected i rows now) :=
  inferInstanceAs ((discipline py).Persistent fun s => ∃ limit staleBefore,
    s.Did i (.selectClaimable limit now staleBefore) (.ok rows))

instance (row : OutboxModel) (now : Time) : (discipline py).Persistent (Claimed i row now) :=
  inferInstanceAs ((discipline py).Persistent fun s => ∃ rows, s.Selected i rows now ∧ row ∈ rows ∧
    s.Logged (.committed i (claimWrites rows now)))

instance (row : OutboxModel) (now : Time) : (discipline py).Persistent (Published py i row now) :=
  inferInstanceAs ((discipline py).Persistent fun s => ∃ body headers, _ ∧
    s.Did i (.publish .new body headers none) (.ok ()))

/-- What happened stays in a longer log. -/
theorem World.DeliveryFailed.mono {row : OutboxModel} {s s' : World} (hlog : s.log <:+ s'.log)
    (h : s.DeliveryFailed py i row) : s'.DeliveryFailed py i row := by
  obtain ⟨claimedAt, e, run, before, ⟨rows, ⟨limit, stale, hsel⟩, hrow, hcom⟩, hin, hfailed, he,
    hh⟩ := h
  exact ⟨claimedAt, e, run, before,
    ⟨rows, ⟨limit, stale, hlog.subset hsel⟩, hrow, hlog.subset hcom⟩, hin, hfailed, he,
    hh.trans (history_suffix hlog i)⟩

instance (row : OutboxModel) : (discipline py).Persistent (DeliveryFailed py i row) :=
  ⟨fun _ _ h hf => hf.mono h.log⟩

instance (worker : PublishOutbox) (row : OutboxModel) (claimedAt : Time) (patch : OutboxPatch) :
    (discipline py).Persistent (Decided i worker row claimedAt patch) :=
  inferInstanceAs ((discipline py).Persistent fun s => ∃ (now : Time) (_ : OutboxStatus)
    (_ : Option Time), s.Did i .now (.ok now) ∧ _ ∧ _)

instance (id : UUID) (isSuccessful : Bool) :
    (discipline py).Persistent (World.Charged id isSuccessful) :=
  ⟨fun _ _ h ⟨row, hr, hs⟩ => ⟨row, h.charges id row hr, hs⟩⟩

instance (u : UUID) : (discipline py).Persistent (IssuedTo i u) := ⟨fun _ _ h hu => h.issued u _ hu⟩

instance (p : Payment) : (discipline py).Persistent (Known p) :=
  ⟨fun _ _ h ⟨q, hq, hpq⟩ => by
    obtain ⟨r, hr, hqr⟩ := h.payments q hq
    exact ⟨r, hr, hpq.trans hqr⟩⟩

instance (p : Payment) : (discipline py).Persistent (Settled p) :=
  ⟨fun s s' h ⟨hp, ht⟩ => by
    obtain ⟨r, hr, hpr⟩ := h.payments p hp
    obtain rfl := hpr.terminal ht
    exact ⟨hr, ht⟩⟩

instance : (discipline py).Persistent (Working py i) :=
  inferInstanceAs ((discipline py).Persistent fun s => s.Started i ∧ s.Cleared py i)

end Persistent

/-! ## Steady facts -/

/-- Nothing changed for process `i` but the log and what others may see. -/
structure Same (i : Nat) (s s' : World) : Prop where
  db : s'.db = s.db
  staged : s'.staged i = s.staged i
  locks : s'.locks = s.locks
  log : s.log <:+ s'.log
  issued : ∀ u o, s.issued.find? u = some o → s'.issued.find? u = some o
  committed : ∀ ws, s'.Logged (.committed i ws) → s.Logged (.committed i ws)

theorem Same.evolves {s s' : World} (h : Same i s s') : Evolves s s' :=
  ⟨h.log, fun p hp => ⟨p, by rw [Stored, h.db]; exact hp, .refl p⟩,
    fun _ _ hc => by rw [h.db]; exact hc, fun _ _ hc => by rw [h.db]; exact hc, h.issued⟩

/-- A fact about the open transaction of process `i`. -/
class Steady (py : Platform) (i : Nat) (P : World → Prop) : Prop
    extends (discipline py).Stable i P where
  same : ∀ s s', Same i s s' → P s → P s'

section Steady

variable {P P' : World → Prop}

instance (priority := low) [h : (discipline py).Persistent P] : Steady py i P where
  toStable := (sound py).stable_of_persistent
  same s s' hs hP := h.persistent s s' hs.evolves hP

instance [h₁ : Steady py i P] [h₂ : Steady py i P'] : Steady py i fun s => P s ∧ P' s where
  toStable := inferInstance
  same s s' hs hP := ⟨h₁.same s s' hs hP.1, h₂.same s s' hs hP.2⟩

instance {ι : Type} {R : ι → World → Prop} [h : ∀ x, Steady py i (R x)] :
    Steady py i fun s => ∀ x, R x s where
  stable s s' hi hi' hr hR x := (h x).stable s s' hi hi' hr (hR x)
  same s s' hs hR x := (h x).same s s' hs (hR x)

instance (ws : List Write) : Steady py i fun s => s.staged i = ws where
  stable _ _ _ _ hr h := hr.staged.trans h
  same _ _ hs h := hs.staged.trans h

instance (l : Lock) : Steady py i fun s => s.locks.Holds i l where
  stable _ _ _ _ hr h := (hr.locks l).2 h
  same _ _ hs h := by rw [hs.locks]; exact h

/-- The row of the payment is `row`, and locked. -/
def PaymentLocked (i : Nat) (id : UUID) (row : PaymentModel) (s : World) : Prop :=
  s.locks.Holds i (.payment id) ∧ s.db.payments.find? id = some row

instance (id : UUID) (row : PaymentModel) : Steady py i (PaymentLocked i id row) where
  stable _ _ _ _ hr h := ⟨(hr.locks _).2 h.1, (hr.payment id h.1).trans h.2⟩
  same _ _ hs h := by rw [PaymentLocked, hs.locks, hs.db]; exact h

/-- The payment's id and key are free for process `i` to insert. -/
structure Insertable (i : Nat) (p : Payment) (s : World) : Prop where
  locked : s.locks.Holds i (.payment p.id)
  keyLocked : s.locks.Holds i (.idempotencyKey p.idempotencyKey.value)
  fresh : s.db.payments.find? p.id = none
  freshKey : ∀ row ∈ s.db.payments.rows, row.idempotencyKey ≠ p.idempotencyKey.value

instance (p : Payment) : Steady py i (Insertable i p) where
  stable _ _ _ _ hr h := ⟨(hr.locks _).2 h.locked, (hr.locks _).2 h.keyLocked,
    (hr.payment _ h.locked).trans h.fresh, hr.key _ h.keyLocked h.freshKey⟩
  same _ _ hs h := ⟨by rw [hs.locks]; exact h.locked, by rw [hs.locks]; exact h.keyLocked,
    by rw [hs.db]; exact h.fresh, by rw [hs.db]; exact h.freshKey⟩

/-- The id is for an outbox row of process `i`, not used yet. -/
def UnusedId (i : Nat) (id : UUID) (s : World) : Prop := s.IssuedTo i id ∧ ¬ s.Used id

instance (id : UUID) : (discipline py).Stable i (UnusedId i id) where
  stable _ _ _ _ hr h := ⟨hr.issued _ _ h.1, fun hu => h.2 (hr.unused id h.1 hu)⟩

/-- The rows are as they were selected, and locked. -/
def RowsLocked (i : Nat) (rows : List OutboxModel) (s : World) : Prop :=
  ∀ row ∈ rows, s.locks.Holds i (.outbox row.id) ∧ s.db.outbox.find? row.id = some row

instance (rows : List OutboxModel) : Steady py i (RowsLocked i rows) where
  stable _ _ _ _ hr h row hrow :=
    ⟨(hr.locks _).2 (h row hrow).1, hr.outbox _ _ (h row hrow).1 (h row hrow).2⟩
  same _ _ hs h := by rw [RowsLocked, hs.locks, hs.db]; exact h

/-- The charge of the payment is for process `i` to insert. -/
def Chargeable (i : Nat) (paymentId : UUID) (s : World) : Prop :=
  s.locks.Holds i (.charge paymentId) ∧ s.db.charges.find? paymentId = none

instance (id : UUID) : Steady py i (Chargeable i id) where
  stable _ _ _ _ hr h := ⟨(hr.locks _).2 h.1, (hr.charge id h.1).trans h.2⟩
  same _ _ hs h := by rw [Chargeable, hs.locks, hs.db]; exact h

/-- The message id is for process `i` to insert. -/
def Rememberable (i : Nat) (messageId : UUID) (s : World) : Prop :=
  s.locks.Holds i (.inbox messageId) ∧ s.db.inbox.find? messageId = none

instance (id : UUID) : Steady py i (Rememberable i id) where
  stable _ _ _ _ hr h := ⟨(hr.locks _).2 h.1, (hr.inboxRow id h.1).trans h.2⟩
  same _ _ hs h := by rw [Rememberable, hs.locks, hs.db]; exact h

end Steady

/-! ## Operations that only read -/

/-- Operations that change neither the tables nor the transaction. -/
def Op.isRead : Op → Bool
  | .getPayment _ | .selectPaymentByKey _ | .countOutbox _ | .getInbox _ | .getCharge _ | .now
  | .uuid4 | .random | .sleep | .log .. | .publish .. | .ack | .reject | .post .. => true
  | _ => false

theorem exec_read {op : Op} {c : Choice} {r : Except Exc (Res op)} {s s' : World}
    (hop : op.isRead = true) (h : World.exec i op c s = some (r, s')) :
    Same i s s' ∧ s'.Did i op r ∧
      ∀ a, r = .ok a → ∃ s₁, s.effect i c op = some (.ok a, s₁) := by
  have hold : ∀ {s₁ : World}, s₁.log = s.log → ∀ ws,
      (s₁.note (.did i op r)).Logged (.committed i ws) → s.Logged (.committed i ws) :=
    fun hl ws hw => by
      rw [Logged, ← hl]
      exact (List.mem_cons.1 hw).resolve_left (by simp)
  have heff : ∀ {r₁ s₁}, s.effect i c op = some (r₁, s₁) → Same i s (s₁.note (.did i op r)) := by
    intro r₁ s₁ he
    cases op with
    | getPayment | selectPaymentByKey | countOutbox | getInbox | getCharge | now | random | sleep
    | log | publish | ack | reject | post =>
      cases he
      exact ⟨rfl, rfl, rfl, List.suffix_cons .., fun _ _ h => h, hold rfl⟩
    | uuid4 =>
      have hf := effect_frame (by simp) he
      simp only [effect] at he
      split at he
      · cases he
        exact ⟨rfl, rfl, rfl, List.suffix_cons .., hf.issued, hold rfl⟩
      · cases he
    | _ => cases hop
  have hfail : Same i s ((s.fail i op).note (.did i op r)) := by
    cases op with
    | getPayment | selectPaymentByKey | countOutbox | getInbox | getCharge | now | uuid4 | random
    | sleep | log | publish | ack | reject | post =>
      exact ⟨rfl, rfl, rfl, List.suffix_cons .., fun _ _ h => h, hold rfl⟩
    | _ => cases hop
  rcases World.exec_cases h with ⟨s₁, he, rfl⟩ | ⟨f, r₁, s₁, he, hr, -, rfl⟩ | ⟨f, hr, -, rfl⟩
  · exact ⟨heff he, List.mem_cons_self .., fun a ha => ⟨s₁, by rw [he, ha]⟩⟩
  · exact ⟨heff he, List.mem_cons_self .., fun a ha => by rw [hr] at ha; cases ha⟩
  · exact ⟨hfail, List.mem_cons_self .., fun a ha => by rw [hr] at ha; cases ha⟩

/-- **Reading.** The transaction stays as it is, the operation is in the log, and what it answered
is what the effect says. -/
theorem call_read {op : Op} {P : World → Prop} {A : Res op → World → Prop} [hP : Steady py i P]
    [hA : ∀ a, (discipline py).Persistent (A a)] (hop : op.isRead = true)
    (hreq : ∀ s, Inv s → P s → Req py i op s)
    (hans : ∀ a c s s₁, Inv s → P s → s.effect i c op = some (.ok a, s₁) → A a s) :
    Spec py i P (call op) fun r s => P s ∧ s.Did i op r ∧ (∀ a, r = .ok a → A a s) ∧
      ∀ e, r = .error e → ∃ f, e = Fault.toExc f := by
  refine Discipline.Triple.perform (Q := fun r s => P s ∧ s.Did i op r ∧
    (∀ a, r = .ok a → A a s) ∧ ∀ e, r = .error e → ∃ f, e = Fault.toExc f) (sound py) hreq ?_
  · rintro r s s' hi hPs ⟨c, hd⟩ -
    obtain ⟨hsame, hdid, heff⟩ := exec_read hop hd
    refine ⟨hP.same s s' hsame hPs, hdid, fun a ha => ?_, fun e he => ?_⟩
    · obtain ⟨s₁, he⟩ := heff a ha
      exact (hA a).persistent s s' hsame.evolves (hans a c s s₁ hi hPs he)
    · subst he
      exact exec_error (by rintro row rfl; cases hop) hd

/-! ## Operations that lock and stage -/

section Stage

variable {c : Choice} {s s' : World}

theorem lockAndStage_own {ls : List Lock} {ws : List Write} {e : Entry}
    (h : s.lockAndStage i ls ws = some s') :
    (s'.note e).staged i = s.staged i ++ ws ∧ (s'.note e).db = s.db ∧
      ∀ l ∈ ls, (s'.note e).locks.Holds i l := by
  obtain ⟨-, hst, hl, hf, -, -⟩ := lockAndStage_spec h
  refine ⟨?_, hf.db, fun l hls => (hl i l).2 (.inr ⟨rfl, hls⟩)⟩
  rw [note, hst]
  exact Function.update_self ..

/-- A locking operation that answered did what its effect says. -/
theorem exec_ok {op : Op} {a : Res op} (h : World.exec i op c s = some (.ok a, s')) :
    ∃ s₁, s.effect i c op = some (.ok a, s₁) ∧ s' = s₁.note (.did i op (.ok a)) := by
  rcases World.exec_cases h with h | ⟨f, r₁, s₁, -, hr, -, -⟩ | ⟨f, hr, -, -⟩
  · exact h
  · cases hr
  · cases hr

theorem selectPaymentForUpdate_ok {id : UUID} {row : PaymentModel} (hs : s.staged i = [])
    (h : World.exec i (.selectPaymentForUpdate id) c s = some (.ok (some row), s')) :
    s'.staged i = [] ∧ PaymentLocked i id row s' := by
  obtain ⟨s₁, he, rfl⟩ := exec_ok h
  simp only [effect] at he
  split at he
  · cases he
  · rename_i row' hrow
    obtain ⟨s₂, hl, hr⟩ := Option.map_eq_some_iff.1 he
    cases hr
    obtain ⟨hst, hdb, hlk⟩ := lockAndStage_own hl
    rw [view, hs] at hrow
    exact ⟨by rw [hst, hs]; rfl, hlk _ (List.mem_singleton_self _), by rw [hdb]; exact hrow⟩

theorem insertPayment_ok {p : Payment} (hs : s.staged i = [])
    (h : World.exec i (.insertPayment (PaymentMapper.toModel p)) c s = some (.ok (), s')) :
    s'.staged i = [.insertPayment (PaymentMapper.toModel p)] ∧ Insertable i p s' := by
  obtain ⟨s₁, he, rfl⟩ := exec_ok h
  obtain ⟨s₂, hl, hr⟩ := Option.map_eq_some_iff.1 he
  obtain ⟨hst, hdb, hlk⟩ := lockAndStage_own hl
  rw [view, hs, Tables.writeAll_nil] at hr
  split at hr
  · cases hr
  · rename_i hfresh
    split at hr
    · cases hr
    · rename_i hkey
      cases hr
      refine ⟨by rw [hst, hs]; rfl, hlk (.payment p.id) (List.mem_cons_self ..),
        hlk (.idempotencyKey p.idempotencyKey.value) (by simp [PaymentMapper.toModel]), ?_, ?_⟩
      · rw [hdb]
        simpa [PaymentMapper.toModel] using hfresh
      · rw [hdb]
        exact fun row hrow he => hkey (List.any_eq_true.2 ⟨row, hrow, decide_eq_true he⟩)

/-- The unique constraint is reported only for a key in the table. -/
theorem insertPayment_conflict {row : PaymentModel} {constraint : String} (hs : s.staged i = [])
    (h : World.exec i (.insertPayment row) c s = some (.error (.integrityError constraint), s'))
    (hc : isIdempotencyConflict constraint = true) :
    ∃ row' ∈ s'.db.payments.rows, row'.idempotencyKey = row.idempotencyKey := by
  have hdb : s'.db = s.db := by
    obtain ⟨s₁, hf, rfl⟩ := exec_frame (by simp) h
    exact hf.db
  have hne : ∀ f, Fault.toExc f ≠ .integrityError constraint := by
    intro f
    cases f <;> simp [Fault.toExc]
  rcases World.exec_cases h with ⟨s₁, he, -⟩ | ⟨f, r₁, s₁, -, hr, -, -⟩ | ⟨f, hr, -, -⟩
  · obtain ⟨s₂, -, hr⟩ := Option.map_eq_some_iff.1 he
    rw [view, hs, Tables.writeAll_nil] at hr
    split at hr
    · cases hr
      exact absurd hc (by decide)
    · split at hr
      · rename_i hkey
        rw [hdb]
        simpa using hkey
      · cases hr
  · exact absurd (Except.error.inj hr).symm (hne f)
  · exact absurd (Except.error.inj hr).symm (hne f)

theorem updatePayment_ok {row : PaymentModel} {id : UUID} {old : PaymentModel}
    (hs : s.staged i = []) (hlocked : PaymentLocked i id old s)
    (h : World.exec i (.updatePayment row) c s = some (.ok (), s')) :
    s'.staged i = [.updatePayment row] ∧ PaymentLocked i id old s' := by
  obtain ⟨s₁, he, rfl⟩ := exec_ok h
  obtain ⟨s₂, hl, hr⟩ := Option.map_eq_some_iff.1 he
  cases hr
  obtain ⟨hst, hdb, -⟩ := lockAndStage_own (e := .did i (.updatePayment row) (.ok ())) hl
  obtain ⟨-, -, hl', -⟩ := lockAndStage_spec hl
  exact ⟨by rw [hst, hs]; rfl, (hl' i _).2 (.inl hlocked.1), by rw [hdb]; exact hlocked.2⟩

theorem insertCharge_ok {row : GatewayChargeModel} {a : Option Bool} (hs : s.staged i = [])
    (h : World.exec i (.insertCharge row) c s = some (.ok a, s')) :
    (a = some row.isSuccessful ∧ s'.staged i = [.insertCharge row] ∧
      Chargeable i row.paymentId s') ∨
    (a = none ∧ s'.staged i = [] ∧ ∃ b, s'.Charged row.paymentId b) := by
  obtain ⟨s₁, he, rfl⟩ := exec_ok h
  obtain ⟨s₂, hl, hr⟩ := Option.map_eq_some_iff.1 he
  obtain ⟨hst, hdb, hlk⟩ := lockAndStage_own hl
  rw [view, hs, Tables.writeAll_nil] at hr
  split at hr
  · rename_i hsome
    cases hr
    obtain ⟨row', hrow'⟩ := Option.isSome_iff_exists.1 hsome
    exact .inr ⟨rfl, hs, row'.isSuccessful, row', hrow', rfl⟩
  · rename_i hnone
    cases hr
    refine .inl ⟨rfl, by rw [hst, hs]; rfl, hlk _ (List.mem_singleton_self _), ?_⟩
    rw [hdb]
    simpa using hnone

theorem insertInbox_ok {row : InboxModel} (hs : s.staged i = [])
    (h : World.exec i (.insertInbox row) c s = some (.ok (), s')) :
    (s'.staged i = [.insertInbox row] ∧ Rememberable i row.messageId s') ∨
      (s'.staged i = [] ∧ s'.Seen row.messageId) := by
  obtain ⟨s₁, he, rfl⟩ := exec_ok h
  obtain ⟨s₂, hl, hr⟩ := Option.map_eq_some_iff.1 he
  obtain ⟨hst, hdb, hlk⟩ := lockAndStage_own hl
  rw [view, hs, Tables.writeAll_nil] at hr
  split at hr
  · rename_i hsome
    cases hr
    obtain ⟨row', hrow'⟩ := Option.isSome_iff_exists.1 hsome
    exact .inr ⟨hs, row', hrow'⟩
  · rename_i hnone
    cases hr
    refine .inl ⟨by rw [hst, hs]; rfl, hlk _ (List.mem_singleton_self _), ?_⟩
    rw [hdb]
    simpa using hnone

theorem selectClaimable_ok {limit : Nat} {now staleBefore : Time} {rows : List OutboxModel}
    (hs : s.staged i = [])
    (h : World.exec i (.selectClaimable limit now staleBefore) c s = some (.ok rows, s')) :
    s'.staged i = [] ∧ RowsLocked i rows s' ∧
      ∀ row ∈ rows, OutboxClaimFilter.build now staleBefore row = true := by
  obtain ⟨s₁, he, rfl⟩ := exec_ok h
  obtain ⟨s₂, hl, hr⟩ := Option.map_eq_some_iff.1 he
  cases hr
  obtain ⟨hst, hdb, hlk⟩ := lockAndStage_own hl
  have hmem : ∀ row ∈ s.claimable i c.skip limit now staleBefore, row ∈ s.db.outbox.rows ∧
      OutboxClaimFilter.build now staleBefore row = true := by
    intro row hrow
    have h₁ := (List.mem_insertionSort _).1 (List.mem_of_mem_take hrow)
    rw [view, hs, Tables.writeAll_nil, List.mem_filter] at h₁
    simp only [Bool.and_eq_true] at h₁
    exact ⟨h₁.1, h₁.2.1.1⟩
  refine ⟨by rw [hst, hs]; rfl, fun row hrow => ⟨hlk _ (List.mem_map_of_mem hrow), ?_⟩,
    fun row hrow => (hmem row hrow).2⟩
  rw [hdb]
  exact Table.find?_key (hmem row hrow).1

theorem selectClaimable_nodup {limit : Nat} {now staleBefore : Time} {rows : List OutboxModel}
    (hs : s.staged i = [])
    (h : World.exec i (.selectClaimable limit now staleBefore) c s = some (.ok rows, s')) :
    (rows.map (·.id)).Nodup := by
  obtain ⟨s₁, he, -⟩ := exec_ok h
  obtain ⟨s₂, -, hr⟩ := Option.map_eq_some_iff.1 he
  cases hr
  refine List.Nodup.sublist ((List.take_sublist _ _).map _) ?_
  refine (List.Perm.nodup_iff ((List.perm_insertionSort _ _).map _)).2 ?_
  refine List.Nodup.sublist (List.filter_sublist.map _) ?_
  rw [view, hs, Tables.writeAll_nil]
  exact s.db.outbox.nodup

theorem updateOutbox_ok {ids : List UUID} {patch : OutboxPatch} (hs : s.staged i = [])
    (h : World.exec i (.updateOutbox ids patch) c s = some (.ok (), s')) :
    ∃ ids', ids'.Sublist ids ∧ s'.staged i = (ids'.map fun id => .updateOutbox id patch) ∧
      (∀ id ∈ ids', s'.locks.Holds i (.outbox id)) ∧ s'.db = s.db ∧
      (∀ l, s.locks.Holds i l → s'.locks.Holds i l) ∧
      ((∀ id ∈ ids, (s.db.outbox.find? id).isSome = true) → ids' = ids) := by
  obtain ⟨s₁, he, rfl⟩ := exec_ok h
  obtain ⟨s₂, hl, hr⟩ := Option.map_eq_some_iff.1 he
  cases hr
  obtain ⟨hst, hdb, hlk⟩ := lockAndStage_own hl
  obtain ⟨-, -, hl', -⟩ := lockAndStage_spec hl
  refine ⟨_, List.filter_sublist, by rw [hst, hs]; rfl,
    fun id hid => hlk _ (List.mem_map_of_mem hid), hdb, fun l h => (hl' i l).2 (.inl h),
    fun hall => ?_⟩
  rw [view, hs, Tables.writeAll_nil]
  exact List.filter_eq_self.2 hall

theorem deleteProcessed_ok {cutoff : Time} {limit n : Nat} (hs : s.staged i = [])
    (h : World.exec i (.deleteProcessed cutoff limit) c s = some (.ok n, s')) :
    ∃ rows, s'.staged i = ((rows.map (·.id)).map .deleteOutbox) ∧ RowsLocked i rows s' ∧
      (∀ row ∈ rows, row.status = .processed) ∧
      ∀ row ∈ rows, ∃ t, row.publishedAt = some t ∧ t < cutoff := by
  obtain ⟨s₁, he, rfl⟩ := exec_ok h
  obtain ⟨s₂, hl, hr⟩ := Option.map_eq_some_iff.1 he
  cases hr
  obtain ⟨hst, hdb, hlk⟩ := lockAndStage_own hl
  have hmem : ∀ row ∈ s.purgeable i c.skip limit cutoff, row ∈ s.db.outbox.rows ∧
      row.status = .processed ∧ ∃ t, row.publishedAt = some t ∧ t < cutoff := by
    intro row hrow
    have h₁ := List.mem_of_mem_take hrow
    rw [view, hs, Tables.writeAll_nil, List.mem_filter] at h₁
    simp only [Bool.and_eq_true, decide_eq_true_eq] at h₁
    refine ⟨h₁.1, h₁.2.1.1, ?_⟩
    obtain ⟨-, -, hpublished⟩ := h₁
    split at hpublished
    · cases hpublished
    · rename_i t ht
      exact ⟨t, ht, of_decide_eq_true hpublished⟩
  refine ⟨_, by rw [hst, hs, List.map_map]; rfl, fun row hrow => ⟨hlk _ ?_, ?_⟩,
    fun row hrow => (hmem row hrow).2.1, fun row hrow => (hmem row hrow).2.2⟩
  · exact List.mem_map_of_mem hrow
  · rw [hdb]
    exact Table.find?_key (hmem row hrow).1

/-- A new id is not used by anybody. -/
theorem uuid4_ok {id : UUID} (hs : ∀ id, s.Used id → ∃ j, s.IssuedTo j id)
    (h : World.exec i .uuid4 c s = some (.ok id, s')) : UnusedId i id s' := by
  obtain ⟨s₁, he, rfl⟩ := exec_ok h
  simp only [effect] at he
  split at he
  · rename_i hnew
    cases he
    refine ⟨?_, fun hu => ?_⟩
    · show (s.issued.insert (i, c.uuid)).find? c.uuid = some (i, c.uuid)
      rw [Table.find?_insert (t := s.issued) (r := (i, c.uuid)) hnew, if_pos rfl]
    · obtain ⟨j, ws, row, hw, hrow, hid⟩ := hu
      have hold : s.Used c.uuid := by
        refine ⟨j, ws, row, ?_, hrow, hid⟩
        rcases List.mem_cons.1 hw with hw | hw
        · cases hw
        · exact hw
      obtain ⟨k, hk⟩ := hs _ hold
      rw [IssuedTo, hnew] at hk
      cases hk
  · cases he

end Stage

end PaymentProcessing
