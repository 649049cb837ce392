import PaymentProcessing.Concurrency.Objects
import PaymentProcessing.Protocol.Statements

/-!
# The ledger

What the service is for, without transactions, locks and queues: a ledger of payments on which one
thing happens after another. A payment is accepted once for its key, the gateway decides it once,
it is settled as was decided, and it is looked up and told about as it stands. The log of the system
is read as such events, and the tables as a book, and every action of the system is an event of the
ledger or none: the system refines the ledger.
-/

namespace PaymentProcessing

open Python Relational Concurrency World

variable {py : Platform} {A : Allowed} {i : Nat} {s s' : World} {y y' : Config}
  {a : Action Choice Kind Env} {p : Payment} {ws : List Write}

/-! ## The abstract ledger -/

/-- The payments, and what the gateway has decided about them. -/
@[ext] structure Book where
  payment : UUID → Option Payment
  verdict : UUID → Option Bool

/-- What happens on the ledger; `i` is the process it happens to. -/
inductive LedgerEvent where
  | accept (i : Nat) (p : Payment)
  | decide (paymentId : UUID) (isSuccessful : Bool)
  | settle (p : Payment)
  | look (i : Nat) (id : UUID) (answer : Option Payment)
  | seek (i : Nat) (key : String) (answer : Option Payment)
  | tell (url : String) (payload : WebhookPayload) (idempotencyKey : String)

namespace Book

/-- Nothing is known yet. -/
def empty : Book := ⟨fun _ => none, fun _ => none⟩

/-- When an event may happen. -/
def Enabled (py : Platform) (b : Book) : LedgerEvent → Prop
  | .accept _ p => p.status = .pending ∧ p.processedAt = none ∧ b.payment p.id = none ∧
    ∀ id q, b.payment id = some q → q.idempotencyKey ≠ p.idempotencyKey
  | .decide paymentId _ => b.verdict paymentId = none
  | .settle p => ∃ q isSuccessful now, b.payment p.id = some q ∧ q.status = .pending ∧
    b.verdict p.id = some isSuccessful ∧ p = q.completed isSuccessful now
  | .look _ id answer => answer = b.payment id
  | .seek _ key answer =>
    (∀ p, answer = some p → b.payment p.id = some p ∧ p.idempotencyKey.value = key) ∧
    (answer = none → ∀ id q, b.payment id = some q → q.idempotencyKey.value ≠ key)
  | .tell url payload key => ∃ p, b.payment p.id = some p ∧ p.isTerminal = true ∧
    url = p.webhookUrl ∧ payload.Tells py (PaymentMapper.toModel p) ∧ key = p.id.str

/-- What an event does. -/
def apply (b : Book) : LedgerEvent → Book
  | .accept _ p | .settle p => { b with payment := Function.update b.payment p.id (some p) }
  | .decide paymentId isSuccessful =>
    { b with verdict := Function.update b.verdict paymentId (some isSuccessful) }
  | .look .. | .seek .. | .tell .. => b

theorem accept_payment (b : Book) (i : Nat) (p : Payment) (id : UUID) :
    (b.apply (.accept i p)).payment id = if id = p.id then some p else b.payment id :=
  Function.update_apply ..

theorem settle_payment (b : Book) (p : Payment) (id : UUID) :
    (b.apply (.settle p)).payment id = if id = p.id then some p else b.payment id :=
  Function.update_apply ..

end Book

/-- The ledger as a sequential object. -/
def ledger (py : Platform) : SeqObject Book LedgerEvent where
  empty := .empty
  Enabled := Book.Enabled py
  apply := Book.apply

namespace Book

/-- The payments of the later book are those of the earlier one, completed or not, and new ones. -/
def Extends (b b' : Book) : Prop :=
  ∀ id p, b.payment id = some p → ∃ q, b'.payment id = some q ∧ p.Extends q

theorem Extends.refl (b : Book) : b.Extends b := fun _ p hp => ⟨p, hp, .refl p⟩

theorem Extends.trans {b₁ b₂ b₃ : Book} (h₁ : b₁.Extends b₂) (h₂ : b₂.Extends b₃) :
    b₁.Extends b₃ := by
  intro id p hp
  obtain ⟨q, hq, hpq⟩ := h₁ id p hp
  obtain ⟨r, hr, hqr⟩ := h₂ id q hq
  exact ⟨r, hr, hpq.trans hqr⟩

theorem apply_extends {b : Book} {e : LedgerEvent} (he : b.Enabled py e) : b.Extends (b.apply e) := by
  cases e with
  | accept i p =>
    intro id q hq
    have hne : id ≠ p.id := by
      rintro rfl
      rw [he.2.2.1] at hq
      cases hq
    exact ⟨q, by rw [accept_payment, if_neg hne]; exact hq, .refl q⟩
  | settle p =>
    obtain ⟨q, isSuccessful, now, hq, hpend, -, rfl⟩ := he
    intro id p hp
    by_cases hid : id = q.id
    · subst hid
      obtain rfl : q = p := Option.some.inj (hq.symm.trans hp)
      refine ⟨_, ?_, .completed hpend isSuccessful now⟩
      rw [settle_payment]
      exact if_pos rfl
    · have hne : id ≠ (q.completed isSuccessful now).id := hid
      exact ⟨p, by rw [settle_payment, if_neg hne]; exact hp, .refl p⟩
  | decide | look | seek | tell => exact .refl b

end Book

/-- **The ledger forgets no payment**, and changes none but by completing it. -/
theorem ledger_extends {es es' : List LedgerEvent} (hl : (ledger py).Legal es')
    (hs : es <:+ es') : ((ledger py).after es).Extends ((ledger py).after es') :=
  hl.evolves hs Book.Extends.refl (fun _ _ _ => Book.Extends.trans) fun _ _ _ he =>
    Book.apply_extends he

/-- What the ledger keeps: a payment is under its id, and its key is its own. -/
structure Book.Sound (b : Book) : Prop where
  filed : ∀ id p, b.payment id = some p → p.id = id
  keyed : ∀ id id' p p', b.payment id = some p → b.payment id' = some p' →
    p.idempotencyKey = p'.idempotencyKey → p = p'

theorem Book.Sound.apply {b : Book} {e : LedgerEvent} (h : b.Sound) (he : b.Enabled py e) :
    (b.apply e).Sound := by
  cases e with
  | accept i p =>
    obtain ⟨-, -, -, hkey⟩ := he
    have hcases : ∀ {id q}, (b.apply (.accept i p)).payment id = some q →
        (id = p.id ∧ q = p) ∨ b.payment id = some q := by
      intro id q hq
      rw [Book.accept_payment] at hq
      split at hq
      · cases hq
        exact .inl ⟨by assumption, rfl⟩
      · exact .inr hq
    refine ⟨fun id q hq => ?_, fun id id' q q' hq hq' hk => ?_⟩
    · rcases hcases hq with ⟨hid, rfl⟩ | hq
      · exact hid.symm
      · exact h.filed id q hq
    · rcases hcases hq with ⟨-, rfl⟩ | hold <;> rcases hcases hq' with ⟨-, rfl⟩ | hold'
      · rfl
      · exact absurd hk.symm (hkey _ _ hold')
      · exact absurd hk (hkey _ _ hold)
      · exact h.keyed id id' q q' hold hold' hk
  | settle p =>
    obtain ⟨q₀, isSuccessful, now, hq₀, -, -, rfl⟩ := he
    -- the payment of an id has the key it had
    have hcases : ∀ {id q}, (b.apply (.settle (q₀.completed isSuccessful now))).payment id = some q →
        ∃ r, b.payment id = some r ∧ r.idempotencyKey = q.idempotencyKey ∧ r.id = q.id ∧
          (id = q₀.id → q = q₀.completed isSuccessful now) ∧ (id ≠ q₀.id → q = r) := by
      intro id q hq
      rw [Book.settle_payment] at hq
      split at hq
      · rename_i hid
        cases hq
        exact ⟨q₀, by rw [hid]; exact hq₀, rfl, rfl, fun _ => rfl, fun hne => absurd hid hne⟩
      · rename_i hid
        exact ⟨q, hq, rfl, rfl, fun he => absurd he hid, fun _ => rfl⟩
    refine ⟨fun id q hq => ?_, fun id id' q q' hq hq' hk => ?_⟩
    · obtain ⟨r, hr, -, hid, -⟩ := hcases hq
      exact hid.symm.trans (h.filed id r hr)
    · obtain ⟨r, hr, hrk, hrid, heq, hne⟩ := hcases hq
      obtain ⟨r', hr', hrk', hrid', heq', hne'⟩ := hcases hq'
      obtain rfl : r = r' := h.keyed id id' r r' hr hr' (hrk.trans (hk.trans hrk'.symm))
      have hsame : id = id' := (h.filed id r hr).symm.trans (h.filed id' r hr')
      subst hsame
      by_cases hid : id = q₀.id
      · rw [heq hid, heq' hid]
      · rw [hne hid, hne' hid]
  | decide | look | seek | tell => exact ⟨h.filed, h.keyed⟩

theorem ledger_sound {es : List LedgerEvent} (hl : (ledger py).Legal es) :
    ((ledger py).after es).Sound :=
  hl.invariant (I := Book.Sound) ⟨(fun _ _ hp => by cases hp), fun _ _ _ _ hp => by cases hp⟩
    fun _ _ hs he => hs.apply he

/-! ## The system as a ledger -/

/-- The payment that a row is read as. -/
def paymentOfRow (row : PaymentModel) : Option Payment := (PaymentMapper.toDomain row).toOption

@[simp] theorem paymentOfRow_toModel (p : Payment) :
    paymentOfRow (PaymentMapper.toModel p) = some p := by
  rw [paymentOfRow, PaymentMapper.toDomain_toModel]
  rfl

/-- The tables as a book. -/
def Tables.book (db : Tables) : Book where
  payment id := (db.payments.find? id).bind paymentOfRow
  verdict id := (db.charges.find? id).map (·.isSuccessful)

/-- What a committed write is on the ledger. -/
def Write.event (i : Nat) : Write → Option LedgerEvent
  | .insertPayment row => (paymentOfRow row).map (.accept i)
  | .updatePayment row => (paymentOfRow row).map .settle
  | .insertCharge row => some (.decide row.paymentId row.isSuccessful)
  | _ => none

/-- What an entry of the log is on the ledger, the newest event first. -/
def Entry.events : Entry → List LedgerEvent
  | .committed i ws => (ws.filterMap (Write.event i)).reverse
  | .did i (.getPayment id) (.ok row) => [.look i id (row.bind paymentOfRow)]
  | .did i (.selectPaymentForUpdate id) (.ok row) => [.look i id (row.bind paymentOfRow)]
  | .did i (.selectPaymentByKey key) (.ok row) => [.seek i key (row.bind paymentOfRow)]
  | .did _ (.post url payload key) _ => [.tell url payload key]
  | _ => []

/-- The events of the log, the newest first. -/
def World.events (s : World) : List LedgerEvent := s.log.flatMap Entry.events

/-! ## The tables -/

theorem book_congr {db db' : Tables} (hp : db'.payments = db.payments)
    (hc : db'.charges = db.charges) : db'.book = db.book := by
  rw [Tables.book, Tables.book, hp, hc]

theorem book_payment (h : s.Stored p) : s.db.book.payment p.id = some p := by
  show (s.db.payments.find? p.id).bind paymentOfRow = some p
  rw [h, Option.bind_some, paymentOfRow_toModel]

/-- The payments of the book are those of the table. -/
theorem stored_of_book (hi : Inv s) {id : UUID} (h : s.db.book.payment id = some p) :
    p.id = id ∧ s.Stored p := by
  obtain ⟨row, hrow, hp⟩ := Option.bind_eq_some_iff.1 h
  obtain ⟨q, rfl, hid, hst⟩ := payment_of_find? hi hrow
  rw [paymentOfRow_toModel, Option.some.injEq] at hp
  subst hp
  exact ⟨hid, hst⟩

theorem book_insert (db : Tables) (p : Payment) (event : OutboxModel)
    (fresh : db.payments.find? p.id = none) :
    (db.writeAll [.insertPayment (PaymentMapper.toModel p), .insertOutbox event]).book =
      db.book.apply (.accept i p) := by
  refine Book.ext (funext fun id => ?_) rfl
  have hfind : (db.payments.insert (PaymentMapper.toModel p)).find? id =
      if id = p.id then some (PaymentMapper.toModel p) else db.payments.find? id :=
    Table.find?_insert (r := PaymentMapper.toModel p) fresh id
  show Option.bind ((db.payments.insert (PaymentMapper.toModel p)).find? id) paymentOfRow =
    Function.update db.book.payment p.id (some p) id
  rw [hfind, Function.update_apply]
  split
  · rw [Option.bind_some, paymentOfRow_toModel]
  · rfl

theorem book_update (db : Tables) {row : PaymentModel} (hrow : db.payments.find? p.id = some row) :
    (db.writeAll [.updatePayment (PaymentMapper.toModel p)]).book = db.book.apply (.settle p) := by
  refine Book.ext (funext fun id => ?_) rfl
  have hfind : (db.payments.replace (PaymentMapper.toModel p)).find? id =
      if id = p.id then (db.payments.find? id).map fun _ => PaymentMapper.toModel p
      else db.payments.find? id := Table.find?_replace _ _ id
  show Option.bind ((db.payments.replace (PaymentMapper.toModel p)).find? id) paymentOfRow =
    Function.update db.book.payment p.id (some p) id
  rw [hfind, Function.update_apply]
  split
  · rename_i hid
    rw [hid, hrow, Option.map_some, Option.bind_some, paymentOfRow_toModel]
  · rfl

theorem book_charge (db : Tables) (row : GatewayChargeModel)
    (fresh : db.charges.find? row.paymentId = none) :
    (db.writeAll [.insertCharge row]).book =
      db.book.apply (.decide row.paymentId row.isSuccessful) := by
  refine Book.ext rfl (funext fun id => ?_)
  have hfind : (db.charges.insert row).find? id =
      if id = row.paymentId then some row else db.charges.find? id := Table.find?_insert fresh id
  show Option.map (·.isSuccessful) ((db.charges.insert row).find? id) =
    Function.update db.book.verdict row.paymentId (some row.isSuccessful) id
  rw [hfind, Function.update_apply]
  split <;> rfl

/-! ## One action -/

/-- **A committed batch** is an event of the ledger, or none. -/
theorem CommitLegit.event (hi : Inv s) (h : CommitLegit py i s ws) :
    (ws.filterMap (Write.event i) = [] ∧ (s.db.writeAll ws).book = s.db.book) ∨
    ∃ e, ws.filterMap (Write.event i) = [e] ∧ s.db.book.Enabled py e ∧
      (s.db.writeAll ws).book = s.db.book.apply e := by
  cases h with
  | nothing => exact .inl ⟨rfl, rfl⟩
  | create p id pending unprocessed locked keyLocked fresh freshKey =>
    refine .inr ⟨.accept i p, ?_, ⟨pending, unprocessed, ?_, ?_⟩, book_insert s.db p _ fresh⟩
    · simp [Write.event]
    · show (s.db.payments.find? p.id).bind paymentOfRow = none
      rw [fresh]
      rfl
    · intro id q hq hkey
      obtain ⟨-, hst⟩ := stored_of_book hi hq
      exact freshKey _ (Table.mem_of_find? hst) (congrArg IdempotencyKey.value hkey)
  | complete p isSuccessful now pending stored charged locked =>
    obtain ⟨row, hrow, hok⟩ := charged
    refine .inr ⟨.settle (p.completed isSuccessful now), ?_, ⟨p, isSuccessful, now,
      book_payment stored, pending, ?_, rfl⟩, book_update s.db (p := p.completed isSuccessful now)
        stored⟩
    · simp [Write.event]
    · show (s.db.charges.find? p.id).map (·.isSuccessful) = some isSuccessful
      rw [hrow, Option.map_some, hok]
  | charge row locked fresh =>
    refine .inr ⟨.decide row.paymentId row.isSuccessful, rfl, ?_, book_charge s.db row fresh⟩
    show (s.db.charges.find? row.paymentId).map (·.isSuccessful) = none
    rw [fresh]
    rfl
  | remember row => exact .inl ⟨rfl, rfl⟩
  | claim worker rows now =>
    have hframe := s.db.writeAll_updates_frame (SqlOutboxQueue.claimPatch now) (rows.map (·.id))
    refine .inl ⟨?_, book_congr hframe.1 hframe.2.2⟩
    rw [claimWrites, List.filterMap_map]
    exact List.filterMap_eq_nil_iff.2 fun _ _ => rfl
  | mark | release => exact .inl ⟨rfl, rfl⟩
  | purge rows =>
    have hframe := s.db.writeAll_deletes_frame (rows.map (·.id))
    refine .inl ⟨?_, book_congr hframe.1 hframe.2.2⟩
    rw [List.filterMap_map]
    exact List.filterMap_eq_nil_iff.2 fun _ _ => rfl

theorem events_append {l : List Entry} (hl : s'.log = l ++ s.log) :
    s'.events = l.flatMap Entry.events ++ s.events := by
  rw [World.events, hl, List.flatMap_append]
  rfl

/-- What the ledger hears of an operation that is not a commit. -/
theorem exec_event (hi : Inv s) {op : Op} {c : Choice} {r : Except Exc (Res op)}
    (hreq : Req py i op s) (hread : op.readsPayments = true → s.view i = s.db)
    (h : World.exec i op c s = some (r, s')) :
    Entry.events (.did i op r) = [] ∨
      ∃ e, Entry.events (.did i op r) = [e] ∧ s.db.book.Enabled py e ∧
        s.db.book.apply e = s.db.book := by
  have hans : ∀ {a : Res op}, r = .ok a → ∃ s₁, s.effect i c op = some (.ok a, s₁) := by
    rintro a rfl
    obtain ⟨s₁, he, -⟩ := exec_ok h
    exact ⟨s₁, he⟩
  cases op with
  | getPayment id =>
    cases r with
    | error e => exact .inl rfl
    | ok row =>
      obtain ⟨s₁, he⟩ := hans rfl
      have hrow : row = s.db.payments.find? id := by
        cases he
        rw [hread rfl]
      exact .inr ⟨_, rfl, by rw [hrow]; rfl, rfl⟩
  | selectPaymentForUpdate id =>
    cases r with
    | error e => exact .inl rfl
    | ok row =>
      obtain ⟨s₁, he⟩ := hans rfl
      have hrow : row = s.db.payments.find? id := by
        simp only [effect, hread rfl] at he
        split at he
        · rename_i hf
          cases he
          exact hf.symm
        · rename_i found hf
          obtain ⟨s₂, -, he⟩ := Option.map_eq_some_iff.1 he
          cases he
          exact hf.symm
      exact .inr ⟨_, rfl, by rw [hrow]; rfl, rfl⟩
  | selectPaymentByKey key =>
    cases r with
    | error e => exact .inl rfl
    | ok row =>
      obtain ⟨s₁, he⟩ := hans rfl
      have hrow : s.db.payments.rows.find? (fun row => row.idempotencyKey = key) = row := by
        cases he
        rw [hread rfl]
      refine .inr ⟨_, rfl, ⟨fun p hp => ?_, fun hnone id q hq hkey => ?_⟩, rfl⟩
      · obtain ⟨found, rfl, hfound⟩ := Option.bind_eq_some_iff.1 hp
        obtain ⟨q, rfl, -, hst⟩ := payment_of_find? hi
          (Table.find?_key (List.mem_of_find?_eq_some hrow))
        rw [paymentOfRow_toModel, Option.some.injEq] at hfound
        subst hfound
        have hk := List.find?_some
          (p := fun row : PaymentModel => decide (row.idempotencyKey = key)) hrow
        exact ⟨book_payment hst, of_decide_eq_true hk⟩
      · obtain ⟨-, hst⟩ := stored_of_book hi hq
        cases row with
        | none =>
          refine List.find?_eq_none.1 hrow _ (Table.mem_of_find? hst) ?_
          exact decide_eq_true (p := (PaymentMapper.toModel q).idempotencyKey = key) hkey
        | some found =>
          obtain ⟨q', rfl, -, -⟩ := payment_of_find? hi
            (Table.find?_key (List.mem_of_find?_eq_some hrow))
          rw [Option.bind_some, paymentOfRow_toModel] at hnone
          cases hnone
  | post url payload key =>
    cases hreq.2.2 with
    | outcome p messageId executes stored terminal first =>
      have htells := WebhookPayload.build_tells py p
      exact .inr ⟨_, rfl, ⟨p, book_payment stored, terminal, rfl, htells, rfl⟩, rfl⟩
  | _ => exact .inl rfl

/-- **One action of the system is one event of the ledger, or none.** -/
theorem Legit.ledger (hr : Reachable py A y) (hl : Legit py a y y') :
    (y'.state.events = y.state.events ∧ y'.state.db.book = y.state.db.book) ∨
    ∃ e, y'.state.events = e :: y.state.events ∧ (ledger py).Enabled y.state.db.book e ∧
      y'.state.db.book = (ledger py).apply y.state.db.book e := by
  cases hl with
  | spawn i k s p _ _ _ hs hy =>
    subst hy
    obtain ⟨l, hlog, he⟩ := start_log hs
    have hnone : l.flatMap Entry.events = [] := by
      apply List.flatMap_eq_nil_iff.2
      intro e hm
      rcases he e hm with rfl | ⟨msg, rfl⟩ <;> rfl
    refine .inl ⟨?_, congrArg Tables.book (start_quiet hs).db⟩
    rw [events_append hlog, hnone, List.nil_append]
  | run i c k op f r s _ hi hreq hs hy =>
    subst hy
    by_cases hop : op = .commit
    · subst hop
      rcases exec_commit hs with rfl | ⟨-, rfl⟩
      · have hev : ((y.state.commit i).note (.did i .commit r)).events =
            ((y.state.staged i).filterMap (Write.event i)).reverse ++ y.state.events := by
          refine (events_append
            (l := [.did i .commit r, .committed i (y.state.staged i)]) rfl).trans ?_
          simp [Entry.events]
        rcases hreq.2.2.event hr.inv with ⟨hnone, hbook⟩ | ⟨e, hone, hen, hbook⟩
        · refine .inl ⟨?_, hbook⟩
          rw [hev, hnone]
          rfl
        · refine .inr ⟨e, ?_, hen, hbook⟩
          rw [hev, hone]
          rfl
      · exact .inl ⟨events_append (l := [.did i .commit r]) rfl, rfl⟩
    · obtain ⟨s₁, hf, rfl⟩ := exec_frame hop hs
      have hev : (s₁.note (.did i op r)).events = Entry.events (.did i op r) ++ y.state.events := by
        refine (events_append (s := y.state) (l := [.did i op r])
          (congrArg (Entry.did i op r :: ·) hf.log)).trans ?_
        rw [List.flatMap_singleton]
      have hbook : (s₁.note (.did i op r)).db.book = y.state.db.book := congrArg Tables.book hf.db
      rcases exec_event hr.inv hreq (fun hread => hr.reads_committed hi hread) hs with
        hnone | ⟨e, hone, hen, hsame⟩
      · refine .inl ⟨?_, hbook⟩
        rw [hev, hnone, List.nil_append]
      · refine .inr ⟨e, ?_, hen, hbook.trans hsame.symm⟩
        rw [hev, hone]
        rfl
  | kill i k p _ _ hy => subst hy; exact .inl ⟨rfl, rfl⟩
  | env e s _ hs hy =>
    subst hy
    refine .inl ⟨events_append (l := []) (env_log hs), congrArg Tables.book (env_quiet hs 0).db⟩

/-- **The system refines the ledger.** -/
theorem Reachable.tracks (hy : Reachable py A y) :
    (ledger py).Tracks y.state.events y.state.db.book := by
  refine hy.invariant (P := fun y => (ledger py).Tracks y.state.events y.state.db.book)
    (fun _ => .start) ?_
  intro y y' a hr _ hP _ hl
  exact hP.step (hl.ledger hr)

end PaymentProcessing
