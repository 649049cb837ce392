import PaymentProcessing.Protocol.Sessions

/-!
# The order of statements in a transaction

Payments are read before anything is staged, and a statement that may have to wait for a lock comes
before any lock is taken, unless it asks for locks that the transaction has. Every program of the
system keeps to this; one pass through the programs shows both.
-/

namespace PaymentProcessing

open Python Relational Concurrency World

variable {py : Platform} {A : Allowed} {i : Nat} {s s' : World} {y y' : Config} {h : History}
  {k : Kind} {α β : Type}

/-! ## The order -/

/-- Operations that read payments. -/
def Op.readsPayments : Op → Bool
  | .getPayment _ | .selectPaymentForUpdate _ | .selectPaymentByKey _ => true
  | _ => false

/-- Operations that may have to wait for a lock. -/
def Op.mayWait : Op → Bool
  | .selectPaymentForUpdate _ | .insertPayment _ | .updatePayment _ | .updateOutbox ..
  | .deleteProcessed .. | .insertInbox _ | .insertCharge _ => true
  | _ => false

/-- Operations on the broker, the receiver of a webhook and the event loop. -/
def Op.leavesDatabase : Op → Bool
  | .publish .. | .ack | .reject | .post .. | .sleep => true
  | _ => false

/-- The operation asks only for locks that the history shows. -/
def Op.Relocks (h : History) : Op → Prop
  | .updatePayment row => Locking h (.payment row.id)
  | .updateOutbox ids _ => ∀ id ∈ ids, Locking h (.outbox id)
  | _ => False

/-- The operation comes in its place. -/
structure Op.InOrder (h : History) (op : Op) : Prop where
  reads : op.readsPayments = true → Drafts h []
  waits : op.mayWait = true → Untouched h ∨ op.Relocks h
  leaves : op.leavesDatabase = true → Untouched h

/-- A payment is found under the id that was asked for. -/
def FoundById (_ : History) : (op : Op) → Except Exc (Res op) → Prop
  | .getPayment id, .ok (some row) => row.id = id
  | .selectPaymentForUpdate id, .ok (some row) => row.id = id
  | _, _ => True

theorem exec_foundById {op : Op} {c : Choice} {r : Except Exc (Res op)}
    (he : World.exec i op c s = some (r, s')) : FoundById h op r := by
  cases r with
  | error e => cases op <;> trivial
  | ok a =>
    obtain ⟨s₁, heff, -⟩ := exec_ok he
    cases op with
    | getPayment id =>
      cases a with
      | none => trivial
      | some row =>
        have hfound : (s.view i).payments.find? id = some row :=
          Except.ok.inj (congrArg Prod.fst (Option.some.inj heff))
        exact Table.key_of_find? hfound
    | selectPaymentForUpdate id =>
      cases a with
      | none => trivial
      | some row =>
        simp only [effect] at heff
        split at heff
        · cases heff
        · rename_i found hfound
          obtain ⟨s₂, -, hr⟩ := Option.map_eq_some_iff.1 heff
          cases hr
          exact Table.key_of_find? hfound
    | _ => trivial

/-- The program performs its operations in their places. -/
abbrev Orderly (Q : History → Except Exc α → Prop) (p : App α) (h : History) : Prop :=
  p.Along FoundById (fun h op => op.InOrder h) Q h

/-- The transaction is untouched, or there is none. -/
abbrev Clear (h : History) (_ : Except Exc α) : Prop := Untouched h

/-! ## Rules -/

/-- At the start of a transaction every operation is in its place. -/
theorem inOrder_of_untouched {op : Op} (hu : Untouched h) : op.InOrder h :=
  ⟨fun _ => hu.drafts, fun _ => .inl hu, fun _ => hu⟩

theorem orderly_first {op : Op} (hu : Untouched h) : Orderly (fun _ _ => True) (call op) h :=
  Prog.along_perform (inOrder_of_untouched hu) fun _ _ => trivial

theorem orderly_plain {p : App α} (hp : p.Only fun op => op.isPlain = true) (hu : Untouched h) :
    Orderly Clear p h :=
  hp.along hu (fun _ _ hu _ => inOrder_of_untouched hu) fun _ _ _ hu hop _ => .kept hop hu

/-- Operations whose place does not matter. -/
def Op.isAnywhere (op : Op) : Bool := !op.readsPayments && !op.mayWait && !op.leavesDatabase

theorem inOrder_anywhere {op : Op} (hop : op.isAnywhere = true) : op.InOrder h := by
  simp only [Op.isAnywhere, Bool.and_eq_true, Bool.not_eq_true'] at hop
  obtain ⟨⟨hreads, hwaits⟩, hleaves⟩ := hop
  refine ⟨fun h => ?_, fun h => ?_, fun h => ?_⟩
  · rw [hreads] at h; cases h
  · rw [hwaits] at h; cases h
  · rw [hleaves] at h; cases h

theorem orderly_anywhere {p : App α} (hp : p.Only fun op => op.isAnywhere = true) :
    Orderly (fun _ _ => True) p h :=
  hp.along (I := fun _ => True) trivial (fun _ _ _ hop => inOrder_anywhere hop)
    fun _ _ _ _ _ _ => trivial

/-- One statement at the start, and then whatever does not matter. -/
theorem orderly_then {op : Op} {f : Res op → App α} (hu : Untouched h)
    (hf : ∀ a, (f a).Only fun op => op.isAnywhere = true) :
    Orderly (fun _ _ => True) ((call op).bind f) h :=
  Prog.Along.bind (orderly_first hu) (fun _ a _ => orderly_anywhere (hf a)) fun _ _ _ => trivial

/-- Rollback and close leave nothing behind, even when they fail. -/
theorem orderly_end {op : Op} (hop : op = .rollback ∨ op = .close) : Orderly Clear (call op) h := by
  refine Prog.along_perform (inOrder_anywhere ?_) fun r _ => .ended hop
  rcases hop with rfl | rfl <;> rfl

theorem orderly_bind {p : App α} {f : α → App β} (hp : Orderly Clear p h)
    (hf : ∀ h a, Untouched h → Orderly Clear (f a) h) : Orderly Clear (p.bind f) h :=
  Prog.Along.bind hp hf fun _ _ hu => hu

/-- Inside a transaction nothing has to be left clear. -/
theorem orderly_inside {p : App α} {f : α → App β} (hp : Orderly Clear p h)
    (hf : ∀ h a, Untouched h → Orderly (fun _ _ => True) (f a) h) :
    Orderly (fun _ _ => True) (p.bind f) h :=
  Prog.Along.bind hp hf fun _ _ _ => trivial

theorem Clear.inside {p : App α} (hp : Orderly Clear p h) : Orderly (fun _ _ => True) p h :=
  hp.mono fun _ _ _ => trivial

/-- **A unit of work** leaves nothing behind. -/
theorem orderly_withUow {body : App α} (hp : Orderly (fun _ _ => True) body h) :
    Orderly Clear (withUow body) h := by
  refine Prog.Along.bind (Q := fun h r => ∀ e, r = .error e → Untouched h) ?_ (fun h a _ => ?_)
    fun h e hu => hu e rfl
  · refine Prog.Along.tryCatch hp (fun h a _ e he => by cases he) ?_
    intro h e _
    refine Prog.Along.mono (Q := Clear) ?_ fun _ _ hu _ _ => hu
    apply orderly_bind (orderly_end (.inl rfl))
    intro h _ _
    exact orderly_bind (orderly_end (.inr rfl)) fun h _ hu => hu
  · exact orderly_bind (orderly_end (.inr rfl)) fun h _ hu => hu

theorem orderly_withSession {body : App α} (hp : Orderly (fun _ _ => True) body h) :
    Orderly Clear (withSession body) h :=
  Prog.Along.tryFinally hp (fun _ _ _ => orderly_end (.inr rfl)) (fun _ _ hu => hu)
    fun _ _ _ hu => hu

theorem orderly_withBegin {body : App α} (hp : Orderly (fun _ _ => True) body h) :
    Orderly (fun _ _ => True) (withBegin body) h := by
  have hend : ∀ {γ : Type} {op : Op} {f : Res op → App γ} {h : History}, op.isAnywhere = true →
      (∀ a, (f a).Only fun op => op.isAnywhere = true) →
        Orderly (fun _ _ => True) ((call op).bind f) h := fun hop hf =>
    orderly_anywhere (.bind (only_call hop) hf)
  refine Prog.Along.bind (Q := fun _ _ => True) (Prog.Along.tryCatch hp (fun _ _ _ => trivial)
    fun h e _ => hend rfl fun _ => trivial) (fun h a _ => ?_) fun _ _ _ => trivial
  exact orderly_anywhere (.bind (.tryCatch (only_call rfl) fun e =>
    .bind (only_call rfl) fun _ => trivial) fun _ => trivial)

/-! ## Requests -/

theorem plain_toPayment (row : Option PaymentModel) :
    (SqlPaymentRepository.toPayment row).Only fun op => op.isPlain = true := by
  cases row with
  | none => trivial
  | some row => exact .bind (Prog.only_ofExcept _) fun p => trivial

theorem orderly_createPayment (command : CreatePaymentInput) (hu : Untouched h) :
    Orderly Clear (CreatePayment.execute py command) h := by
  refine orderly_bind (orderly_plain ?_ hu) fun h new hu => ?_
  · refine .bind (Prog.only_ofExcept _) fun money => .bind (Prog.only_ofExcept _) ?_
    intro key
    refine .bind (Prog.only_ofExcept _) fun url => .bind (only_call rfl) ?_
    intro now
    exact .bind (only_call rfl) fun id => trivial
  refine orderly_bind ?_ fun h stored hu => ?_
  · refine Prog.Along.tryCatch (orderly_bind (orderly_withUow ?_) fun _ _ hu => hu)
      (fun _ _ hu => hu) fun h e hu => ?_
    · refine Prog.Along.bind (Q := fun _ _ => True) (Prog.Along.tryCatch (orderly_first hu)
        (fun _ _ _ => trivial) fun h e _ => ?_) (fun h _ _ => orderly_anywhere ?_)
        fun _ _ _ => trivial
      · split
        · split <;> trivial
        · trivial
      · exact .bind (.bind (only_call rfl) fun id => only_call rfl) fun _ => only_call rfl
    · split <;> exact hu
  · split
    · exact hu
    · refine orderly_bind (orderly_withUow (Clear.inside (orderly_plain
        (.bind (only_call rfl) fun row => plain_toPayment row) hu))) ?_
      intro h existing hu
      split
      · exact hu
      · split <;> exact hu

theorem orderly_load (id : UUID) (hu : Untouched h) :
    Orderly Clear (ChargePayment.load id) h := by
  refine orderly_withUow (Clear.inside (orderly_plain (.bind (.bind (only_call rfl)
    fun row => plain_toPayment row) fun p => ?_) hu))
  cases p <;> trivial

theorem orderly_getPayment (id : UUID) (hu : Untouched h) :
    Orderly Clear (GetPayment.execute id) h := by
  refine orderly_withUow (Clear.inside (orderly_plain (.bind (.bind (only_call rfl)
    fun row => plain_toPayment row) fun p => ?_) hu))
  cases p <;> trivial

/-! ## Processing -/

theorem orderly_gateway (payment : Payment) (hu : Untouched h) :
    Orderly Clear (RandomPaymentGateway.charge py payment) h := by
  refine orderly_bind (orderly_withSession (orderly_then hu fun row => ?_)) fun h cached hu => ?_
  · cases row <;> trivial
  cases cached with
  | some cached => exact hu
  | none =>
    apply orderly_bind (orderly_plain (.bind (only_call rfl) fun _ => only_call rfl) hu)
    intro h _ hu
    refine orderly_bind (orderly_plain (.bind (only_call rfl) fun _ => trivial) hu) ?_
    intro h outcome hu
    apply orderly_bind (orderly_plain (only_call rfl) hu)
    intro h createdAt hu
    refine orderly_withSession (orderly_withBegin (orderly_then hu fun inserted => ?_))
    cases inserted with
    | some isSuccessful => trivial
    | none =>
      refine .bind (only_call rfl) ?_
      intro existing
      cases existing <;> trivial

theorem bind_eq_ok {x : Except Exc α} {f : α → Except Exc β} {b : β} (h : (x >>= f) = .ok b) :
    ∃ a, x = .ok a ∧ f a = .ok b := by
  cases x with
  | error e => cases h
  | ok a => exact ⟨a, rfl, h⟩

theorem toDomain_id {model : PaymentModel} {p : Payment}
    (hp : PaymentMapper.toDomain model = .ok p) : p.id = model.id := by
  obtain ⟨currency, -, hp⟩ := bind_eq_ok hp
  obtain ⟨money, -, hp⟩ := bind_eq_ok hp
  obtain ⟨status, -, hp⟩ := bind_eq_ok hp
  obtain ⟨key, -, hp⟩ := bind_eq_ok hp
  cases hp
  rfl

theorem complete_id {p q : Payment} {status : PaymentStatus} {now : Time}
    (hq : p.complete status now = .ok q) : q.id = p.id := by
  unfold Payment.complete at hq
  split at hq
  · cases hq
    rfl
  · obtain ⟨_, -, hq⟩ := bind_eq_ok hq
    cases hq
    rfl

theorem settle_id {p q : Payment} {result : GatewayResult} {now : Time}
    (hq : ChargePayment.settle p result now = .ok q) : q.id = p.id := by
  unfold ChargePayment.settle at hq
  split at hq
  · exact complete_id hq
  · exact complete_id hq

/-- The payment is locked, and nothing is staged yet. -/
structure Holding (id : UUID) (h : History) : Prop where
  drafts : Drafts h []
  locking : Locking h (.payment id)

theorem Holding.kept {id : UUID} {op : Op} {r : Except Exc (Res op)} (hop : op.isNeutral = true)
    (hh : Holding id h) : Holding id (⟨op, r⟩ :: h) :=
  ⟨.kept hop hh.drafts, .kept (end_of_neutral hop) hh.locking⟩

/-- Saving reads the row again, and then writes the row that is locked. -/
theorem orderly_save {p : Payment} (hh : Holding p.id h) :
    Orderly (fun _ _ => True) (SqlPaymentRepository.save p) h := by
  refine Prog.Along.bind (Q := fun h r => Holding p.id h ∧ ∀ row, r = .ok (some row) → row.id = p.id)
    ?_ (fun h found hfound => ?_) fun _ _ _ => trivial
  · refine Prog.along_perform ⟨fun _ => hh.drafts, nofun, nofun⟩ fun r hr => ⟨hh.kept rfl, ?_⟩
    rintro row rfl
    exact hr
  · obtain ⟨hlock, hid⟩ := hfound
    cases found with
    | none => trivial
    | some row =>
      have hsame : row.id = p.id := hid row rfl
      refine Prog.along_perform ⟨nofun, fun _ => .inr ?_, nofun⟩ fun _ _ => trivial
      show Locking h (.payment row.id)
      rw [hsame]
      exact hlock.locking

theorem orderly_getForUpdate (id : UUID) (hu : Untouched h) :
    Orderly (fun h r => ∀ p, r = .ok (some p) → p.id = id ∧ Holding id h)
      (SqlPaymentRepository.getForUpdate id) h := by
  refine Prog.Along.bind (Q := fun h r => ∀ row, r = .ok (some row) → row.id = id ∧ Holding id h)
    (Prog.along_perform (inOrder_of_untouched hu) ?_) (fun h row hrow => ?_)
    fun _ _ _ _ he => nomatch he
  · rintro r hr row rfl
    exact ⟨hr, .kept rfl hu.drafts, .payment⟩
  · cases row with
    | none => intro p he; cases he
    | some row =>
      refine Prog.Along.bind (Q := fun h' r => h' = h ∧ r = PaymentMapper.toDomain row)
        (Prog.along_ofExcept ⟨rfl, rfl⟩) (fun h' p hp => ?_) fun _ _ _ _ he => nomatch he
      obtain ⟨rfl, hdomain⟩ := hp
      rintro _ ⟨⟩
      obtain ⟨hid, hlock⟩ := hrow row rfl
      exact ⟨(toDomain_id hdomain.symm).trans hid, hlock⟩

theorem orderly_complete (payment : Payment) (result : GatewayResult) (hu : Untouched h) :
    Orderly Clear (ChargePayment.complete payment result) h := by
  refine orderly_withUow (Prog.Along.bind (orderly_getForUpdate payment.id hu)
    (fun h found hfound => ?_) fun _ _ _ => trivial)
  cases found with
  | none => trivial
  | some current =>
    obtain ⟨hid, hlock⟩ := hfound current rfl
    dsimp only
    split
    · refine Prog.Along.bind (Q := fun h _ => Holding payment.id h)
        (Prog.along_perform (inOrder_anywhere rfl) fun _ _ => hlock.kept rfl) (fun h now hlock => ?_)
        fun _ _ _ => trivial
      refine Prog.Along.bind (Q := fun h r => Holding payment.id h ∧
        r = ChargePayment.settle current result now) (Prog.along_ofExcept ⟨hlock, rfl⟩)
        (fun h settled hsettled => ?_) fun _ _ _ => trivial
      obtain ⟨hlock, hsettled⟩ := hsettled
      have hsame : settled.id = payment.id := (settle_id hsettled.symm).trans hid
      refine Prog.Along.bind (orderly_save (hsame ▸ hlock)) (fun h _ _ => ?_) fun _ _ _ => trivial
      exact orderly_anywhere (.bind (only_call rfl) fun _ => trivial)
    · trivial

theorem orderly_processPayment (id : UUID) (messageId : Option UUID) (hu : Untouched h) :
    Orderly Clear (ProcessPayment.execute py id messageId) h := by
  refine orderly_bind ?_ fun h duplicate hu => ?_
  · cases messageId with
    | none => exact hu
    | some m => exact orderly_withUow (orderly_anywhere (.bind (only_call rfl) fun _ => trivial))
  split
  · exact hu
  refine orderly_bind (orderly_bind (orderly_load id hu) fun h p hu => ?_) fun h p hu => ?_
  · split
    · exact hu
    · exact orderly_bind (orderly_gateway p hu) fun h result hu => orderly_complete p result hu
  refine orderly_bind (orderly_plain (.bind (Prog.only_ofExcept _) fun _ => .bind
    (.tryCatch (only_call rfl) fun e => ?_) fun status => Prog.only_ofExcept _) hu) fun h _ hu => ?_
  · split <;> trivial
  · cases messageId with
    | none => exact hu
    | some m => exact orderly_withUow (orderly_inside (orderly_plain (only_call rfl) hu)
        fun h now hu => orderly_then hu fun _ => only_call rfl)

theorem orderly_dispatch (msg : Message) (hu : Untouched h) :
    Orderly Clear (PaymentMessageDispatcher.dispatch py msg) h := by
  refine orderly_bind (Prog.Along.tryCatch (orderly_bind (orderly_bind
    (orderly_plain (Prog.only_ofExcept _) hu) fun h id hu => orderly_processPayment id _ hu)
    fun _ _ hu => hu) (fun _ _ hu => hu) fun h e hu => ?_) fun h failure hu => ?_
  · split <;> exact hu
  refine orderly_plain ?_ hu
  split
  · exact only_call rfl
  · refine .bind (.tryCatch (.bind (Prog.only_ofExcept _) fun count => .bind ?_ fun _ => trivial)
      fun e => ?_) fun routed => ?_
    · unfold FailureRouter.route
      split
      · exact only_call rfl
      · exact .bind trivial fun bits => .bind (Prog.only_ofExcept _) fun delay => only_call rfl
    · split <;> trivial
    · split <;> exact only_call rfl

/-! ## The relay -/

/-- Claiming updates the rows that the claim has locked. -/
theorem orderly_claim (worker : PublishOutbox) (hu : Untouched h) :
    Orderly Clear worker.claim h := by
  apply orderly_bind (orderly_plain (only_call rfl) hu)
  intro h now hu
  refine orderly_withUow (orderly_inside (orderly_plain (Prog.only_ofExcept _) hu)
    fun h staleBefore hu => Prog.Along.bind (Q := fun _ _ => True) (Prog.Along.bind
    (Q := fun h r => ∀ rows, r = .ok rows → ∀ row ∈ rows, Locking h (.outbox row.id))
    (Prog.along_perform (inOrder_anywhere rfl) ?_) (fun h rows hrows => ?_) fun _ _ _ => trivial)
    (fun h records _ => orderly_anywhere ?_) fun _ _ _ => trivial)
  · rintro r - rows rfl row hrow
    exact .claimed hrow
  · split
    · trivial
    · refine Prog.Along.bind (Q := fun _ _ => True) (Prog.along_perform ⟨nofun, fun _ => .inr ?_,
        nofun⟩ fun _ _ => trivial) (fun _ _ _ => trivial) fun _ _ _ => trivial
      intro id hid
      obtain ⟨row, hrow, rfl⟩ := List.mem_map.1 hid
      exact hrows rows rfl row hrow
  · split
    · exact .bind (only_call rfl) fun _ => trivial
    · trivial

theorem orderly_settle (id : UUID) (patch : OutboxPatch) (hu : Untouched h) :
    Orderly Clear (withUow do call (.updateOutbox [id] patch); call .commit) h :=
  orderly_withUow (orderly_then hu fun _ => only_call rfl)

theorem orderly_attempt (worker : PublishOutbox) (record : OutboxRecord) (hu : Untouched h) :
    Orderly Clear (PublishOutbox.attempt py worker record) h := by
  refine orderly_bind (Prog.Along.tryCatch (orderly_bind (orderly_bind (orderly_plain ?_ hu)
    fun h _ hu => ?_) fun _ _ hu => hu) (fun _ _ hu => hu) fun h e hu => ?_)
    fun h delivered hu => ?_
  · exact .bind (Prog.only_ofExcept _) fun envelope => only_call rfl
  · exact orderly_withUow (orderly_inside (orderly_plain (only_call rfl) hu) fun h now hu =>
      orderly_then hu fun _ => only_call rfl)
  · split
    · apply orderly_bind (orderly_plain (only_call rfl) hu)
      intro h _ hu
      refine orderly_bind ?_ fun _ _ hu => hu
      apply orderly_bind (orderly_plain (only_call rfl) hu)
      intro h now hu
      exact orderly_bind (orderly_plain (only_nextAttempt worker
        (φ := fun op => op.isPlain = true) rfl (fun _ _ => rfl) ..) hu)
        fun h next hu => orderly_settle _ _ hu
    · exact hu
  · split
    · exact orderly_plain (.bind (only_call rfl) fun _ => trivial) hu
    · exact hu

theorem orderly_attemptAll (worker : PublishOutbox) (records : List OutboxRecord) :
    ∀ published h, Untouched h →
      Orderly Clear (PublishOutbox.attemptAll py worker records published) h := by
  induction records with
  | nil => exact fun _ _ hu => hu
  | cons record records ih =>
    exact fun _ _ hu => orderly_bind (orderly_attempt worker record hu) fun h _ hu => ih _ h hu

theorem orderly_publishOutbox (worker : PublishOutbox) (hu : Untouched h) :
    Orderly Clear (worker.execute py) h := by
  apply orderly_bind (orderly_claim worker hu)
  intro h records hu
  refine Prog.Along.tryFinally (Q := Clear) (S := fun _ => Clear) ?_ (fun h _ hu => ?_)
    (fun _ _ hu => hu) fun _ _ _ hu => hu
  · split
    · refine orderly_bind (orderly_bind (orderly_plain (only_call rfl) hu) fun h now hu =>
        orderly_bind (orderly_plain (Prog.only_ofExcept _) hu) fun h cutoff hu => ?_)
        fun _ _ hu => hu
      exact orderly_withUow (orderly_then hu fun _ => only_call rfl)
    · exact orderly_attemptAll worker records 0 h hu
  · refine orderly_bind (orderly_withUow (Clear.inside (orderly_plain (.bind (only_call rfl)
      fun _ => .bind (only_call rfl) fun _ => trivial) hu))) fun _ _ hu => hu

/-! ## Runs -/

/-- **A process starts with an orderly program** that leaves nothing locked. -/
theorem start_orderly {p : App Reply} (hs : World.start py i k s = some (s', p)) :
    Orderly Clear p [] := by
  cases k with
  | createPayment command =>
    cases hs
    exact orderly_bind (orderly_createPayment command .start) fun _ _ hu => hu
  | getPayment id =>
    cases hs
    exact orderly_bind (orderly_getPayment id .start) fun _ _ hu => hu
  | charge payment =>
    cases hs
    exact orderly_bind (orderly_gateway payment .start) fun _ _ hu => hu
  | processPayment id messageId =>
    cases hs
    exact orderly_bind (orderly_processPayment id messageId .start) fun _ _ hu => hu
  | publishOutbox worker =>
    cases hs
    exact orderly_bind (orderly_publishOutbox worker .start) fun _ _ hu => hu
  | dispatch n =>
    obtain ⟨⟨msg, b⟩, -, he⟩ := Option.map_eq_some_iff.1 hs
    cases he
    exact orderly_bind (orderly_dispatch msg .start) fun _ _ hu => hu

theorem Reachable.running_started (hy : Reachable py A y) : ∀ i k p, y.procs i = .running k p →
    y.state.Logged (.started i k) := by
  refine hy.invariant (P := fun y => ∀ i k p, y.procs i = .running k p →
    y.state.Logged (.started i k)) (fun _ _ _ _ hi => by cases hi) ?_
  intro y y' a hr _ hP _ hl i k p hi
  have hsuffix : y.state.log <:+ y'.state.log := (hl.evolves (sound py) hr.inv).log
  cases hl.moves i with
  | rest proc own => exact hsuffix.mem (hP i k p (proc.symm.trans hi))
  | spawn k' p' idle clean hs proc =>
    cases proc.symm.trans hi
    exact (start_fresh (hr.good.idle i idle) hs).started
  | run k' op f r c hj req hs proc =>
    cases proc.symm.trans hi
    exact hsuffix.mem (hP i k _ hj)
  | kill k' proc own => cases proc.symm.trans hi

/-- **What is left of a program is orderly**, after what it has performed. -/
theorem Reachable.orderly (hy : Reachable py A y) {p : App Reply} (hi : y.procs i = .running k p) :
    Orderly Clear p (y.state.history i) := by
  have hkeeps : KeepsAlong FoundById (fun h op => op.InOrder h) Clear i y :=
    hy.keeps_started (hy.running_started i k p hi) (fun s s' p hs => start_orderly hs)
      fun _ _ _ _ _ _ _ _ _ _ he _ => exec_foundById he
  exact hkeeps.along k p hi

/-- **Payments are read as they are committed.** -/
theorem Reachable.reads_committed (hy : Reachable py A y) {op : Op}
    {f : Except Exc (Res op) → App Reply} (hi : y.procs i = .running k (.call op f))
    (hop : op.readsPayments = true) : y.state.view i = y.state.db := by
  have hnone : y.state.staged i = [] :=
    hy.drafts i k _ hi [] ((hy.orderly hi).1.reads hop)
  rw [World.view, hnone]
  rfl

end PaymentProcessing
