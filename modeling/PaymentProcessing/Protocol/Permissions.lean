import PaymentProcessing.Protocol.Histories

/-!
# What each kind of process may do

A request writes a payment with its event and reads it again, a relay works on the outbox and
publishes on `payments.new`, a consumer charges, sends the webhook and forwards its message. No
process does anything else, so nobody but a request inserts a payment.
-/

namespace PaymentProcessing

open Python Relational Concurrency World

variable {py : Platform} {A : Allowed} {i : Nat} {y : Config} {k : Kind}

/-- The operations of a request that creates a payment. -/
def Op.ofCreate : Op → Prop
  | .now | .uuid4 | .insertPayment _ | .addOutbox _ | .selectPaymentByKey _ | .commit | .rollback
  | .close => True
  | _ => False

/-- The operations of a request that reads a payment. -/
def Op.ofRead : Op → Prop
  | .getPayment _ | .rollback | .close => True
  | _ => False

/-- The operations that process a payment. -/
def Op.ofProcess : Op → Prop
  | .getInbox _ | .insertInbox _ | .getPayment _ | .selectPaymentForUpdate _ | .updatePayment _
  | .getCharge _ | .insertCharge _ | .post .. | .now | .random | .sleep | .commit | .rollback
  | .close => True
  | _ => False

/-- The operations of a consumer. -/
def Op.ofConsumer : Op → Prop
  | .publish key .. => key ≠ .new
  | .ack | .reject => True
  | op => op.ofProcess

/-- The operations of a relay. -/
def Op.ofRelay : Op → Prop
  | .publish key .. => key = .new
  | .selectClaimable .. | .updateOutbox .. | .deleteProcessed .. | .countOutbox _ | .now | .random
  | .log .. | .commit | .rollback | .close => True
  | _ => False

/-- The operations of a kind of process. -/
def Kind.permits : Kind → Op → Prop
  | .createPayment _ => Op.ofCreate
  | .getPayment _ => Op.ofRead
  | .charge _ => Op.ofGateway
  | .processPayment .. => Op.ofProcess
  | .publishOutbox _ => Op.ofRelay
  | .dispatch _ => Op.ofConsumer

/-! ## Requests -/

theorem only_createPayment (command : CreatePaymentInput) :
    (CreatePayment.execute py command).Only Op.ofCreate := by
  have hnew : (CreatePayment.newPayment py command).Only Op.ofCreate := by
    refine .bind (Prog.only_ofExcept _) fun money => .bind (Prog.only_ofExcept _) fun key => ?_
    refine .bind (Prog.only_ofExcept _) fun url => .bind (only_call trivial) fun now => ?_
    exact .bind (only_call trivial) fun id => trivial
  have hadd : ∀ payment, (SqlPaymentRepository.add payment).Only Op.ofCreate := by
    intro payment
    refine .tryCatch (only_call trivial) fun e => ?_
    split
    · split <;> trivial
    · trivial
  have hstore : ∀ payment now, (CreatePayment.store payment now).Only Op.ofCreate := by
    intro payment now
    refine only_withUow trivial trivial (.bind (hadd payment) fun _ => .bind ?_ fun _ => ?_)
    · exact .bind (only_call trivial) fun id => only_call trivial
    · exact only_call trivial
  refine .bind hnew fun new => .bind (.tryCatch (.bind (hstore _ _) fun _ => trivial) ?_) ?_
  · intro e
    split <;> trivial
  · intro stored
    split
    · trivial
    · refine .bind (only_withUow trivial trivial (.bind (only_call trivial) fun row =>
        only_toPayment row)) fun existing => ?_
      split
      · trivial
      · split <;> trivial

theorem only_getPayment (id : UUID) : (GetPayment.execute id).Only Op.ofRead := by
  refine only_withUow trivial trivial (.bind (.bind (only_call trivial) fun row =>
    only_toPayment row) fun p => ?_)
  cases p <;> trivial

/-! ## Processing -/

theorem ofProcess_of_ofGateway {op : Op} (h : op.ofGateway) : op.ofProcess := by
  cases op <;> trivial

theorem only_load (id : UUID) : (ChargePayment.load id).Only Op.ofProcess := by
  refine only_withUow trivial trivial (.bind (.bind (only_call trivial) fun row =>
    only_toPayment row) fun p => ?_)
  cases p <;> trivial

theorem only_complete (payment : Payment) (result : GatewayResult) :
    (ChargePayment.complete payment result).Only Op.ofProcess := by
  refine only_withUow trivial trivial (.bind (.bind (only_call trivial) fun row =>
    only_toPayment row) fun p => ?_)
  cases p with
  | none => trivial
  | some p =>
    dsimp only
    split
    · refine .bind (only_call trivial) fun now => .bind (Prog.only_ofExcept _) fun q => ?_
      refine .bind (.bind (only_call trivial) fun row => ?_) fun _ => .bind (only_call trivial)
        fun _ => trivial
      cases row with
      | none => trivial
      | some row => exact only_call trivial
    · trivial

theorem only_processPayment (id : UUID) (messageId : Option UUID) :
    (ProcessPayment.execute py id messageId).Only Op.ofProcess := by
  refine .bind ?_ fun duplicate => ?_
  · cases messageId with
    | none => trivial
    | some m => exact only_withUow trivial trivial (.bind (only_call trivial) fun _ => trivial)
  · split
    · trivial
    · refine .bind (.bind (only_load id) fun p => ?_) fun p => .bind (.bind (Prog.only_ofExcept _)
        fun _ => .bind (.tryCatch (only_call trivial) fun e => ?_) fun status =>
          Prog.only_ofExcept _) fun _ => ?_
      · split
        · trivial
        · exact .bind ((only_gateway p).mono fun _ => ofProcess_of_ofGateway) fun result =>
            only_complete p result
      · split <;> trivial
      · split
        · trivial
        · exact only_withUow trivial trivial (.bind (only_call trivial) fun now =>
            .bind (only_call trivial) fun _ => only_call trivial)

theorem ofConsumer_of_ofProcess {op : Op} (h : op.ofProcess) : op.ofConsumer := by
  cases op <;> trivial

theorem only_handle (msg : Message) : (PaymentMessageHandler.handle py msg).Only Op.ofProcess :=
  .bind (Prog.only_ofExcept _) fun id => only_processPayment id _

theorem only_dispatch (msg : Message) :
    (PaymentMessageDispatcher.dispatch py msg).Only Op.ofConsumer := by
  refine .bind (.tryCatch (.bind ((only_handle msg).mono fun _ => ofConsumer_of_ofProcess)
    fun _ => trivial) fun e => ?_) fun failure => ?_
  · split <;> trivial
  · split
    · exact only_call trivial
    · refine .bind (.tryCatch (.bind (Prog.only_ofExcept _) fun count =>
        .bind ?_ fun _ => trivial) fun e => ?_) fun routed => ?_
      · unfold FailureRouter.route
        split
        · exact only_call (by simp [Op.ofConsumer])
        · exact .bind trivial fun bits => .bind (Prog.only_ofExcept _) fun delay =>
            only_call (by simp [Op.ofConsumer])
      · split <;> trivial
      · split <;> exact only_call trivial

/-! ## The relay -/

theorem only_attemptOne (worker : PublishOutbox) (record : OutboxRecord) :
    (PublishOutbox.attempt py worker record).Only Op.ofRelay := by
  have hsettle : ∀ {patch : OutboxPatch}, (call (.updateOutbox [record.id] patch)).Only
      Op.ofRelay := only_call trivial
  refine .bind (.tryCatch (.bind (.bind ?_ fun _ => ?_) fun _ => trivial) fun e => ?_)
    fun delivered => ?_
  · exact .bind (Prog.only_ofExcept _) fun envelope => only_call rfl
  · exact only_withUow trivial trivial (.bind (only_call trivial) fun now =>
      .bind hsettle fun _ => only_call trivial)
  · split
    · refine .bind (only_call trivial) fun _ => .bind (.bind (only_call trivial) fun now => ?_)
        fun _ => trivial
      exact .bind (only_nextAttempt worker trivial (fun _ _ => trivial) ..) fun next =>
        only_withUow trivial trivial (.bind hsettle fun _ => only_call trivial)
    · trivial
  · split
    · exact .bind (only_call trivial) fun _ => trivial
    · trivial

theorem only_attemptAll (worker : PublishOutbox) (records : List OutboxRecord) :
    ∀ published, (PublishOutbox.attemptAll py worker records published).Only Op.ofRelay := by
  induction records with
  | nil => exact fun _ => trivial
  | cons record records ih => exact fun _ => .bind (only_attemptOne worker record) fun _ => ih _

theorem only_publishOutbox (worker : PublishOutbox) : (worker.execute py).Only Op.ofRelay := by
  refine .bind (.bind (only_call trivial) fun now => only_withUow trivial trivial
    (.bind (Prog.only_ofExcept _) fun staleBefore => .bind ?_ fun records => ?_))
    fun records => .tryFinally ?_ ?_
  · refine .bind (only_call trivial) fun rows => ?_
    split
    · trivial
    · exact .bind (only_call trivial) fun _ => trivial
  · split
    · exact .bind (only_call trivial) fun _ => trivial
    · trivial
  · split
    · exact .bind (.bind (only_call trivial) fun now => .bind (Prog.only_ofExcept _) fun cutoff =>
        only_withUow trivial trivial (.bind (only_call trivial) fun _ => only_call trivial))
        fun _ => trivial
    · exact only_attemptAll worker records 0
  · exact .bind (only_withUow trivial trivial (.bind (only_call trivial) fun _ =>
      .bind (only_call trivial) fun _ => trivial)) fun _ => trivial

/-! ## Runs -/

/-- **A process starts with a program of its kind.** -/
theorem start_only {s s' : World} {p : App Reply} (h : World.start py i k s = some (s', p)) :
    p.Only k.permits := by
  cases k with
  | createPayment command => cases h; exact .bind (only_createPayment command) fun _ => trivial
  | getPayment id => cases h; exact .bind (only_getPayment id) fun _ => trivial
  | charge payment => cases h; exact .bind (only_gateway payment) fun _ => trivial
  | processPayment id messageId =>
    cases h; exact .bind (only_processPayment id messageId) fun _ => trivial
  | publishOutbox worker => cases h; exact .bind (only_publishOutbox worker) fun _ => trivial
  | dispatch n =>
    obtain ⟨⟨msg, b⟩, -, he⟩ := Option.map_eq_some_iff.1 h
    cases he
    exact .bind (only_dispatch msg) fun _ => trivial

/-- **Every process keeps to the operations of its kind.** -/
theorem did_permitted (h : Reachable py A y) (hk : y.state.Logged (.started i k)) {op : Op}
    {r : Except Exc (Res op)} (hd : y.state.Did i op r) : k.permits op := by
  have hkeeps : KeepsAlong (fun _ _ _ => True) (fun _ op => k.permits op) (fun _ _ => True) i y := by
    refine h.keeps_started hk (fun s s' p hs => ?_) fun _ _ _ _ _ _ _ _ _ _ _ _ => trivial
    exact Prog.Only.along (I := fun _ => True) (start_only hs) trivial (fun _ _ _ hop => hop)
      fun _ _ _ _ _ _ => trivial
  obtain ⟨-, -, hpermits, -⟩ := hkeeps.obeyed.of_mem (mem_history.2 hd)
  exact hpermits

end PaymentProcessing
