import PaymentProcessing.Concurrency.Budget
import PaymentProcessing.Protocol.Permissions

/-!
# How many operations a process performs

Every program of the system ends after a number of operations that is known when it starts, whatever
they answer; for a relay it depends on the size of a batch.
-/

namespace PaymentProcessing

open Python Relational Concurrency World

variable {py : Platform} {A : Allowed} {i : Nat} {s s' : World} {y y' : Config} {n m : Nat}
  {k : Kind} {α β : Type}

/-- A claim answers with a batch at most. -/
def Op.Batched : (op : Op) → Except Exc (Res op) → Prop
  | .selectClaimable limit _ _, .ok rows => rows.length ≤ limit
  | _, _ => True

/-- The program performs at most `n` operations. -/
abbrev Costs (p : App α) (n : Nat) : Prop := p.Within Op.Batched (fun _ => True) n

/-- What is returned has `P`. -/
def Yields (P : α → Prop) (r : Except Exc α) : Prop := ∀ a, r = .ok a → P a

/-! ## Rules -/

theorem costs_call {op : Op} (hn : 0 < n) : Costs (call op) n :=
  Prog.within_perform hn fun _ _ => trivial

theorem costs_orRaise {r : Except Exc α} : Costs (orRaise r) n := Prog.within_ofExcept trivial

theorem costs_bind {p : App α} {f : α → App β} (hp : Costs p n) (hn : n ≤ m)
    (hf : ∀ a, Costs (f a) (m - n)) : Costs (p.bind f) m :=
  Prog.Within.bind hp hn (fun a _ => hf a) fun _ _ => trivial

/-- What costs nothing leaves everything to what comes after it. -/
theorem costs_free {p : App α} {f : α → App β} (hp : Costs p 0) (hf : ∀ a, Costs (f a) m) :
    Costs (p.bind f) m :=
  costs_bind hp (Nat.zero_le m) hf

/-- One operation. -/
theorem costs_step {op : Op} {f : Res op → App β} (hm : 0 < m)
    (hf : ∀ a, Costs (f a) (m - 1)) : Costs ((call op).bind f) m :=
  costs_bind (costs_call Nat.one_pos) hm hf

theorem costs_tryCatch {p : App α} {f : Exc → App α} (hp : Costs p n) (hn : n ≤ m)
    (hf : ∀ e, Costs (f e) (m - n)) : Costs (p.tryCatch f) m :=
  Prog.Within.tryCatch hp hn (fun _ _ => trivial) fun e _ => hf e

/-- The program raises in the end, after at most `n` operations. -/
abbrev Raises (p : App α) (n : Nat) : Prop := p.Within Op.Batched (fun r => ∃ e, r = .error e) n

theorem raises_step {op : Op} {f : Res op → App β} (hm : 0 < m)
    (hf : ∀ a, Raises (f a) (m - 1)) : Raises ((call op).bind f) m :=
  Prog.Within.bind (costs_call Nat.one_pos) hm (fun a _ => hf a) fun e _ => ⟨e, rfl⟩

/-- Nothing comes after a program that raises. -/
theorem Raises.skips {p : App α} {f : α → App β} (hp : Raises p n) (hn : n ≤ m) :
    Costs (p.bind f) m := by
  refine Prog.Within.bind hp hn ?_ fun _ _ => trivial
  rintro a ⟨e, he⟩
  cases he

/-- **A unit of work** needs two operations besides its body: one to roll back, one to close. -/
theorem within_withUow {body : App α} {P : α → Prop}
    (hp : body.Within Op.Batched (Yields P) n) (hm : n + 2 ≤ m) :
    (withUow body).Within Op.Batched (Yields P) m := by
  refine Prog.Within.tryCatch_bind hp (by omega) ?_ ?_
  · intro a ha
    refine Prog.Within.bind (costs_call Nat.one_pos) (by omega) ?_ fun _ _ _ he => by cases he
    intro _ _
    exact ha
  · intro e _
    refine Prog.Within.bind (n := 2) (raises_step (by omega) fun _ => ?_) (by omega) ?_
      fun _ _ _ he => by cases he
    · exact raises_step (by omega) fun _ => ⟨e, rfl⟩
    · rintro a ⟨e, he⟩
      cases he

theorem costs_withUow {body : App α} (hp : Costs body n) (hm : n + 2 ≤ m) :
    Costs (withUow body) m := by
  have hyields : body.Within Op.Batched (Yields fun _ => True) n :=
    hp.mono (Nat.le_refl n) fun _ _ _ _ => trivial
  exact (within_withUow hyields hm).mono (Nat.le_refl m) fun _ _ => trivial

theorem costs_withSession {body : App α} (hp : Costs body n) (hm : n + 1 ≤ m) :
    Costs (withSession body) m :=
  Prog.Within.tryFinally hp (by omega) (costs_call (by omega))

theorem costs_withBegin {body : App α} (hp : Costs body n) (hm : n + 2 ≤ m) :
    Costs (withBegin body) m := by
  refine Prog.Within.tryCatch_bind hp (by omega) ?_ ?_
  · intro a _
    refine costs_bind (n := 2) (costs_tryCatch (n := 1) (costs_call (by omega)) (by omega) ?_)
      (by omega) fun _ => trivial
    intro e
    exact costs_step (by omega) fun _ => trivial
  · intro e _
    exact Raises.skips (n := 1) (raises_step (by omega) fun _ => ⟨e, rfl⟩) (by omega)

/-! ## Requests -/

theorem costs_toPayment (row : Option PaymentModel) :
    Costs (SqlPaymentRepository.toPayment row) n := by
  cases row with
  | none => trivial
  | some row => exact costs_free costs_orRaise fun _ => trivial

theorem costs_newPayment (command : CreatePaymentInput) :
    Costs (CreatePayment.newPayment py command) 2 := by
  refine costs_free costs_orRaise fun money => costs_free costs_orRaise ?_
  intro key
  refine costs_free costs_orRaise fun url => costs_step (by omega) ?_
  intro now
  exact costs_step (by omega) fun id => trivial

theorem costs_add (p : Payment) : Costs (SqlPaymentRepository.add p) 1 := by
  refine costs_tryCatch (n := 1) (costs_call (by omega)) (by omega) ?_
  intro e
  split
  · split <;> trivial
  · trivial

theorem costs_store (p : Payment) (now : Time) : Costs (CreatePayment.store p now) 6 := by
  refine costs_withUow (n := 4) (costs_bind (costs_add p) (by omega) fun _ => ?_) (by omega)
  refine costs_bind (n := 2) ?_ (by omega) fun _ => costs_call (by omega)
  exact costs_step (by omega) fun id => costs_call (by omega)

theorem costs_replay (command : CreatePaymentInput) (money : Money) (key : IdempotencyKey) :
    Costs (CreatePayment.replayExisting command money key) 3 := by
  refine costs_bind (n := 3) (costs_withUow (n := 1) ?_ (by omega)) (by omega) fun existing => ?_
  · exact costs_step (by omega) fun row => costs_toPayment row
  · cases existing with
    | none => trivial
    | some existing =>
      dsimp only
      split <;> trivial

theorem costs_createPayment (command : CreatePaymentInput) :
    Costs (CreatePayment.execute py command) 11 := by
  apply costs_bind (costs_newPayment command) (by omega)
  intro new
  refine costs_bind (n := 6) (costs_tryCatch (costs_bind (costs_store _ _) (Nat.le_refl _)
    fun _ => trivial) (Nat.le_refl _) ?_) (by omega) fun stored => ?_
  · intro e
    split <;> trivial
  · split
    · trivial
    · exact costs_replay command _ _

theorem costs_get (id : UUID) : Costs (SqlPaymentRepository.get id) 1 := by
  apply costs_step (by omega)
  intro row
  exact costs_toPayment row

theorem costs_load (id : UUID) : Costs (ChargePayment.load id) 3 := by
  refine costs_withUow (costs_bind (costs_get id) (Nat.le_refl 1) ?_) (by omega)
  intro p
  cases p <;> trivial

theorem costs_getPayment (id : UUID) : Costs (GetPayment.execute id) 3 := by
  refine costs_withUow (costs_bind (costs_get id) (Nat.le_refl 1) ?_) (by omega)
  intro p
  cases p <;> trivial

/-! ## Processing -/

theorem costs_gateway (payment : Payment) : Costs (RandomPaymentGateway.charge py payment) 11 := by
  refine costs_bind (n := 2) (costs_withSession (n := 1) ?_ (by omega)) (by omega) fun cached => ?_
  · apply costs_step (by omega)
    intro row
    cases row <;> trivial
  cases cached with
  | some cached => trivial
  | none =>
    refine costs_bind (n := 2) (costs_step (by omega) fun _ => costs_call (by omega)) (by omega) ?_
    intro _
    refine costs_bind (n := 1) (costs_step (by omega) fun _ => trivial) (by omega) ?_
    intro isSuccessful
    apply costs_step (by omega)
    intro createdAt
    refine costs_withSession (n := 4) (costs_withBegin (n := 2) ?_ (by omega)) (by omega)
    apply costs_step (by omega)
    intro inserted
    cases inserted with
    | some isSuccessful => trivial
    | none =>
      apply costs_step (by omega)
      intro existing
      cases existing <;> trivial

theorem costs_save (p : Payment) : Costs (SqlPaymentRepository.save p) 2 := by
  apply costs_step (by omega)
  intro row
  cases row with
  | none => trivial
  | some row => exact costs_call (by omega)

theorem costs_complete (payment : Payment) (result : GatewayResult) :
    Costs (ChargePayment.complete payment result) 7 := by
  refine costs_withUow (n := 5) ?_ (by omega)
  refine costs_bind (n := 1) (costs_step (by omega) fun row => costs_toPayment row) (by omega) ?_
  intro found
  cases found with
  | none => trivial
  | some current =>
    dsimp only
    split
    · refine costs_step (by omega) fun now => costs_free costs_orRaise ?_
      intro settled
      apply costs_bind (costs_save settled) (by omega)
      intro _
      exact costs_step (by omega) fun _ => trivial
    · trivial

theorem costs_processPayment (id : UUID) (messageId : Option UUID) :
    Costs (ProcessPayment.execute py id messageId) 30 := by
  refine costs_bind (n := 3) ?_ (by omega) fun duplicate => ?_
  · cases messageId with
    | none => trivial
    | some m =>
      exact costs_withUow (n := 1) (costs_step (by omega) fun _ => trivial) (by omega)
  split
  · trivial
  refine costs_bind (n := 21) ?_ (by omega) fun payment => ?_
  · apply costs_bind (costs_load id) (by omega)
    intro payment
    split
    · trivial
    · exact costs_bind (costs_gateway payment) (by omega) fun result =>
        (costs_complete payment result).mono (by omega) fun _ h => h
  refine costs_bind (n := 1) ?_ (by omega) fun _ => ?_
  · refine costs_free costs_orRaise fun _ => costs_bind (n := 1) (costs_tryCatch (n := 1)
      (costs_call (by omega)) (by omega) ?_) (by omega) fun _ => costs_orRaise
    intro e
    split <;> trivial
  · split
    · trivial
    · exact costs_withUow (n := 3) (costs_step (by omega) fun now => costs_step (by omega)
        fun _ => costs_call (by omega)) (by omega)

theorem costs_dispatch (msg : Message) :
    Costs (PaymentMessageDispatcher.dispatch py msg) 32 := by
  refine costs_bind (n := 30) (costs_tryCatch (n := 30) (costs_bind (n := 30) ?_ (by omega)
    fun _ => trivial) (by omega) fun e => ?_) (by omega) fun failure => ?_
  · exact costs_free costs_orRaise fun id => costs_processPayment id _
  · split <;> trivial
  · split
    · exact costs_call (by omega)
    · refine costs_bind (n := 1) (costs_tryCatch (n := 1) (costs_free costs_orRaise fun count =>
        costs_bind (n := 1) ?_ (by omega) fun _ => trivial) (by omega) fun e => ?_) (by omega)
        fun routed => ?_
      · unfold FailureRouter.route
        split
        · exact costs_call (by omega)
        · -- the default policy draws no bits
          refine costs_free ?_ fun bits => costs_free costs_orRaise fun delay =>
            costs_call (by omega)
          trivial
      · split <;> trivial
      · split <;> exact costs_call (by omega)

/-! ## The relay -/

/-- A batch of records, at most. -/
abbrev BatchOf (worker : PublishOutbox) : Except Exc (List OutboxRecord) → Prop :=
  Yields fun records => records.length ≤ worker.batchSize

theorem within_claimBatch (worker : PublishOutbox) (now staleBefore : Time) :
    (SqlOutboxQueue.claimBatch worker.batchSize now staleBefore).Within Op.Batched (BatchOf worker)
      2 := by
  refine Prog.Within.bind (n := 1) (Q := Yields fun rows => rows.length ≤ worker.batchSize)
    (Prog.within_perform (by omega) ?_) (by omega) ?_ fun _ _ _ he => by cases he
  · rintro r hr rows rfl
    exact hr
  · intro rows hrows
    split
    · rintro _ ⟨⟩
      exact Nat.zero_le _
    · refine Prog.Within.bind (costs_call Nat.one_pos) (by omega) ?_ fun _ _ _ he => by cases he
      rintro _ - _ ⟨⟩
      rw [List.length_map]
      exact hrows rows rfl

/-- **A claim** returns a batch at most. -/
theorem within_claim (worker : PublishOutbox) :
    worker.claim.Within Op.Batched (BatchOf worker) 6 := by
  refine Prog.Within.bind (costs_call Nat.one_pos) (by omega) ?_ fun _ _ _ he => by cases he
  intro now _
  refine within_withUow (n := 3) ?_ (by omega)
  refine Prog.Within.bind (n := 0) costs_orRaise (by omega) ?_ fun _ _ _ he => by cases he
  intro staleBefore _
  refine Prog.Within.bind (within_claimBatch worker now _) (by omega) ?_ fun _ _ _ he => by cases he
  intro records hrecords
  split
  · refine Prog.Within.bind (costs_call Nat.one_pos) (by omega) ?_ fun _ _ _ he => by cases he
    rintro _ - _ ⟨⟩
    exact hrecords records rfl
  · exact hrecords

theorem costs_attempt (worker : PublishOutbox) (record : OutboxRecord) :
    Costs (PublishOutbox.attempt py worker record) 14 := by
  have hdelay : ∀ bits, Costs (orRaise (worker.backoff.delayFor (record.retryCount + 1) bits) >>=
      fun delay => orRaise (timedeltaSeconds delay)) 0 := fun bits =>
    costs_free costs_orRaise fun delay => costs_orRaise
  have hdeliver : Costs (PublishOutbox.deliver py record) 6 := by
    refine costs_bind (n := 1) (costs_free costs_orRaise fun _ => costs_call (by omega)) (by omega)
      fun _ => costs_withUow (n := 3) ?_ (by omega)
    exact costs_step (by omega) fun now => costs_step (by omega) fun _ => costs_call (by omega)
  have hretry : Costs (worker.retryOrFail record) 6 := by
    refine costs_step (by omega) fun now => costs_bind (n := 1) ?_ (by omega) fun next => ?_
    · unfold PublishOutbox.nextAttempt
      split
      · exact costs_step (by omega) fun _ => trivial
      · refine costs_bind (n := 1) ?_ (by omega) fun delay =>
          costs_free costs_orRaise fun _ => trivial
        unfold PublishOutbox.retryDelay
        split
        · exact costs_step (by omega) hdelay
        · exact (hdelay _).mono (by omega) fun _ h => h
    · exact costs_withUow (n := 2) (costs_step (by omega) fun _ => costs_call (by omega))
        (by omega)
  refine costs_bind (n := 13) (costs_tryCatch (n := 6) (costs_bind hdeliver (by omega)
    fun _ => trivial) (by omega) fun e => ?_) (by omega) fun delivered => ?_
  · split
    · exact costs_step (by omega) fun _ => costs_bind hretry (by omega) fun _ => trivial
    · trivial
  · split
    · exact costs_step (by omega) fun _ => trivial
    · trivial

theorem costs_attemptAll (worker : PublishOutbox) (records : List OutboxRecord) :
    ∀ published, Costs (PublishOutbox.attemptAll py worker records published)
      (14 * records.length) := by
  induction records with
  | nil => exact fun _ => trivial
  | cons record records ih =>
    intro published
    have hlength : 14 * (record :: records).length - 14 = 14 * records.length := by
      rw [List.length_cons]
      omega
    apply costs_bind (costs_attempt worker record) (by rw [List.length_cons]; omega)
    intro _
    rw [hlength]
    exact ih _

theorem costs_purge (retention : Int) (batchSize : Nat) :
    Costs (PurgeProcessedOutbox.execute retention batchSize) 5 :=
  costs_step (by omega) fun now => costs_free costs_orRaise fun cutoff =>
    costs_withUow (n := 2) (costs_step (by omega) fun _ => costs_call (by omega)) (by omega)

theorem costs_publishOutbox (worker : PublishOutbox) :
    Costs (worker.execute py) (15 + 14 * worker.batchSize) := by
  refine Prog.Within.bind (within_claim worker) (by omega) ?_ fun _ _ => trivial
  intro records hrecords
  have hlength := hrecords records rfl
  refine Prog.Within.tryFinally (n := 5 + 14 * worker.batchSize) ?_ (by omega) ?_
  · split
    · exact (costs_bind (costs_purge _ _) (by omega) fun _ => trivial)
    · exact (costs_attemptAll worker records 0).mono (by omega) fun _ h => h
  · exact costs_bind (n := 4) (costs_withUow (n := 2) (costs_step (by omega)
      fun _ => costs_step (by omega) fun _ => trivial) (by omega)) (by omega) fun _ => trivial

end PaymentProcessing
