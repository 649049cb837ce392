import PaymentProcessing.Protocol.Charging

/-!
# Processing a payment and consuming a message

A process that executes `ProcessPayment` works only if its message id was missing in the inbox,
sends at most one webhook, with the committed outcome, and remembers its message only after a
webhook was answered with success. A consumer acknowledges its message only when it is processed
or forwarded.
-/

namespace PaymentProcessing

open Python Relational Concurrency World

variable {py : Platform} {i : Nat}

/-! ## Charging sends no webhook -/

theorem only_toPayment {φ : Op → Prop} (row : Option PaymentModel) :
    (SqlPaymentRepository.toPayment row).Only φ := by
  cases row with
  | none => trivial
  | some row => exact .bind (Prog.only_ofExcept _) fun _ => trivial

/-- The operations of the gateway. -/
def Op.ofGateway : Op → Prop
  | .getCharge _ | .insertCharge _ | .now | .random | .sleep | .commit | .rollback | .close => True
  | _ => False

theorem only_gateway (payment : Payment) :
    (RandomPaymentGateway.charge py payment).Only Op.ofGateway := by
  have hcall : ∀ {op : Op}, op.ofGateway → (call op).Only Op.ofGateway := Prog.only_perform.2
  refine .bind (only_withSession trivial (.bind (hcall trivial) fun row => ?_)) fun cached => ?_
  · cases row <;> trivial
  cases cached with
  | some r => trivial
  | none =>
    refine .bind (.bind (hcall trivial) fun _ => hcall trivial) ?_
    intro _
    refine .bind (.bind (hcall trivial) fun _ => trivial) ?_
    intro _
    refine .bind (hcall trivial) ?_
    intro _
    refine only_withSession trivial (only_withBegin trivial trivial ?_)
    refine .bind (hcall trivial) ?_
    intro inserted
    cases inserted with
    | some b => trivial
    | none => exact .bind (hcall trivial) fun row => by cases row <;> trivial

/-- Charging sends no webhook. -/
theorem only_chargePayment (id : UUID) : (ChargePayment.execute py id).Only Op.notPost := by
  have hcall : ∀ {op : Op}, op.notPost → (call op).Only Op.notPost := Prog.only_perform.2
  refine .bind (only_withUow trivial trivial ?_) fun p => ?_
  · refine .bind (.bind (hcall trivial) fun row => only_toPayment row) ?_
    intro p
    cases p <;> trivial
  split
  · trivial
  refine .bind ?_ fun result => only_withUow trivial trivial ?_
  · refine (only_gateway p).mono ?_
    intro op hop
    cases op <;> trivial
  · refine .bind (.bind (hcall trivial) fun row => only_toPayment row) ?_
    intro p
    cases p with
    | none => trivial
    | some p =>
      dsimp only
      split
      · refine .bind (hcall trivial) fun _ => .bind (Prog.only_ofExcept _) ?_
        intro q
        refine .bind (.bind (hcall trivial) fun row => ?_) fun _ => .bind (hcall trivial) fun _ =>
          trivial
        cases row with
        | none => trivial
        | some row => exact hcall trivial
      · trivial

/-! ## The inbox -/

theorem runs_hasSeen (m : UUID) :
    Runs py i (Started i) (ProcessedMessageInbox.hasSeen m)
      (fun a s => (a = true → s.Seen m) ∧ (a = false → s.Did i (.getInbox m) (.ok none)))
      notMissing := by
  refine Runs.withUow (fun s h => h) notMissing_fault ?_
  refine Spec.bind (A := fun a s => (∀ row, a = some row → s.Seen m) ∧
    s.Did i (.getInbox m) (.ok a)) (Spec.weaken (Spec.read (C := fun a s => ∀ row, a = some row →
    s.Seen m) rfl notMissing_fault (fun s _ h => ⟨h.1, (fun hw => by cases hw), trivial⟩) ?_)
    (fun _ _ h => h) (fun _ _ _ h => ⟨h.2.2, h.2.1⟩) fun _ _ _ h => h) fun a => ?_
  · intro a c s s₁ _ h he row hrow
    subst hrow
    simp only [effect, view, h.2, Tables.writeAll_nil, Option.some.injEq, Prod.mk.injEq,
      Except.ok.injEq] at he
    exact ⟨row, he.1⟩
  · cases a with
    | none => exact Spec.ret fun s _ h => ⟨(fun ha => by cases ha), fun _ => h.2⟩
    | some row => exact Spec.ret fun s _ h => ⟨fun _ => h.1 row rfl, fun ha => by cases ha⟩

theorem runs_isDuplicate (id : UUID) (messageId : Option UUID) :
    Runs py i (fun s => s.Started i ∧ s.Executes py i id messageId)
      (ProcessPayment.isDuplicate messageId)
      (fun a s => (a = true → ∃ m, messageId = some m ∧ s.Seen m) ∧
        (a = false → s.Working py i)) notMissing := by
  cases messageId with
  | none =>
    exact Runs.ret fun s _ h => ⟨(fun ha => by cases ha), fun _ => ⟨h.1, .inr ⟨id, none, h.2,
      fun m hm => by cases hm⟩⟩⟩
  | some m =>
    refine Runs.weaken (Runs.frame (F := fun s => s.Started i ∧ s.Executes py i id (some m))
      (runs_hasSeen m)) (fun _ _ h => ⟨h.1, h⟩) (fun a s _ h => ?_) fun _ _ _ h => h.1
    refine ⟨fun ha => ⟨m, rfl, h.1.1 ha⟩, fun ha => ⟨h.2.1, .inr ⟨id, some m, h.2.2, ?_⟩⟩⟩
    intro m' hm'
    cases hm'
    exact h.1.2 ha

theorem runs_remember (id m : UUID) :
    Runs py i (fun s => s.Working py i ∧ s.Executes py i id (some m) ∧ s.Posted i id)
      (ProcessedMessageInbox.remember m) (fun _ s => s.Seen m) notMissing := by
  refine Runs.withUow (fun s h => h.1.1) notMissing_fault ?_
  apply Spec.bind (Spec.skip rfl notMissing_fault fun s _ h => req_of_working rfl h.1.1)
  intro now
  let row : InboxModel := { messageId := m, processedAt := now }
  refine Spec.bind (A := fun _ s => ((s.staged i = [.insertInbox row] ∧ Rememberable i m s) ∨
    (s.staged i = [] ∧ s.Seen m)) ∧ s.Working py i ∧ s.Executes py i id (some m) ∧ s.Posted i id)
    ?_ fun _ => ?_
  · refine Spec.weaken (Spec.frame (F := fun s => s.Working py i ∧
      s.Executes py i id (some m) ∧ s.Posted i id) (P := fun s => s.Working py i ∧ s.staged i = [])
      (A := fun _ s => (s.staged i = [.insertInbox row] ∧ Rememberable i m s) ∨
        (s.staged i = [] ∧ s.Seen m))
      (E := notMissing) ?_) (fun _ _ h => ⟨⟨h.1.1, h.2⟩, h.1⟩) (fun _ _ _ h => h) fun _ _ _ h => h.1
    refine Spec.call (fun s _ h => req_of_working rfl h.1)
      (fun a c s s' _ h hd _ => insertInbox_ok h.2 hd) ?_
    intro e c s s' _ _ hd _
    obtain ⟨f, rfl⟩ := exec_error (by simp) hd
    exact notMissing_fault f s'
  · have hnew : Spec py i (fun s => (s.staged i = [.insertInbox row] ∧ Rememberable i m s) ∧
        s.Working py i ∧ s.Executes py i id (some m) ∧ s.Posted i id) (call .commit)
        (Ends (fun _ s => s.Seen m) notMissing) := by
      refine Spec.weaken (Spec.commit (C := Seen m) notMissing_fault (fun _ h => h.2.1)
        (fun _ h => h.1.1) (fun s _ h => .remember row id h.1.2.1 h.1.2.2 h.2.2.1 h.2.2.2)
        fun s r _ h => ⟨row, ?_⟩) (fun _ _ h => h) (fun _ _ _ h => h.2) fun _ _ _ h => h
      show ((s.db.writeAll (s.staged i)).inbox).find? m = some row
      rw [h.1.1]
      exact (Table.find?_insert (r := row) h.1.2.2 _).trans (if_pos rfl)
    have hold : Spec py i (fun s => (s.staged i = [] ∧ s.Seen m) ∧ s.Working py i ∧
        s.Executes py i id (some m) ∧ s.Posted i id) (call .commit)
        (Ends (fun _ s => s.Seen m) notMissing) :=
      Spec.weaken (Spec.frame (F := Seen m) (Spec.commit (C := fun _ => True)
        (P := fun s => s.staged i = [] ∧ s.Working py i) notMissing_fault (fun _ h => h.2)
        (fun _ h => h.1) (fun _ _ _ => .nothing) fun _ _ _ _ => trivial))
        (fun _ _ h => ⟨⟨h.1.1, h.2.1⟩, h.1.2⟩) (fun _ _ _ h => h.2) fun _ _ _ h => h.1
    exact fun s hi h => h.1.elim (fun h' => hnew s hi ⟨h', h.2⟩) fun h' => hold s hi ⟨h', h.2⟩

/-! ## The webhook -/

theorem notMissing_webhookUrl {value : String} {e : Exc} {s : World}
    (h : webhookUrl py value = .error e) : notMissing e s := by
  intro id
  unfold webhookUrl at h
  split at h
  · cases h; simp [missingCharge]
  · split_ifs at h
    · cases h; simp [missingCharge]
    · cases h; simp [missingCharge]
    · cases h; simp [missingCharge]
    · dsimp only at h
      split at h
      · cases h; simp [missingCharge]
      · cases h

theorem notMissing_raiseForStatus {status : Nat} {e : Exc} {s : World}
    (h : WebhookErrorMapper.raiseForStatus status = .error e) : notMissing e s := by
  intro id
  unfold WebhookErrorMapper.raiseForStatus at h
  split_ifs at h <;> (cases h; simp [missingCharge])

theorem raiseForStatus_ok {status : Nat} (h : WebhookErrorMapper.raiseForStatus status = .ok ()) :
    200 ≤ status ∧ status < 300 := by
  unfold WebhookErrorMapper.raiseForStatus at h
  split_ifs at h with hs
  simpa [WebhookErrorMapper.isSuccess] using hs

/-- The webhook itself, sent once and with the committed outcome. -/
theorem spec_post (p : Payment) (messageId : Option UUID) :
    Spec py i (fun s => ((s.Working py i ∧ s.Executes py i p.id messageId ∧ s.Settled p) ∧
        s.DidOnly Op.notPost i) ∧ s.staged i = [])
      (call (.post p.webhookUrl (WebhookPayload.build py p) p.id.str))
      (Ends (fun status s => s.Did i (.post p.webhookUrl (WebhookPayload.build py p) p.id.str)
        (.ok status) ∧ s.staged i = []) fun e s => (∃ f, e = Fault.toExc f) ∧ s.staged i = []) := by
  refine Spec.call (fun s _ h => ?_) (fun a c s s' _ h hd _ => ?_) fun e c s s' _ h hd _ => ?_
  · obtain ⟨⟨⟨hw, hx, hset⟩, hn⟩, -⟩ := h
    exact ⟨hw.1, fun _ => hw.2, .outcome p messageId hx hset.1 hset.2 hn⟩
  · obtain ⟨hsame, hdid, -⟩ := exec_read rfl hd
    exact ⟨hdid, hsame.staged.trans h.2⟩
  · obtain ⟨hsame, -, -⟩ := exec_read rfl hd
    exact ⟨exec_error (by simp) hd, hsame.staged.trans h.2⟩

/-- **A webhook tells the committed outcome, and its success is in the log.** -/
theorem runs_deliverWebhook (p : Payment) (messageId : Option UUID) :
    Runs py i (fun s => (s.Working py i ∧ s.Executes py i p.id messageId ∧ s.Settled p) ∧
        s.DidOnly Op.notPost i) (DeliverWebhook.execute py p) (fun _ s => s.Posted i p.id)
      notMissing := by
  refine Runs.bind (A := fun _ s => (s.Working py i ∧ s.Executes py i p.id messageId ∧
    s.Settled p) ∧ s.DidOnly Op.notPost i) (Runs.orRaise (fun _ _ _ _ h => h)
    fun e s he _ _ => notMissing_webhookUrl he) ?_
  intro _
  refine Runs.bind (A := fun status s => s.Did i
    (.post p.webhookUrl (WebhookPayload.build py p) p.id.str) (.ok status)) ?_ fun status => ?_
  · refine Discipline.Triple.post (Q := Ends _ fun e s => notMissing e s ∧ s.staged i = [])
      (Spec.tryCatch (spec_post p messageId) fun e => ?_) fun r s _ hr => ?_
    · split
      · exact Spec.raise fun s _ h => ⟨fun id => by simp [WebhookErrorMapper.mapTimeout,
          missingCharge], h.2⟩
      · exact Spec.raise fun s _ h => ⟨fun id => by simp [WebhookErrorMapper.mapTransport,
          missingCharge], h.2⟩
      · refine Spec.raise fun s _ h => ⟨?_, h.2⟩
        obtain ⟨f, rfl⟩ := h.1
        exact notMissing_fault f s
    · cases r with
      | ok a => exact hr
      | error e => exact hr
  · refine Runs.orRaise (fun a s ha _ h => ?_) fun e s he _ _ => notMissing_raiseForStatus he
    exact ⟨_, _, status, h, raiseForStatus_ok (by rw [ha])⟩

/-! ## Processing -/

/-- **A process that executes `ProcessPayment` and returns has got its message processed.** -/
theorem runs_processPayment (id : UUID) (messageId : Option UUID) :
    Runs py i (fun s => (s.Started i ∧ s.Executes py i id messageId) ∧ s.DidOnly Op.notPost i)
      (ProcessPayment.execute py id messageId)
      (fun _ s => s.Handled py i ∧ ∀ m, messageId = some m → s.Seen m) notMissing := by
  have hdup : (ProcessPayment.isDuplicate messageId).Only Op.notPost := by
    cases messageId with
    | none => trivial
    | some m =>
      exact only_withUow trivial trivial (.bind (Prog.only_perform.2 trivial) fun _ => trivial)
  have hframe := Runs.didOnly hdup (Runs.frame (F := Executes py i id messageId)
    (runs_isDuplicate id messageId : Runs py i _ _ _ _))
  refine Runs.bind (Runs.weaken hframe (fun _ _ h => ⟨⟨h.1, h.1.2⟩, h.2⟩) (fun _ _ _ h => h)
    fun _ _ _ h => h.1.1) ?_
  intro duplicate
  cases duplicate with
  | true =>
    apply Runs.ret
    intro s _ h
    obtain ⟨m, hm, hseen⟩ := h.1.1.1 rfl
    refine ⟨⟨id, messageId, h.1.2, .inr ⟨m, hm, hseen⟩⟩, fun m' hm' => ?_⟩
    cases hm.symm.trans hm'
    exact hseen
  | false =>
    have hcharge := Runs.didOnly (only_chargePayment id) (Runs.frame
      (F := fun s => s.Working py i ∧ s.Executes py i id messageId)
      (runs_chargePayment id : Runs py i _ _ _ _))
    refine Runs.bind (Runs.weaken hcharge
      (fun _ _ h => ⟨⟨h.1.1.2 rfl, h.1.1.2 rfl, h.1.2⟩, h.2⟩) (fun _ _ _ h => h)
      fun _ _ _ h => h.1.1) ?_
    intro p
    refine Runs.pre (P := fun s => ((s.Working py i ∧ s.Executes py i p.id messageId ∧
      s.Settled p) ∧ s.DidOnly Op.notPost i) ∧ p.id = id) (Runs.of_pure fun hid => ?_)
      fun s _ h => ⟨⟨⟨h.1.2.1, by rw [h.1.1.1]; exact h.1.2.2, h.1.1.2⟩, h.2⟩, h.1.1.1⟩
    subst hid
    refine Runs.bind (A := fun _ s => s.Working py i ∧ s.Executes py i p.id messageId ∧
      s.Posted i p.id) (Runs.weaken (Runs.frame (F := fun s => s.Working py i ∧
      s.Executes py i p.id messageId) (runs_deliverWebhook p messageId))
      (fun _ _ h => ⟨h, h.1.1, h.1.2.1⟩) (fun _ _ _ h => ⟨h.2.1, h.2.2, h.1⟩)
      fun _ _ _ h => h.1) ?_
    intro _
    cases messageId with
    | none =>
      exact Runs.ret fun s _ h => ⟨⟨p.id, none, h.2.1, .inl h.2.2⟩, fun m hm => by cases hm⟩
    | some m =>
      refine Runs.weaken (Runs.frame (F := fun s => s.Executes py i p.id (some m) ∧
        s.Posted i p.id) (runs_remember p.id m)) (fun _ _ h => ⟨h, h.2⟩)
        (fun _ s _ h => ⟨⟨p.id, some m, h.2.1, .inl h.2.2⟩, fun m' hm' => ?_⟩) fun _ _ _ h => h.1
      cases hm'
      exact h.1

/-! ## Consuming -/

/-- A consumer whose handler returns has got its message processed. -/
theorem runs_handle (msg : Message) :
    Runs py i (fun s => (s.Started i ∧ s.Logged (.delivered i msg)) ∧ s.DidOnly Op.notPost i)
      (PaymentMessageHandler.handle py msg) (fun _ s => s.Handled py i) anyExc := by
  refine Runs.bind (A := fun id s => (s.Started i ∧ s.Executes py i id
    (InboundPaymentMessage.parseOutboxId py msg)) ∧ s.DidOnly Op.notPost i)
    (Runs.orRaise (fun id s hid _ h => ?_) fun _ _ _ _ _ => trivial) fun id => ?_
  · exact ⟨⟨h.1.1, .inr ⟨msg, h.1.2, hid, rfl⟩⟩, h.2⟩
  · exact Runs.post (runs_processPayment _ _) (fun _ _ _ h => h.1) fun _ _ _ _ => trivial

/-- What the failure router publishes is a copy of the message. -/
theorem runs_publishCopy {msg : Message} {key : RoutingKey} {headers : Headers}
    {expiration : Option Int} (hlegit : ∀ s : World, s.Logged (.delivered i msg) →
      PublishLegit py i s key msg.body headers) (hkey : key ≠ .new) :
    Runs py i (fun s => s.Started i ∧ s.Logged (.delivered i msg))
      (call (.publish key msg.body headers expiration)) (fun _ s => s.Forwarded i) anyExc :=
  Runs.post_ok (Runs.read (C := fun _ _ => True) rfl (fun _ _ => trivial)
    (fun s _ h => ⟨h.1, (fun hw => by cases hw), hlegit s h.2⟩) fun _ _ _ _ _ _ _ _ => trivial)
    fun _ _ _ h => ⟨msg, key, headers, expiration, h.1.2, hkey, h.2.1⟩

/-- **A message whose failure is routed has been forwarded.** -/
theorem runs_route (msg : Message) (retryCount : Int) (error : Exc)
    (hcount : InboundPaymentMessage.parseRetryCount msg.headers = .ok retryCount) :
    Runs py i (fun s => s.Started i ∧ s.Logged (.delivered i msg))
      (FailureRouter.route .default msg retryCount error) (fun _ s => s.Forwarded i) anyExc := by
  unfold FailureRouter.route
  split
  · exact runs_publishCopy (fun s h => .dlq msg h) (by simp)
  · refine Runs.bind (A := fun _ s => s.Started i ∧ s.Logged (.delivered i msg))
      (Runs.ret fun _ _ h => h) ?_
    intro bits
    refine Runs.bind (A := fun _ s => s.Started i ∧ s.Logged (.delivered i msg))
      (Runs.orRaise (fun _ _ _ _ h => h) fun _ _ _ _ _ => trivial) ?_
    intro delay
    exact runs_publishCopy (fun s h => .retry msg retryCount h hcount) (by simp)

theorem runs_ack (P : World → Prop) [Steady py i P]
    (hP : ∀ s, P s → s.Started i ∧ (s.Forwarded i ∨ s.Handled py i)) :
    Runs py i P (call .ack) (fun _ _ => True) anyExc :=
  Runs.post_ok (Runs.skip rfl (fun _ _ => trivial) fun s _ h =>
    ⟨(hP s h).1, (fun hw => by cases hw), (hP s h).2⟩) fun _ _ _ _ => trivial

theorem runs_routeFailure (msg : Message) (error : Exc) :
    Runs py i (fun s => s.Started i ∧ s.Logged (.delivered i msg))
      (PaymentMessageDispatcher.routeFailure msg error) (fun _ _ => True) anyExc := by
  refine Runs.bind (A := fun routed s => s.Started i ∧ (routed = true → s.Forwarded i)) ?_
    fun routed => ?_
  · refine Runs.tryCatch (E := fun _ s => s.Started i) ?_ fun e => ?_
    · refine Runs.bind (A := fun retryCount s => (s.Started i ∧ s.Logged (.delivered i msg)) ∧
        InboundPaymentMessage.parseRetryCount msg.headers = .ok retryCount)
        (Runs.orRaise (fun _ _ hcount _ h => ⟨h, hcount⟩) fun _ _ _ _ h => h.1) fun retryCount => ?_
      refine Runs.of_pure fun hcount => ?_
      refine Runs.bind (Runs.weaken (Runs.frame (F := Started i)
        (runs_route msg retryCount error hcount : Runs py i _ _ _ _)) (fun _ _ h => ⟨h, h.1⟩)
        (fun _ _ _ h => h) fun _ _ _ h => h.2) ?_
      intro _
      exact Runs.ret fun s _ h => ⟨h.2, fun _ => h.1⟩
    · split
      · exact Runs.ret fun s _ h => ⟨h, fun hf => by cases hf⟩
      · exact Runs.raise fun _ _ _ => trivial
  · cases routed with
    | true => exact runs_ack _ fun s h => ⟨h.1, .inl (h.2 rfl)⟩
    | false =>
      exact Runs.post_ok (Runs.skip rfl (fun _ _ => trivial) fun s _ h =>
        ⟨h.1, (fun hw => by cases hw), trivial⟩) fun _ _ _ _ => trivial

/-- **A message is acknowledged only when it is processed or forwarded.** -/
theorem runs_dispatch (msg : Message) :
    Runs py i (fun s => (s.Started i ∧ s.Logged (.delivered i msg)) ∧ s.DidOnly Op.notPost i)
      (PaymentMessageDispatcher.dispatch py msg) (fun _ _ => True) anyExc := by
  refine Runs.bind (A := fun failure s => (s.Started i ∧ s.Logged (.delivered i msg)) ∧
    (failure = none → s.Handled py i)) ?_ fun failure => ?_
  · refine Runs.tryCatch (E := fun _ s => s.Started i ∧ s.Logged (.delivered i msg)) ?_
      fun e => ?_
    · refine Runs.bind (Runs.weaken (Runs.frame (F := fun s => s.Started i ∧
        s.Logged (.delivered i msg)) (runs_handle msg : Runs py i _ _ _ _))
        (fun _ _ h => ⟨h, h.1⟩) (fun _ _ _ h => h) fun _ _ _ h => h.2) ?_
      intro _
      exact Runs.ret fun s _ h => ⟨h.2, fun _ => h.1⟩
    · split
      · exact Runs.ret fun s _ h => ⟨h, fun hf => by cases hf⟩
      · exact Runs.raise fun _ _ _ => trivial
  · cases failure with
    | none => exact runs_ack _ fun s h => ⟨h.1.1, .inr (h.2 rfl)⟩
    | some error =>
      exact Runs.pre (runs_routeFailure msg error) fun _ _ h => h.1

end PaymentProcessing
