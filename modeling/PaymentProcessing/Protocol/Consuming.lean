import PaymentProcessing.Application.Delays
import PaymentProcessing.Guarantees.Messages
import PaymentProcessing.Guarantees.WebhookCalls

/-!
# Why a consumer gives its message up

The history of a consumer shows why the handling of its message failed: an operation raised, or the
webhook was refused (`Cause`). Nothing else can make it raise, since the message names its payment,
the payment is in the table, and its url passes the guard. So `Consumes` says of each message that
is forwarded why it was, and that the consumer forwards once.
-/

namespace PaymentProcessing

open Python Relational Concurrency World

variable {py : Platform} {A : Allowed} {i : Nat} {y y' : Config} {msg : Message} {id : UUID}
  {α β : Type} {h h' : History}

/-! ## Histories -/

/-- The message is still being handled. -/
def Handling (h : History) : Prop := ∀ op r, ⟨op, r⟩ ∈ h → op.ofProcess

/-- The row of the payment was not written. -/
def Unwritten (h : History) : Prop := ∀ row r, ⟨.updatePayment row, r⟩ ∉ h

/-- Why the handling of a message raises. -/
inductive Cause (h : History) (e : Exc) : Prop where
  | failed (op : Op) (f : Fault) (mem : ⟨op, .error f.toExc⟩ ∈ h)
      (retryable : RetryPolicy.isRetryable e = true)
  | refused (url : String) (payload : WebhookPayload) (key : String) (status : Nat)
      (mem : ⟨.post url payload key, .ok status⟩ ∈ h)
      (refused : WebhookErrorMapper.raiseForStatus status = .error e)

theorem Cause.mono {e : Exc} (hc : Cause h e) (hsub : h ⊆ h') : Cause h' e := by
  cases hc with
  | failed op f mem retryable => exact .failed op f (hsub mem) retryable
  | refused url payload key status mem refused =>
    exact .refused url payload key status (hsub mem) refused

theorem Handling.cons {op : Op} {r : Except Exc (Res op)} (hh : Handling h) (hop : op.ofProcess) :
    Handling (⟨op, r⟩ :: h) := by
  intro op' r' hm
  rcases List.mem_cons.1 hm with he | hm
  · cases he
    exact hop
  · exact hh op' r' hm

theorem Unwritten.cons {op : Op} {r : Except Exc (Res op)} (hu : Unwritten h)
    (hop : ∀ row, op ≠ .updatePayment row) : Unwritten (⟨op, r⟩ :: h) := by
  intro row r' hm
  rcases List.mem_cons.1 hm with he | hm
  · cases he
    exact hop row rfl
  · exact hu row r' hm

/-! ## What is answered and what is done -/

/-- The row is that of the payment, whose url passes the guard. -/
def FindsGuarded (py : Platform) (id : UUID) (row : Option PaymentModel) : Prop :=
  ∃ p, row = some (PaymentMapper.toModel p) ∧ p.id = id ∧ Guarded py p.webhookUrl

/-- What the operations of a consumer are answered. -/
def Answers (py : Platform) (id : UUID) (h : History) : (op : Op) → Except Exc (Res op) → Prop
  | _, .error e => ∃ f : Fault, e = f.toExc
  | .getPayment _, .ok row => FindsGuarded py id row
  | .selectPaymentForUpdate _, .ok row => FindsGuarded py id row
  | .getCharge paymentId, .ok row => row = none →
    ∀ charge, ⟨.insertCharge charge, .ok none⟩ ∈ h → charge.paymentId ≠ paymentId
  | _, .ok _ => True

theorem Answers.fault {op : Op} {e : Exc} (ha : Answers py id h op (.error e)) :
    ∃ f : Fault, e = f.toExc := by
  cases op <;> exact ha

/-- A message that is forwarded, and why. -/
inductive Forwards (msg : Message) (h : History) :
    RoutingKey → List (String × Json) → Headers → Prop where
  | dlq (e : Exc) (count : Int) (cause : Cause h e)
      (counted : InboundPaymentMessage.parseRetryCount msg.headers = .ok count)
      (action : RetryPolicy.default.decideAction count e = .dlq) :
    Forwards msg h .dlq msg.body msg.headers
  | retry (e : Exc) (count : Int) (cause : Cause h e)
      (counted : InboundPaymentMessage.parseRetryCount msg.headers = .ok count)
      (action : RetryPolicy.default.decideAction count e = .retry) :
    Forwards msg h .retry msg.body
      (FailureRouter.setHeader msg.headers retryCountHeader (.int (count + 1)))

/-- What a consumer does after this history. -/
def Consumes (msg : Message) (id : UUID) (h : History) : Op → Prop
  | .getPayment paymentId | .selectPaymentForUpdate paymentId => paymentId = id ∧ Unwritten h
  | .publish key body headers _ => Handling h ∧ Forwards msg h key body headers
  | .reject => ∃ key body headers expiration e,
    ⟨.publish key body headers expiration, .error e⟩ ∈ h
  | op => op.ofConsumer

/-- The handling goes on with `B`, or raises for a cause. -/
def Proceeds (B : History → α → Prop) (h : History) : Except Exc α → Prop
  | .ok a => Handling h ∧ B h a
  | .error e => Handling h ∧ Cause h e

/-- A part of the handling of a message. -/
abbrev Handles (py : Platform) (msg : Message) (id : UUID) (B : History → α → Prop) (p : App α)
    (h : History) : Prop :=
  p.Along (Answers py id) (Consumes msg id) (Proceeds B) h

variable {B : History → α → Prop} {C : History → β → Prop}

/-! ## Rules -/

theorem Handles.bind {p : App α} {f : α → App β} (hp : Handles py msg id B p h)
    (hf : ∀ h a, Handling h → B h a → Handles py msg id C (f a) h) :
    Handles py msg id C (p.bind f) h :=
  Prog.Along.bind hp (fun h a hb => hf h a hb.1 hb.2) fun _ _ he => he

theorem handles_ret {a : α} (hh : Handling h) (hb : B h a) :
    Handles py msg id B (.ret a) h := ⟨hh, hb⟩

theorem retryable_fault (f : Fault) : RetryPolicy.isRetryable f.toExc = true := by
  cases f <;> rfl

/-- **One operation**: it raises for a cause, which is its own. -/
theorem handles_call {op : Op} {B : History → Res op → Prop} (hh : Handling h)
    (hop : op.ofProcess) (hdo : Consumes msg id h op)
    (hB : ∀ a, Answers py id h op (.ok a) → B (⟨op, .ok a⟩ :: h) a) :
    Handles py msg id B (call op) h := by
  refine Prog.along_perform hdo ?_
  intro r hr
  cases r with
  | ok a => exact ⟨hh.cons hop, hB a hr⟩
  | error e =>
    obtain ⟨f, rfl⟩ := hr.fault
    exact ⟨hh.cons hop, .failed op f (List.mem_cons_self ..) (retryable_fault f)⟩

/-- An operation that a handler performs before it raises again. -/
theorem handles_again {op : Op} {e : Exc} (hh : Handling h) (hop : op.ofProcess)
    (hdo : Consumes msg id h op) (hc : Cause h e) :
    Handles py msg id (fun h' _ => Cause h' e) (call op) h :=
  handles_call hh hop hdo fun _ _ => hc.mono (List.subset_cons_self _ _)

theorem handles_withUow {body : App α} (hp : Handles py msg id B body h)
    (hclose : ∀ h a r, B h a → B (⟨.close, r⟩ :: h) a) : Handles py msg id B (withUow body) h := by
  refine Handles.bind (B := B) (Prog.Along.tryCatch hp (fun h a hb => hb) fun h e he => ?_) ?_
  · refine Handles.bind (handles_again he.1 trivial trivial he.2) fun h _ hh hc => ?_
    exact Handles.bind (handles_again hh trivial trivial hc) fun h _ hh hc => ⟨hh, hc⟩
  · intro h a hh hb
    refine Handles.bind (B := fun h _ => B h a) (handles_call hh trivial trivial
      fun r _ => hclose h a _ hb) fun h _ hh hb => handles_ret hh hb

theorem handles_withSession {body : App α} (hp : Handles py msg id B body h)
    (hclose : ∀ h a r, B h a → B (⟨.close, r⟩ :: h) a) :
    Handles py msg id B (withSession body) h := by
  refine Prog.Along.tryFinally (S := fun r h x => Proceeds B h r ∧ ∀ e, x = .error e →
    Handling h ∧ Cause h e) hp (fun h r hr => ?_) (fun h r hs => hs.1) fun h r e hs => hs.2 e rfl
  have hh : Handling h := by
    cases r with
    | ok a => exact hr.1
    | error e => exact hr.1
  refine Prog.along_perform (φ := Consumes msg id) trivial ?_
  intro x hx
  refine ⟨?_, fun e he => ?_⟩
  · cases r with
    | ok a => exact ⟨hh.cons trivial, hclose h a x hr.2⟩
    | error e => exact ⟨hh.cons trivial, hr.2.mono (List.subset_cons_self _ _)⟩
  · subst he
    obtain ⟨f, rfl⟩ := hx.fault
    exact ⟨hh.cons trivial, .failed .close f (List.mem_cons_self ..) (retryable_fault f)⟩

theorem handles_withBegin {body : App α} (hp : Handles py msg id B body h)
    (hcommit : ∀ h a r, B h a → B (⟨.commit, r⟩ :: h) a) :
    Handles py msg id B (withBegin body) h := by
  have hagain : ∀ {γ : Type} {D : History → γ → Prop} {h : History} {e : Exc}, Handling h →
      Cause h e → Handles py msg id D ((call .rollback).bind fun _ => .raise e) h := fun hh hc =>
    Handles.bind (handles_again hh trivial trivial hc) fun h _ hh hc => ⟨hh, hc⟩
  refine Handles.bind (B := B) (Prog.Along.tryCatch hp (fun h a hb => hb) fun h e he =>
    hagain he.1 he.2) ?_
  intro h a hh hb
  refine Handles.bind (B := fun h _ => B h a) (Prog.Along.tryCatch (handles_call hh trivial trivial
    fun r _ => hcommit h a _ hb) (fun h a hb => hb) fun h e he => hagain he.1 he.2) ?_
  exact fun h _ hh hb => handles_ret hh hb

theorem handles_orRaise {r : Except Exc α} {a : α} (hr : r = .ok a) (hh : Handling h)
    (hb : B h a) : Handles py msg id B (orRaise r) h := by
  subst hr
  exact ⟨hh, hb⟩

/-! ## The parts of the handling -/

/-- The payment that was read, before anything was written. -/
def Loaded (py : Platform) (id : UUID) (h : History) (p : Payment) : Prop :=
  Unwritten h ∧ p.id = id ∧ Guarded py p.webhookUrl

/-- The payment whose webhook is sent. -/
def Ready (py : Platform) (id : UUID) (_ : History) (p : Payment) : Prop :=
  p.id = id ∧ Guarded py p.webhookUrl

theorem Loaded.cons {op : Op} {r : Except Exc (Res op)} {p : Payment} (hl : Loaded py id h p)
    (hop : ∀ row, op ≠ .updatePayment row) : Loaded py id (⟨op, r⟩ :: h) p :=
  ⟨hl.1.cons hop, hl.2⟩

theorem handles_isDuplicate (hh : Handling h) (hu : Unwritten h) (messageId : Option UUID) :
    Handles py msg id (fun h _ => Unwritten h) (ProcessPayment.isDuplicate messageId) h := by
  cases messageId with
  | none => exact handles_ret hh hu
  | some m =>
    refine handles_withUow (Handles.bind (handles_call (B := fun h _ => Unwritten h) hh trivial
      trivial fun _ _ => hu.cons (by simp)) fun h _ hh hu => handles_ret hh hu) ?_
    exact fun h _ _ hu => hu.cons (by simp)

theorem handles_toPayment {row : Option PaymentModel} (hf : FindsGuarded py id row)
    (hh : Handling h) (hu : Unwritten h) : Handles py msg id (fun h found => ∃ p, found = some p ∧
      Loaded py id h p) (SqlPaymentRepository.toPayment row) h := by
  obtain ⟨p, rfl, hid, hg⟩ := hf
  exact Handles.bind (handles_orRaise (B := fun h q => q = p ∧ Unwritten h)
    (PaymentMapper.toDomain_toModel p) hh ⟨rfl, hu⟩) fun h q hh hq =>
      handles_ret hh ⟨q, rfl, hq.2, by rw [hq.1]; exact ⟨hid, hg⟩⟩

theorem handles_load (hh : Handling h) (hu : Unwritten h) :
    Handles py msg id (Loaded py id) (ChargePayment.load id) h := by
  refine handles_withUow ?_ fun h p r hl => hl.cons (by simp)
  refine Handles.bind (B := fun h found => ∃ p, found = some p ∧ Loaded py id h p) ?_ ?_
  · exact Handles.bind (handles_call (B := fun h (row : Option PaymentModel) =>
      FindsGuarded py id row ∧ Unwritten h) hh
      trivial ⟨rfl, hu⟩ fun row hrow => ⟨hrow, hu.cons (by simp)⟩) fun h row hh hr =>
        handles_toPayment hr.1 hh hr.2
  · rintro h found hh ⟨p, rfl, hl⟩
    exact handles_ret hh hl

theorem handles_gateway {p : Payment} (hh : Handling h) (hl : Loaded py id h p) :
    Handles py msg id (fun h _ => Loaded py id h p) (RandomPaymentGateway.charge py p) h := by
  have hkeep : ∀ {op : Op} {h : History}, Handling h → Loaded py id h p → op.ofProcess →
      Consumes msg id h op → (∀ row, op ≠ .updatePayment row) →
        Handles py msg id (fun h _ => Loaded py id h p) (call op) h := fun hh hl hop hdo hne =>
    handles_call hh hop hdo fun _ _ => hl.cons hne
  have hclose : ∀ {γ : Type} (h : History) (a : γ) r, Loaded py id h p →
      Loaded py id (⟨.close, r⟩ :: h) p := fun h _ r hl => hl.cons (by simp)
  refine Handles.bind (B := fun h _ => Loaded py id h p) (handles_withSession (Handles.bind
    (hkeep hh hl trivial trivial (by simp)) fun h row hh hl => ?_) hclose) fun h cached hh hl => ?_
  · cases row <;> exact handles_ret hh hl
  cases cached with
  | some cached => exact handles_ret hh hl
  | none =>
    refine Handles.bind (Handles.bind (hkeep hh hl trivial trivial (by simp)) fun h _ hh hl =>
      hkeep hh hl trivial trivial (by simp)) fun h _ hh hl => ?_
    refine Handles.bind (B := fun h _ => Loaded py id h p) (Handles.bind
      (hkeep hh hl trivial trivial (by simp)) fun h _ hh hl => handles_ret hh hl)
      fun h outcome hh hl => ?_
    refine Handles.bind (hkeep hh hl trivial trivial (by simp)) fun h createdAt hh hl => ?_
    refine handles_withSession (handles_withBegin ?_ fun h _ r hl => hl.cons (by simp)) hclose
    -- the winner's result is found after a conflict
    refine Handles.bind (B := fun h inserted => Loaded py id h p ∧ (inserted = none →
      ∃ charge, charge.paymentId = p.id ∧ ⟨.insertCharge charge, .ok none⟩ ∈ h))
      (handles_call hh trivial trivial fun inserted _ => ⟨hl.cons (by simp), ?_⟩) ?_
    · rintro rfl
      exact ⟨_, rfl, List.mem_cons_self ..⟩
    · rintro h inserted hh ⟨hl, hlost⟩
      cases inserted with
      | some isSuccessful => exact handles_ret hh hl
      | none =>
        obtain ⟨charge, hcharge, hmem⟩ := hlost rfl
        refine Handles.bind (B := fun h row => Loaded py id h p ∧ row ≠ none)
          (handles_call hh trivial trivial fun row hrow => ⟨hl.cons (by simp), fun hnone =>
            hrow hnone charge hmem hcharge⟩) ?_
        rintro h row hh ⟨hl, hne⟩
        cases row with
        | none => exact absurd rfl hne
        | some row => exact handles_ret hh hl

theorem handles_save {p : Payment} (hh : Handling h) (hl : Loaded py id h p) :
    Handles py msg id (fun h _ => Ready py id h p) (SqlPaymentRepository.save p) h := by
  refine Handles.bind (B := fun _ row => FindsGuarded py id row) (handles_call hh trivial
    ⟨hl.2.1, hl.1⟩ fun row hrow => hrow) ?_
  rintro h row hh ⟨q, rfl, -⟩
  exact handles_call hh trivial trivial fun _ _ => hl.2

theorem handles_complete {p : Payment} (result : GatewayResult) (hh : Handling h)
    (hl : Loaded py id h p) :
    Handles py msg id (Ready py id) (ChargePayment.complete p result) h := by
  refine handles_withUow ?_ fun h p r hr => hr
  refine Handles.bind (B := fun h found => ∃ q, found = some q ∧ Loaded py id h q) ?_ ?_
  · exact Handles.bind (handles_call (B := fun h (row : Option PaymentModel) =>
      FindsGuarded py id row ∧ Unwritten h) hh
      trivial ⟨hl.2.1, hl.1⟩ fun row hrow => ⟨hrow, hl.1.cons (by simp)⟩) fun h row hh hr =>
        handles_toPayment hr.1 hh hr.2
  · rintro h found hh ⟨q, rfl, hq⟩
    by_cases ht : q.isTerminal = true
    · simp only [ht, Bool.not_true, Bool.false_eq_true, if_false]
      exact handles_ret hh hq.2
    · have hpend : q.status = .pending := by
        by_contra hne
        exact ht (PaymentStatus.isTerminal_iff.2 hne)
      have hf : q.isTerminal = false := by simpa using ht
      simp only [hf, Bool.not_false, if_true]
      refine Handles.bind (B := fun h _ => Loaded py id h q) (handles_call hh trivial trivial
        fun _ _ => hq.cons (by simp)) fun h now hh hq => ?_
      have hcompleted : Loaded py id h (q.completed result.isSuccessful now) := hq
      refine Handles.bind (handles_orRaise (B := fun h p => p = q.completed result.isSuccessful now ∧
        Loaded py id h p) (settle_pending hpend result now) hh ⟨rfl, hcompleted⟩) fun h p hh hp => ?_
      refine Handles.bind (handles_save hh hp.2) fun h _ hh hr => ?_
      exact Handles.bind (handles_call (B := fun h _ => Ready py id h p) hh trivial trivial
        fun _ _ => hr) fun h _ hh hr => handles_ret hh hr

theorem handles_charge (hh : Handling h) (hu : Unwritten h) :
    Handles py msg id (Ready py id) (ChargePayment.execute py id) h := by
  refine Handles.bind (handles_load hh hu) fun h p hh hl => ?_
  split
  · exact handles_ret hh hl.2
  · exact Handles.bind (handles_gateway hh hl) fun h result hh hl => handles_complete result hh hl

/-- **Sending the webhook** fails because the call failed or because the receiver refused. -/
theorem handles_deliver {p : Payment} (hh : Handling h) (hr : Ready py id h p) :
    Handles py msg id (fun _ _ => True) (DeliverWebhook.execute py p) h := by
  refine Handles.bind (handles_orRaise (B := fun _ _ => True) hr.2 hh trivial) fun h _ hh _ => ?_
  refine Handles.bind (B := fun h status => ∃ url payload key,
    ⟨.post url payload key, .ok status⟩ ∈ h) ?_ ?_
  · refine Prog.Along.tryCatch (Q := fun h' r => Handling h' ∧ (∀ status, r = .ok status →
      ∃ url payload key, ⟨.post url payload key, .ok status⟩ ∈ h') ∧ ∀ e, r = .error e →
        ∃ op, ∃ f : Fault, e = f.toExc ∧ ⟨op, .error f.toExc⟩ ∈ h') ?_ ?_ ?_
    · refine Prog.along_perform trivial fun r hr => ⟨hh.cons trivial, ?_, ?_⟩
      · rintro status rfl
        exact ⟨_, _, _, List.mem_cons_self ..⟩
      · rintro e rfl
        obtain ⟨f, rfl⟩ := hr.fault
        exact ⟨_, f, rfl, List.mem_cons_self ..⟩
    · exact fun h status hs => ⟨hs.1, hs.2.1 status rfl⟩
    · rintro h e ⟨hh, -, hfail⟩
      obtain ⟨op, f, rfl, hmem⟩ := hfail e rfl
      cases f with
      | timeout => exact ⟨hh, .failed op .timeout hmem rfl⟩
      | transport => exact ⟨hh, .failed op .transport hmem rfl⟩
      | external n => exact ⟨hh, .failed op (.external n) hmem rfl⟩
      | cancelled => exact ⟨hh, .failed op .cancelled hmem rfl⟩
  · rintro h status hh ⟨url, payload, key, hmem⟩
    refine Prog.along_ofExcept ?_
    cases hs : WebhookErrorMapper.raiseForStatus status with
    | ok _ => exact ⟨hh, trivial⟩
    | error e => exact ⟨hh, .refused url payload key status hmem hs⟩

theorem handles_remember (m : UUID) (hh : Handling h) :
    Handles py msg id (fun _ _ => True) (ProcessedMessageInbox.remember m) h := by
  refine handles_withUow (Handles.bind (handles_call (B := fun _ _ => True) hh trivial trivial
    fun _ _ => trivial) fun h now hh _ => ?_) fun _ _ _ _ => trivial
  refine Handles.bind (handles_call (B := fun _ _ => True) hh trivial trivial fun _ _ => trivial) ?_
  exact fun h _ hh _ => handles_call hh trivial trivial fun _ _ => trivial

/-- **The handling of a message** that names the payment raises for a cause. -/
theorem handles_handle (hid : InboundPaymentMessage.parsePaymentId py msg.body = .ok id) :
    Handles py msg id (fun _ _ => True) (PaymentMessageHandler.handle py msg) [] := by
  have hh : Handling [] := fun _ _ hm => by cases hm
  have hu : Unwritten [] := fun _ _ hm => by cases hm
  unfold PaymentMessageHandler.handle
  rw [hid]
  show Handles py msg id _ (ProcessPayment.execute py id _) []
  refine Handles.bind (handles_isDuplicate hh hu _) fun h duplicate hh hu => ?_
  split
  · exact handles_ret hh trivial
  · refine Handles.bind (handles_charge hh hu) fun h p hh hr => ?_
    refine Handles.bind (handles_deliver hh hr) fun h _ hh _ => ?_
    split
    · exact handles_ret hh trivial
    · exact handles_remember _ hh

/-! ## Settling the message -/

/-- The message is acknowledged, or an operation raised. -/
def Settled (h : History) : Prop := (∃ r, ⟨.ack, r⟩ ∈ h) ∨ ∃ op e, ⟨op, .error e⟩ ∈ h

theorem raiseForStatus_isException {status : Nat} {e : Exc}
    (h : WebhookErrorMapper.raiseForStatus status = .error e) : e.isException = true := by
  unfold WebhookErrorMapper.raiseForStatus at h
  split_ifs at h <;> (cases h; rfl)

theorem Cause.settled {e : Exc} (hc : Cause h e) (he : e.isException = false) : Settled h := by
  cases hc with
  | failed op f mem retryable => exact .inr ⟨op, _, mem⟩
  | refused url payload key status mem refused =>
    rw [raiseForStatus_isException refused] at he
    cases he

/-- The delay of a retry is there: the count is small. -/
theorem retry_delay {count : Int} {e : Exc}
    (ha : RetryPolicy.default.decideAction count e = .retry) (bits : Fin (2 ^ 53)) :
    ∃ delay, RetryPolicy.default.computeDelaySeconds count bits = .ok delay := by
  have hcount : count ≤ 1022 := by
    unfold RetryPolicy.decideAction at ha
    split_ifs at ha with hr hm
    have hmax : RetryPolicy.default.maxAttempts = 3 := rfl
    omega
  exact ⟨_, @computeDelaySeconds_default 3 _ hcount bits⟩

theorem along_routeFailure {e : Exc} {count : Int}
    (hcount : InboundPaymentMessage.parseRetryCount msg.headers = .ok count) (hh : Handling h)
    (hc : Cause h e) :
    (PaymentMessageDispatcher.routeFailure msg e).Along (Answers py id) (Consumes msg id)
      (fun h _ => Settled h) h := by
  have hpublish : ∀ {key : RoutingKey} {body : List (String × Json)} {headers : Headers}
      {expiration : Option Int}, Forwards msg h key body headers →
      (call (.publish key body headers expiration)).Along (Answers py id) (Consumes msg id)
        (fun h' r => ∀ e, r = .error e → ∃ key body headers expiration e,
          ⟨.publish key body headers expiration, .error e⟩ ∈ h') h := by
    intro key body headers expiration hf
    refine Prog.along_perform ⟨hh, hf⟩ fun r hr e he => ?_
    subst he
    exact ⟨key, body, headers, expiration, e, List.mem_cons_self ..⟩
  have hroute : (FailureRouter.route RetryPolicy.default msg count e).Along (Answers py id)
      (Consumes msg id) (fun h' r => ∀ e, r = .error e → ∃ key body headers expiration e,
        ⟨.publish key body headers expiration, .error e⟩ ∈ h') h := by
    unfold FailureRouter.route
    cases ha : RetryPolicy.default.decideAction count e with
    | dlq => exact hpublish (.dlq e count hc hcount ha)
    | retry =>
      obtain ⟨delay, hdelay⟩ := retry_delay ha ExponentialDelay.noBits
      show Prog.Along _ _ _ ((orRaise (RetryPolicy.default.computeDelaySeconds count
        ExponentialDelay.noBits)).bind fun delay => call (.publish .retry msg.body
          (FailureRouter.setHeader msg.headers retryCountHeader (.int (count + 1)))
          (some delay))) h
      rw [hdelay]
      exact hpublish (.retry e count hc hcount ha)
  have hsettled : ∀ {h' : History}, (∃ key body headers expiration e,
      ⟨.publish key body headers expiration, .error e⟩ ∈ h') → Settled h' :=
    fun ⟨key, body, headers, expiration, e, hm⟩ => .inr ⟨_, e, hm⟩
  unfold PaymentMessageDispatcher.routeFailure
  rw [hcount]
  refine Prog.Along.bind (Q := fun h' r => r ≠ .ok true → ∃ key body headers expiration e,
    ⟨.publish key body headers expiration, .error e⟩ ∈ h') ?_ (fun h' routed hr => ?_)
    fun h' e he => hsettled (he (by simp))
  · refine Prog.Along.tryCatch (Q := fun h' r => (∀ b, r = .ok b → b = true) ∧
      ∀ e, r = .error e → ∃ key body headers expiration e,
        ⟨.publish key body headers expiration, .error e⟩ ∈ h') ?_ ?_ ?_
    · show Prog.Along _ _ _ ((FailureRouter.route RetryPolicy.default msg count e).bind
        fun _ => .ret true) h
      refine Prog.Along.bind hroute (fun h' _ _ => ⟨?_, ?_⟩) fun h' e he => ⟨?_, ?_⟩
      · rintro b hb
        cases hb
        rfl
      · rintro e he
        cases he
      · rintro b hb
        cases hb
      · rintro e' he'
        cases he'
        exact he e rfl
    · rintro h' b hb hne
      exact absurd (congrArg _ (hb.1 b rfl)) hne
    · rintro h' e' he
      split <;> exact fun _ => he.2 e' rfl
  · cases routed with
    | true => exact Prog.along_perform trivial fun r _ => .inl ⟨r, List.mem_cons_self ..⟩
    | false =>
      have hfailed := hr (by simp)
      exact Prog.along_perform hfailed fun r _ => hsettled <| by
        obtain ⟨key, body, headers, expiration, e, hm⟩ := hfailed
        exact ⟨key, body, headers, expiration, e, List.mem_cons_of_mem _ hm⟩

/-- **A consumer** forwards its message once and for a cause, and rejects it when that failed. -/
theorem along_dispatch {count : Int}
    (hid : InboundPaymentMessage.parsePaymentId py msg.body = .ok id)
    (hcount : InboundPaymentMessage.parseRetryCount msg.headers = .ok count) :
    Prog.Along (Answers py id) (Consumes msg id) (fun h _ => Settled h)
      (do PaymentMessageDispatcher.dispatch py msg; return .done : App Reply) [] := by
  refine Prog.Along.bind (Q := fun h _ => Settled h) ?_ (fun _ _ hs => hs) fun _ _ hs => hs
  refine Prog.Along.bind (Q := fun h' r => (∀ e, r = .ok (some e) → Handling h' ∧ Cause h' e) ∧
    ∀ e, r = .error e → Settled h') ?_ (fun h' failure hf => ?_) fun h' e he => he.2 e rfl
  · refine Prog.Along.tryCatch (Prog.Along.bind (handles_handle hid) (R := fun h' r =>
      (∀ x, r = .ok x → x = none) ∧ ∀ e, r = .error e → Handling h' ∧ Cause h' e)
      (fun h' _ _ => ⟨?_, ?_⟩) fun h' e he => ⟨?_, ?_⟩) ?_ ?_
    · rintro x hx
      cases hx
      rfl
    · rintro e he
      cases he
    · rintro x hx
      cases hx
    · rintro e' he'
      cases he'
      exact he
    · rintro h' x hx
      refine ⟨fun e he => ?_, fun e he => ?_⟩
      · cases he
        cases hx.1 _ rfl
      · cases he
    · rintro h' e he
      split
      · refine ⟨fun e' he' => ?_, fun e' he' => ?_⟩
        · cases he'
          exact he.2 e rfl
        · cases he'
      · rename_i hexc
        refine ⟨fun e' he' => ?_, fun e' he' => ?_⟩
        · cases he'
        · exact (he.2 e rfl).2.settled (by simpa using hexc)
  · cases failure with
    | none => exact Prog.along_perform trivial fun r _ => .inl ⟨r, List.mem_cons_self ..⟩
    | some e =>
      obtain ⟨hh, hc⟩ := hf.1 e rfl
      exact along_routeFailure hcount hh hc

/-! ## Runs -/

theorem writeAll_unwritten {ws : List Write} (hinsert : ∀ row, .insertPayment row ∉ ws)
    (hupdate : ∀ row, .updatePayment row ∉ ws) (db : Tables) :
    (db.writeAll ws).payments = db.payments := by
  induction ws generalizing db with
  | nil => rfl
  | cons w ws ih =>
    have hrest : (db.writeAll (w :: ws)).payments = (db.write w).payments :=
      ih (fun row hm => hinsert row (List.mem_cons_of_mem _ hm))
        (fun row hm => hupdate row (List.mem_cons_of_mem _ hm)) (db.write w)
    rw [hrest]
    cases w with
    | insertPayment row => exact absurd (List.mem_cons_self ..) (hinsert row)
    | updatePayment row => exact absurd (List.mem_cons_self ..) (hupdate row)
    | _ => rfl

/-- A consumer that has written nothing sees the committed payments. -/
theorem view_unwritten (hr : Reachable py A y) (hd : y.state.Logged (.delivered i msg))
    (hu : Unwritten (y.state.history i)) :
    (y.state.view i).payments = y.state.db.payments := by
  obtain ⟨n, hk⟩ := hr.inv.delivered i msg hd
  refine writeAll_unwritten (fun row hm => ?_) (fun row hm => ?_) y.state.db
  · obtain ⟨op, r, hdid, hstages⟩ := (written hr i _).1 hm
    have hpermits : op.ofConsumer := did_permitted hr hk hdid
    cases op with
    | insertPayment row' => exact hpermits
    | updateOutbox ids patch => exact hpermits
    | deleteProcessed cutoff limit => exact hpermits
    | _ => cases hstages
  · obtain ⟨op, r, hdid, hstages⟩ := (written hr i _).1 hm
    have hpermits : op.ofConsumer := did_permitted hr hk hdid
    cases op with
    | updatePayment row' =>
      cases hstages
      exact hu row r (mem_history.2 hdid)
    | updateOutbox ids patch => exact hpermits
    | deleteProcessed cutoff limit => exact hpermits
    | _ => cases hstages

/-- The committed row of the payment that a message names. -/
theorem delivered_finds (hr : Reachable py A y) (hd : y.state.Logged (.delivered i msg))
    (hid : InboundPaymentMessage.parsePaymentId py msg.body = .ok id) :
    FindsGuarded py id (y.state.db.payments.find? id) := by
  obtain ⟨p, rfl, q, hq, hext⟩ := delivered_known hr hd hid
  have hfind : y.state.db.payments.find? q.id = some (PaymentMapper.toModel q) := hq
  rw [hext.id] at hfind
  exact ⟨q, hfind, hext.id, stored_guarded hr hq⟩

/-- **The operations of a consumer are answered so.** -/
theorem exec_answers {op : Op} {r : Except Exc (Res op)} {c : Choice} {s' : World}
    (hr : Reachable py A y) (hd : y.state.Logged (.delivered i msg))
    (hid : InboundPaymentMessage.parsePaymentId py msg.body = .ok id)
    (hdo : Consumes msg id (y.state.history i) op)
    (hs : World.exec i op c y.state = some (r, s')) : Answers py id (y.state.history i) op r := by
  cases r with
  | error e =>
    have hfault : ∃ f : Fault, e = f.toExc := by
      refine exec_error ?_ hs
      rintro row rfl
      exact hdo
    cases op <;> exact hfault
  | ok a =>
    obtain ⟨s₁, he, -⟩ := exec_ok hs
    cases op with
    | getPayment paymentId =>
      obtain ⟨rfl, hu⟩ := hdo
      cases he
      rw [Answers, view_unwritten hr hd hu]
      exact delivered_finds hr hd hid
    | selectPaymentForUpdate paymentId =>
      obtain ⟨rfl, hu⟩ := hdo
      have hfinds := delivered_finds hr hd hid
      simp only [effect, view_unwritten hr hd hu] at he
      obtain ⟨p, hp, hrest⟩ := id hfinds
      rw [hp] at he
      obtain ⟨s₂, -, hr₂⟩ := Option.map_eq_some_iff.1 he
      cases hr₂
      exact ⟨p, rfl, hrest⟩
    | getCharge paymentId =>
      rintro hnone charge hmem rfl
      obtain ⟨b, row, hrow, -⟩ := lost_charge hr i charge (mem_history.1 hmem)
      have hview := Tables.writeAll_charges _ (y.state.staged i) hrow
      simp only [effect, view, hview, Option.some.injEq, Prod.mk.injEq, Except.ok.injEq] at he
      rw [← he.1] at hnone
      cases hnone
    | _ => trivial

/-- A count of retries is parsed from the headers of every message. -/
theorem sent_count (h : Reachable py A y) : ∀ msg, y.state.Sent msg →
    ∃ count, InboundPaymentMessage.parseRetryCount msg.headers = .ok count := by
  refine h.invariant (P := fun y => ∀ msg, y.state.Sent msg →
    ∃ count, InboundPaymentMessage.parseRetryCount msg.headers = .ok count)
    (fun _ _ ⟨_, _, _, _, hd⟩ => by cases hd) ?_
  intro y y' a hr _ hP _ hl msg hs
  obtain ⟨i, key, expiration, r, hd⟩ := hs
  rcases hl.did hd with hd' | ⟨⟨-, -, hreq⟩, -⟩
  · exact hP msg ⟨i, key, expiration, r, hd'⟩
  · generalize msg.body = body at hreq
    generalize msg.headers = headers at hreq
    cases hreq with
    | event row claimedAt body headers claimed unreleased encoded =>
      exact ⟨0, InboundPaymentMessage.parseRetryCount_encoded encoded⟩
    | dlq msg₀ delivered => exact hP msg₀ ((messages_sent hr).2 i msg₀ delivered)
    | retry msg₀ count delivered => exact ⟨count + 1, FailureRouter.parseRetryCount_setHeader _ _⟩

/-- **Every consumer of a run** does with its message what `Consumes` says. -/
theorem consumer_keeps (h : Reachable py A y) (hd : y.state.Logged (.delivered i msg))
    (hid : InboundPaymentMessage.parsePaymentId py msg.body = .ok id) :
    KeepsAlong (Answers py id) (Consumes msg id) (fun h _ => Settled h) i y := by
  obtain ⟨count, hcount⟩ := sent_count h msg ((messages_sent h).2 i msg hd)
  exact h.keeps_dispatch hd (along_dispatch hid hcount) fun _ _ _ _ _ _ _ hr hd _ hs hdo =>
    exec_answers hr hd hid hdo hs

/-- The message of a consumer names a payment. -/
theorem delivered_names (h : Reachable py A y) (hd : y.state.Logged (.delivered i msg)) :
    ∃ id, InboundPaymentMessage.parsePaymentId py msg.body = .ok id := by
  obtain ⟨row, hrow⟩ := sent_relayed h msg ((messages_sent h).2 i msg hd)
  obtain ⟨p, -, hres, -⟩ := relayed_resolves h hrow
  exact ⟨p.id, hres.1⟩

end PaymentProcessing
