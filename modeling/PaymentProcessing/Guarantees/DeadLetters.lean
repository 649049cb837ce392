import PaymentProcessing.Guarantees.Delivery
import PaymentProcessing.Guarantees.RetryChain
import PaymentProcessing.Protocol.Consuming

/-!
# Why messages are dead

A message comes to the DLQ only for a cause that the run shows: its receiver refused the webhook for
good, its third dispatch failed too, or it could not be forwarded. The count of retries that decides
this is never negative and never above two, on any queue.
-/

namespace PaymentProcessing

open Python Relational Concurrency World

variable {py : Platform} {A : Allowed} {i : Nat} {y y' : Config} {msg : Message}

/-! ## What was forwarded -/

theorem Forwards.mono {h h' : History} {key : RoutingKey} {body : List (String × Json)}
    {headers : Headers} (hf : Forwards msg h key body headers) (hsub : h ⊆ h') :
    Forwards msg h' key body headers := by
  cases hf with
  | dlq e count cause counted action => exact .dlq e count (cause.mono hsub) counted action
  | retry e count cause counted action => exact .retry e count (cause.mono hsub) counted action

/-- Who forwards has got a message. -/
theorem forwarded_delivered (h : Reachable py A y) : ∀ i key body headers expiration r,
    y.state.Did i (.publish key body headers expiration) r → key ≠ .new →
      ∃ msg, y.state.Logged (.delivered i msg) := by
  refine h.invariant (P := fun y => ∀ i key body headers expiration r,
    y.state.Did i (.publish key body headers expiration) r → key ≠ .new →
      ∃ msg, y.state.Logged (.delivered i msg)) (fun _ _ _ _ _ _ _ hd => by cases hd) ?_
  intro y y' a hr _ hP _ hl i key body headers expiration r hd hkey
  rcases hl.did hd with hd | ⟨⟨-, -, hreq⟩, -⟩
  · obtain ⟨msg, hm⟩ := hP i key body headers expiration r hd hkey
    exact ⟨msg, hl.persistent hr hm⟩
  · cases hreq with
    | event => exact absurd rfl hkey
    | dlq msg delivered => exact ⟨msg, hl.persistent hr delivered⟩
    | retry msg count delivered => exact ⟨msg, hl.persistent hr delivered⟩

/-- **What is forwarded is the message that was got, for a cause.** -/
theorem forwarded_cause (h : Reachable py A y) {key : RoutingKey} {body : List (String × Json)}
    {headers : Headers} {expiration : Option Int} {r : Except Exc Unit}
    (hd : y.state.Did i (.publish key body headers expiration) r) (hkey : key ≠ .new) :
    ∃ msg, y.state.Logged (.delivered i msg) ∧
      Forwards msg (y.state.history i) key body headers := by
  obtain ⟨msg, hm⟩ := forwarded_delivered h i key body headers expiration r hd hkey
  obtain ⟨id, hid⟩ := delivered_names h hm
  obtain ⟨before, hb, hdo, -⟩ := (consumer_keeps h hm hid).obeyed.of_mem (mem_history.2 hd)
  exact ⟨msg, hm, hdo.2.mono hb.subset⟩

/-! ## Counts of retries -/

/-- The message was retried at most twice. -/
def RetriedAtMostTwice (msg : Message) : Prop :=
  ∃ count, InboundPaymentMessage.parseRetryCount msg.headers = .ok count ∧ 0 ≤ count ∧ count ≤ 2

theorem decideAction_retry {count : Int} {e : Exc}
    (h : RetryPolicy.default.decideAction count e = .retry) : count + 1 < 3 := by
  unfold RetryPolicy.decideAction at h
  split_ifs at h with hr hm
  exact not_le.1 hm

theorem PublishLegit.counted {s : World} {key : RoutingKey} {body : List (String × Json)}
    {headers : Headers} (h : PublishLegit py i s key body headers) :
    InboundPaymentMessage.parseRetryCount headers = .ok 0 ∨
    (∃ msg, s.Logged (.delivered i msg) ∧ headers = msg.headers) ∨
    (key = .retry ∧ ∃ msg count, s.Logged (.delivered i msg) ∧
      InboundPaymentMessage.parseRetryCount msg.headers = .ok count ∧
      InboundPaymentMessage.parseRetryCount headers = .ok (count + 1)) := by
  cases h with
  | event row claimedAt body headers claimed unreleased encoded =>
    exact .inl (InboundPaymentMessage.parseRetryCount_encoded encoded)
  | dlq msg delivered => exact .inr (.inl ⟨msg, delivered, rfl⟩)
  | retry msg count delivered counted =>
    exact .inr (.inr ⟨rfl, msg, count, delivered, counted,
      FailureRouter.parseRetryCount_setHeader _ _⟩)

theorem Forwards.retried {h : History} {body : List (String × Json)} {headers : Headers}
    (hf : Forwards msg h .retry body headers) :
    ∃ count, InboundPaymentMessage.parseRetryCount msg.headers = .ok count ∧ count + 1 < 3 := by
  cases hf with
  | retry e count cause counted action => exact ⟨count, counted, decideAction_retry action⟩

/-- **A message is retried at most twice**, whatever happens. -/
theorem sent_counted (h : Reachable py A y) : ∀ msg, y.state.Sent msg → RetriedAtMostTwice msg := by
  refine h.invariant (P := fun y => ∀ msg, y.state.Sent msg → RetriedAtMostTwice msg)
    (fun _ _ ⟨_, _, _, _, hd⟩ => by cases hd) ?_
  intro y y' a hr hr' hP _ hl msg hs
  obtain ⟨i, key, expiration, r, hd⟩ := hs
  rcases hl.did hd with hd' | ⟨⟨-, -, hreq⟩, -⟩
  · exact hP _ ⟨i, key, expiration, r, hd'⟩
  · rcases PublishLegit.counted hreq with hzero | ⟨msg₀, delivered, hsame⟩ |
      ⟨rfl, msg₀, count, delivered, hcount, hnext⟩
    · exact ⟨0, hzero, le_refl _, by norm_num⟩
    · rw [RetriedAtMostTwice, hsame]
      exact hP msg₀ ((messages_sent hr).2 i msg₀ delivered)
    · obtain ⟨count', hcount', h₀, -⟩ := hP msg₀ ((messages_sent hr).2 i msg₀ delivered)
      cases hcount.symm.trans hcount'
      obtain ⟨msg₁, delivered₁, hf⟩ := forwarded_cause hr' hd (by simp)
      obtain rfl : msg₁ = msg₀ := hr'.inv.message i _ _ delivered₁ (hl.persistent hr delivered)
      obtain ⟨count', hcount', hlt⟩ := hf.retried
      cases hcount.symm.trans hcount'
      exact ⟨count + 1, hnext, by omega, by omega⟩

/-! ## Dead letters -/

namespace World

/-- An operation of process `i` raised, or its webhook was not answered with success. -/
def Failed (i : Nat) (s : World) : Prop :=
  (∃ op f, s.Did i op (.error (Fault.toExc f))) ∨
  ∃ url payload key status, s.Did i (.post url payload key) (.ok status) ∧
    ¬ (200 ≤ status ∧ status < 300)

/-- Why process `i` gave the message up. -/
inductive GivesUp (i : Nat) (msg : Message) (s : World) : Prop where
  /-- The receiver refused the webhook for good. -/
  | refused (url : String) (payload : WebhookPayload) (key : String) (status : Nat)
      (did : s.Did i (.post url payload key) (.ok status)) (client : 400 ≤ status ∧ status < 500)
  /-- The last of three attempts failed. -/
  | exhausted (last : InboundPaymentMessage.parseRetryCount msg.headers = .ok 2)
      (failed : s.Failed i)
  /-- The message could not be forwarded. -/
  | unforwarded (key : RoutingKey) (headers : Headers) (expiration : Option Int) (f : Fault)
      (did : s.Did i (.publish key msg.body headers expiration) (.error f.toExc))

end World

theorem raiseForStatus_error {status : Nat} {e : Exc}
    (h : WebhookErrorMapper.raiseForStatus status = .error e) :
    ¬ (200 ≤ status ∧ status < 300) ∧
      ((400 ≤ status ∧ status < 500) ∨ RetryPolicy.isRetryable e = true) := by
  unfold WebhookErrorMapper.raiseForStatus at h
  split_ifs at h with hs hc
  · exact ⟨by simpa [WebhookErrorMapper.isSuccess] using hs, .inl hc⟩
  · cases h
    exact ⟨by simpa [WebhookErrorMapper.isSuccess] using hs, .inr rfl⟩

theorem Cause.cases {s : World} {e : Exc} (hc : Cause (s.history i) e) : s.Failed i ∧
    (RetryPolicy.isRetryable e = true ∨ ∃ url payload key status,
      s.Did i (.post url payload key) (.ok status) ∧ 400 ≤ status ∧ status < 500) := by
  cases hc with
  | failed op f mem retryable => exact ⟨.inl ⟨op, f, mem_history.1 mem⟩, .inl retryable⟩
  | refused url payload key status mem refused =>
    have hd := mem_history.1 mem
    obtain ⟨hs, hc⟩ := raiseForStatus_error refused
    refine ⟨.inr ⟨url, payload, key, status, hd, hs⟩, ?_⟩
    exact hc.symm.imp_right fun hc => ⟨url, payload, key, status, hd, hc⟩

/-- A message that its consumer sends to the DLQ is given up for a cause. -/
theorem givesUp_dlq (h : Reachable py A y) (hm : y.state.Logged (.delivered i msg))
    {expiration : Option Int} {r : Except Exc Unit}
    (hd : y.state.Did i (.publish .dlq msg.body msg.headers expiration) r) :
    y.state.GivesUp i msg := by
  obtain ⟨msg', hm', hf⟩ := forwarded_cause h hd (by simp)
  obtain rfl := h.inv.message i _ _ hm' hm
  obtain ⟨count, hcount, h₀, h₂⟩ := sent_counted h _ ((messages_sent h).2 i _ hm)
  generalize msg'.body = body at hf
  generalize hheaders : msg'.headers = headers at hf
  cases hf with
  | dlq e count' cause counted action =>
    cases hcount.symm.trans counted
    obtain ⟨hfailed, hwhy⟩ := cause.cases
    rcases hwhy with hretry | ⟨url, payload, key, status, hpost, hclient⟩
    · refine .exhausted (hcount.trans (congrArg _ ?_)) hfailed
      unfold RetryPolicy.decideAction at action
      have hmax : RetryPolicy.default.maxAttempts = 3 := rfl
      split_ifs at action with hn hm
      · rw [hretry] at hn
        cases hn
      · omega
    · exact .refused url payload key status hpost hclient

/-- A message that its consumer rejects could not be forwarded. -/
theorem givesUp_reject (h : Reachable py A y) (hm : y.state.Logged (.delivered i msg))
    {r : Except Exc Unit} (hd : y.state.Did i .reject r) : y.state.GivesUp i msg := by
  obtain ⟨id, hid⟩ := delivered_names h hm
  have hobeyed := (consumer_keeps h hm hid).obeyed
  obtain ⟨before, hb, hdo, -⟩ := hobeyed.of_mem (mem_history.2 hd)
  obtain ⟨key, body, headers, expiration, e, hmem⟩ := hdo
  have hmem := hb.subset hmem
  obtain ⟨before', -, hdo', hans⟩ := hobeyed.of_mem hmem
  obtain ⟨f, rfl⟩ := hans.fault
  have hbody : body = msg.body := by
    cases hdo'.2 with
    | dlq | retry => rfl
  subst hbody
  exact .unforwarded key headers expiration f (mem_history.1 hmem)

/-- How a message comes to the DLQ. -/
theorem dlq_origin (h : Reachable py A y) : ∀ msg ∈ y.state.broker.dlq,
    ∃ i, y.state.Logged (.delivered i msg) ∧
      ((∃ expiration r, y.state.Did i (.publish .dlq msg.body msg.headers expiration) r) ∨
        ∃ r, y.state.Did i .reject r) := by
  refine h.invariant (P := fun y => ∀ msg ∈ y.state.broker.dlq,
    ∃ i, y.state.Logged (.delivered i msg) ∧
      ((∃ expiration r, y.state.Did i (.publish .dlq msg.body msg.headers expiration) r) ∨
        ∃ r, y.state.Did i .reject r)) (fun _ _ hm => by cases hm) ?_
  intro y y' a hr _ hP _ hl msg hm
  have hold : msg ∈ y.state.broker.dlq → ∃ i, y'.state.Logged (.delivered i msg) ∧
      ((∃ expiration r, y'.state.Did i (.publish .dlq msg.body msg.headers expiration) r) ∨
        ∃ r, y'.state.Did i .reject r) := by
    intro hm
    obtain ⟨i, hd, hwhy⟩ := hP msg hm
    refine ⟨i, hl.persistent hr hd, hwhy.imp ?_ ?_⟩
    · exact fun ⟨expiration, r, hdid⟩ => ⟨expiration, r, hl.persistent hr hdid⟩
    · exact fun ⟨r, hdid⟩ => ⟨r, hl.persistent hr hdid⟩
  cases hl.traffic with
  | quiet hb hlog => exact hold (hb ▸ hm)
  | deliver j n m ha idle hb logged =>
    obtain ⟨m', -, he⟩ := Option.map_eq_some_iff.1 hb
    have hb' := (Prod.mk.inj he).2
    rw [← hb'] at hm
    exact hold hm
  | run j op r req hlog hb =>
    obtain ⟨l, hl', -⟩ := hlog
    have hdid : y'.state.Did j op r := by
      rw [Did, Logged, hl']
      exact List.mem_cons_self ..
    cases hb with
    | lost e hb => exact hold (hb ▸ hm)
    | done r hb hop =>
      generalize y'.state.broker = b at hb hm
      cases hb with
      | same | ack => exact hold hm
      | publish key body headers expiration =>
        cases key with
        | new | retry => exact hold hm
        | dlq =>
          rcases List.mem_append.1 hm with hm | hm
          · exact hold hm
          · obtain rfl := List.mem_singleton.1 hm
            obtain ⟨-, -, hlegit⟩ := req
            cases hlegit with
            | dlq msg delivered =>
              exact ⟨j, hl.persistent hr delivered, .inl ⟨expiration, r, hdid⟩⟩
      | reject =>
        rcases List.mem_append.1 hm with hm | hm
        · exact hold hm
        · have hdelivered := unacked_delivered hr j msg (Broker.mem_deliveries.1 hm)
          exact ⟨j, hl.persistent hr hdelivered, .inr ⟨r, hdid⟩⟩
  | requeue j hb hlog =>
    rw [hb] at hm
    exact hold hm
  | expire n hb hlog =>
    obtain ⟨m, -, he⟩ := Option.map_eq_some_iff.1 hb
    rw [← he] at hm
    exact hold hm

/-- **No message dies without a cause.** In every run, whatever fails, every message of the DLQ was
got by a consumer whose webhook was answered with a client error, or who failed to process it on the
third attempt, or who could not forward it; and no message, on any queue, counts more than two
retries. -/
theorem dead_letters_explained (h : Reachable py anyAction y) :
    (∀ msg ∈ y.state.broker.dlq, ∃ i, y.state.Logged (.delivered i msg) ∧
      y.state.GivesUp i msg) ∧
    ∀ msg ∈ y.state.broker.messages, ∃ count,
      InboundPaymentMessage.parseRetryCount msg.headers = .ok count ∧ 0 ≤ count ∧ count ≤ 2 := by
  refine ⟨fun msg hm => ?_, fun msg hm => sent_counted h msg ((messages_sent h).1 msg hm)⟩
  obtain ⟨i, hd, ⟨expiration, r, hdid⟩ | ⟨r, hdid⟩⟩ := dlq_origin h msg hm
  · exact ⟨i, hd, givesUp_dlq h hd hdid⟩
  · exact ⟨i, hd, givesUp_reject h hd hdid⟩

/-- The receiver answers the webhook of the sample payment with 404. -/
def notFoundRun : List (Action Choice Kind Env) :=
  markedRun ++ .spawn 2 (.dispatch 0) :: List.replicate 22 (.run 2 { status := 404 })

theorem dead_letters_explained_sample : ∃ y, (machine samplePlatform).runActions notFoundRun
    (Config.init 0) = some y ∧ ∃ msg ∈ y.state.broker.dlq, ∃ i, y.state.GivesUp i msg := by
  obtain ⟨y, hy⟩ := Option.isSome_iff_exists.1 (by decide +kernel :
    ((machine samplePlatform).runActions notFoundRun (Config.init 0)).isSome = true)
  have hdlq : (((machine samplePlatform).runActions notFoundRun (Config.init 0)).map fun y =>
      y.state.broker.dlq.length) = some 1 := by
    decide +kernel
  rw [hy, Option.map_some, Option.some.injEq] at hdlq
  obtain ⟨msg, hmsg⟩ := List.length_eq_one_iff.1 hdlq
  have hm : msg ∈ y.state.broker.dlq := by
    rw [hmsg]
    exact List.mem_singleton_self msg
  have hr : Reachable samplePlatform anyAction y :=
    reachable_of_run (Machine.AllowedActions.any (fun _ _ => trivial) ..) hy
  obtain ⟨i, -, hup⟩ := (dead_letters_explained hr).1 msg hm
  exact ⟨y, hy, msg, hm, i, hup⟩

end PaymentProcessing
