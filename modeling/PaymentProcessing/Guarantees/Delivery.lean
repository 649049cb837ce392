import PaymentProcessing.Guarantees.Inbox
import PaymentProcessing.Guarantees.Messages

/-!
# No payment is lost

From its creation to its webhook a payment is always somewhere: in an outbox row that a relay will
claim, or in a message. An `Open` message is one that its consumer has not forwarded yet; only a
webhook closes the last open message of a payment.
-/

namespace PaymentProcessing

open Python Relational Concurrency World

variable {py : Platform} {A : Allowed} {i j : Nat} {s : World} {y y' : Config}
  {a : Action Choice Kind Env} {msg : Message}

/-! ## Open messages -/

namespace World

/-- The message is on a queue, and no consumer has forwarded it. -/
def Open (msg : Message) (s : World) : Prop :=
  msg ∈ s.broker.ready ∨ msg ∈ s.broker.retry ∨ msg ∈ s.broker.dlq ∨
    ∃ i, (i, msg) ∈ s.broker.unacked ∧ ¬ s.Forwarded i

theorem open_iff : s.Open msg ↔
    s.broker.Queued msg ∨ ∃ i, (i, msg) ∈ s.broker.unacked ∧ ¬ s.Forwarded i := by
  simp only [Open, Broker.Queued, or_assoc]

theorem Open.mem (h : s.Open msg) : msg ∈ s.broker.messages := by
  rw [Broker.mem_messages]
  rcases h with h | h | h | ⟨i, h, -⟩
  · exact .inl h
  · exact .inr (.inr (.inl h))
  · exact .inr (.inr (.inr h))
  · exact .inr (.inl ⟨i, h⟩)

end World

theorem exec_publish {key : RoutingKey} {body : List (String × Json)} {headers : Headers}
    {expiration : Option Int} {c : Choice} {s' : World}
    (h : World.exec i (.publish key body headers expiration) c s = some (.ok (), s')) :
    s'.Open ⟨body, headers⟩ := by
  obtain ⟨s₁, he, rfl⟩ := exec_ok h
  cases he
  exact open_iff.2 (.inl (Broker.queued_enqueue s.broker key ⟨body, headers⟩))

theorem unacked_delivered (h : Reachable py A y) : ∀ i msg, (i, msg) ∈ y.state.broker.unacked →
    y.state.Logged (.delivered i msg) := by
  refine h.invariant (P := fun y => ∀ i msg, (i, msg) ∈ y.state.broker.unacked →
    y.state.Logged (.delivered i msg)) (fun _ _ _ hm => by cases hm) ?_
  intro y y' a hr _ hP _ hl i msg hm
  exact (hl.traffic.unacked_new hm).elim (fun hm => hl.persistent hr (hP i msg hm)) id

/-- A consumer that forwards its message has an open copy of it. -/
theorem forwarded_open (h : Reachable py A y) (hl : Legit py a y y')
    (hd : y.state.Logged (.delivered i msg)) (hbefore : ¬ y.state.Forwarded i)
    (hafter : y'.state.Forwarded i) : ∃ copy, copy.body = msg.body ∧ y'.state.Open copy := by
  obtain ⟨m, key, headers, expiration, hm, hkey, hdid⟩ := hafter
  have hinv := hl.inv (sound py) h.inv
  obtain rfl : msg = m := hinv.message i _ _ (hl.persistent h hd) hm
  rcases hl.did hdid with hdid | ⟨-, c, hexec⟩
  · exact absurd ⟨msg, key, headers, expiration, hd, hkey, hdid⟩ hbefore
  · exact ⟨⟨msg.body, headers⟩, rfl, exec_publish hexec⟩

theorem not_forwarded_of_idle (h : Reachable py A y) {n : Nat} {m : Message}
    (idle : y.procs j = .idle)
    (logged : y'.state.log = .delivered j m :: .started j (.dispatch n) :: y.state.log) :
    ¬ y'.state.Forwarded j := by
  rintro ⟨m', key, headers, expiration, -, -, hd⟩
  have hold : y.state.Did j (.publish key m'.body headers expiration) (.ok ()) := by
    rw [Did, Logged, logged, List.mem_cons, List.mem_cons] at hd
    rcases hd with hd | hd | hd
    · cases hd
    · cases hd
    · exact hd
  exact not_logged_of_own (h.good.idle j idle).1 hold rfl

/-- A delivery that stays is open, or its consumer has just forwarded it. -/
theorem unacked_open (h : Reachable py A y) (hl : Legit py a y y')
    (hm : (i, msg) ∈ y.state.broker.unacked) (hf : ¬ y.state.Forwarded i)
    (hm' : (i, msg) ∈ y'.state.broker.unacked) :
    ∃ copy, copy.body = msg.body ∧ y'.state.Open copy := by
  by_cases hf' : y'.state.Forwarded i
  · exact forwarded_open h hl (unacked_delivered h i msg hm) hf hf'
  · exact ⟨msg, rfl, open_iff.2 (.inr ⟨i, hm', hf'⟩)⟩

/-- **What becomes of an open message**: it or a copy of it stays open, or it is processed. -/
theorem Legit.open_cases (h : Reachable py A y) (hl : Legit py a y y') (ho : y.state.Open msg) :
    (∃ copy, copy.body = msg.body ∧ y'.state.Open copy) ∨
      ∃ i, y.state.Logged (.delivered i msg) ∧ y.state.Handled py i := by
  rcases open_iff.1 ho with hm | ⟨i, hm, hf⟩
  · refine .inl ⟨msg, rfl, open_iff.2 ?_⟩
    rcases hl.traffic.queued hm with hm | ⟨i, n, idle, hm, logged⟩
    · exact .inl hm
    · exact .inr ⟨i, hm, not_forwarded_of_idle h idle logged⟩
  · rcases hl.traffic.unacked hm with hm' | hm' | hreq
    · exact .inl (unacked_open h hl hm hf hm')
    · exact .inl ⟨msg, rfl, open_iff.2 (.inl hm')⟩
    · -- it is acknowledged once it is forwarded or processed
      have hdone : y.state.Forwarded i ∨ y.state.Handled py i := hreq.2.2
      exact .inr ⟨i, unacked_delivered h i msg hm, hdone.resolve_left hf⟩

/-! ## Payments in messages -/

/-- Payments are processed by consumers only. -/
def Pipeline : Allowed := fun _ a =>
  ∀ i paymentId messageId, a ≠ .spawn i (.processPayment paymentId messageId)

/-- A webhook for the payment has succeeded. -/
def World.Informed (paymentId : UUID) (s : World) : Prop := ∃ i, s.Posted i paymentId

instance (paymentId : UUID) : (discipline py).Persistent (World.Informed paymentId) :=
  inferInstanceAs ((discipline py).Persistent fun s => ∃ i, s.Posted i paymentId)

/-- The message carries the payment id. -/
def Carries (py : Platform) (msg : Message) (paymentId : UUID) : Prop :=
  InboundPaymentMessage.parsePaymentId py msg.body = .ok paymentId

theorem pipeline_delivered (h : Reachable py Pipeline y) {paymentId : UUID}
    {messageId : Option UUID} (hx : y.state.Executes py i paymentId messageId) :
    ∃ msg, y.state.Logged (.delivered i msg) ∧ Carries py msg paymentId ∧
      InboundPaymentMessage.parseOutboxId py msg = messageId := by
  apply hx.resolve_left
  intro hs
  have hnone : ∀ i, ¬ y.state.Logged (.started i (.processPayment paymentId messageId)) := by
    refine h.invariant (P := fun y => ∀ i,
      ¬ y.state.Logged (.started i (.processPayment paymentId messageId)))
      (fun _ _ hw => by cases hw) ?_
    intro y y' a _ _ hP ha hl i hw
    rcases hl.started hw with hw | rfl
    · exact hP i hw
    · exact ha i paymentId messageId rfl
  exact hnone i hs

/-- **A message that is processed has had its webhook**: now, or when its id got into the inbox. -/
theorem handled_informed (h : Reachable py Pipeline y) (hd : y.state.Logged (.delivered i msg))
    {paymentId : UUID} (hmsg : Carries py msg paymentId) (hh : y.state.Handled py i) :
    y.state.Informed paymentId := by
  have hx : y.state.Executes py i paymentId (InboundPaymentMessage.parseOutboxId py msg) :=
    .inr ⟨msg, hd, hmsg, rfl⟩
  obtain ⟨paymentId', messageId, hx', hdone⟩ := hh
  obtain ⟨rfl, rfl⟩ := executes_unique h.inv hx hx'
  rcases hdone with hposted | ⟨m, hm, hseen⟩
  · exact ⟨i, hposted⟩
  · obtain ⟨k, ws, row, hw, hrow, rfl⟩ := seen_remembered h m hseen
    obtain ⟨id, hxk, url, payload, status, hok, hbefore⟩ := remembered_posted h k ws row hw hrow
    obtain ⟨msg', hd', hmsg', hm'⟩ := pipeline_delivered h hxk
    have hsent := (messages_sent h).2
    have hagree := sent_agree h (hsent i msg hd) (hsent k msg' hd') (hm.trans hm'.symm)
    have hid : id = paymentId := Except.ok.inj (hmsg'.symm.trans (hagree.symm.trans hmsg))
    subst hid
    exact ⟨k, url, payload, status, logged_of_before hbefore, hok⟩

/-- **A published payment stays in a message** until a webhook has succeeded. -/
theorem published_carried (h : Reachable py Pipeline y) : ∀ i body headers expiration paymentId,
    y.state.Did i (.publish .new body headers expiration) (.ok ()) →
    InboundPaymentMessage.parsePaymentId py body = .ok paymentId →
      y.state.Informed paymentId ∨ ∃ msg, Carries py msg paymentId ∧ y.state.Open msg := by
  refine h.invariant (P := fun y => ∀ i body headers expiration paymentId,
    y.state.Did i (.publish .new body headers expiration) (.ok ()) →
    InboundPaymentMessage.parsePaymentId py body = .ok paymentId →
      y.state.Informed paymentId ∨ ∃ msg, Carries py msg paymentId ∧ y.state.Open msg)
    (fun _ _ _ _ _ _ hd => by cases hd) ?_
  intro y y' a hr _ hP _ hl i body headers expiration paymentId hd hid
  rcases hl.did hd with hd | ⟨-, c, hexec⟩
  · rcases hP i body headers expiration paymentId hd hid with hinformed | ⟨msg, hmsg, ho⟩
    · exact .inl (hl.persistent hr hinformed)
    · rcases hl.open_cases hr ho with ⟨copy, hbody, hcopy⟩ | ⟨j, hdelivered, hhandled⟩
      · refine .inr ⟨copy, ?_, hcopy⟩
        rw [Carries, hbody]
        exact hmsg
      · exact .inl (hl.persistent hr (handled_informed hr hdelivered hmsg hhandled))
  · exact .inr ⟨⟨body, headers⟩, hid, exec_publish hexec⟩

/-! ## Payments in the outbox -/

/-- A relay will see the row again: it is new, claimed for a time, or given up. -/
def OutboxModel.Waits (row : OutboxModel) : Prop :=
  row.status = .new ∨ (row.status = .processing ∧ row.claimedAt ≠ none) ∨ row.status = .failed

/-- Who marks a row had published its event. -/
theorem marked_published (h : Reachable py A y) : ∀ id t, y.state.Marked id t →
    ∃ i row now, row.id = id ∧ y.state.Claimed i row now ∧ y.state.Published py i row now := by
  refine h.invariant (P := fun y => ∀ id t, y.state.Marked id t →
    ∃ i row now, row.id = id ∧ y.state.Claimed i row now ∧ y.state.Published py i row now)
    (fun _ _ _ ⟨_, hm⟩ => by cases hm) ?_
  intro y y' a hr _ hP _ hl id t hm
  have hold : (∃ i row now, row.id = id ∧ y.state.Claimed i row now ∧
      y.state.Published py i row now) → ∃ i row now, row.id = id ∧ y'.state.Claimed i row now ∧
        y'.state.Published py i row now := fun ⟨i, row, now, hid, hc, hp⟩ =>
    ⟨i, row, now, hid, hl.persistent hr hc, hl.persistent hr hp⟩
  obtain ⟨j, hm⟩ := hm
  rcases hl.committed hm with hm | ⟨hc, -, -, -⟩
  · exact hold (hP id t ⟨j, hm⟩)
  · cases hc.settle_cases rfl (by simp [SqlOutboxQueue.processedPatch]) with
    | marked row claimedAt publishedAt hid hpatch claimed published =>
      exact hold ⟨j, row, claimedAt, hid, claimed, published⟩
    | released worker row claimedAt hid claimed failed first legit => cases legit

/-- **A marked payment is in a message** until a webhook has succeeded. -/
theorem marked_carried (h : Reachable py Pipeline y) {p : Payment} {id : UUID} {t : Time}
    (hc : y.state.CreatedWith p id) (hm : y.state.Marked id t) :
    y.state.Informed p.id ∨ ∃ msg ∈ y.state.broker.messages, Carries py msg p.id := by
  obtain ⟨i, row, now, rfl, hclaimed, body, headers, henc, hd⟩ := marked_published h id t hm
  obtain ⟨q, hq, hres, -⟩ := relayed_resolves h ⟨i, now, headers, none, _, hclaimed, henc, hd⟩
  obtain rfl := created_unique h p q row.id hc hq
  rcases published_carried h i body headers none p.id hd hres.1 with hinformed | ⟨msg, hmsg, ho⟩
  · exact .inl hinformed
  · exact .inr ⟨msg, ho.mem, hmsg⟩

/-- A row in processing says since when. -/
theorem processing_claimed (h : Reachable py A y) : ∀ id row,
    y.state.db.outbox.find? id = some row → row.status = .processing → row.claimedAt ≠ none := by
  refine h.commits (P := fun s => ∀ id row, s.db.outbox.find? id = some row →
    row.status = .processing → row.claimedAt ≠ none) (fun _ _ _ hf => by cases hf) ?_ ?_
  · intro s s' hdb _ _ hP id row hf hst
    rw [hdb] at hf
    exact hP id row hf hst
  · intro y a i r hr _ _ hlegit hP id row hf hst
    obtain ⟨before, hbefore, hchange⟩ := row_committed hr.inv hlegit hf
    cases hchange with
    | kept => exact hP id row hbefore hst
    | claimed worker rows now row => exact Option.some_ne_none now
    | created | marked => cases hst
    | released worker row₀ row claimedAt patch hid hws relays claimed failed first legit =>
      cases legit <;> cases hst

/-- The row of a payment is in the table until it has been marked. -/
theorem created_row (h : Reachable py A y) : ∀ p id, y.state.CreatedWith p id →
    (∃ row, y.state.db.outbox.find? id = some row) ∨ ∃ t, y.state.Marked id t := by
  refine h.commits (P := fun s => ∀ p id, s.CreatedWith p id →
    (∃ row, s.db.outbox.find? id = some row) ∨ ∃ t, s.Marked id t)
    (fun _ _ _ ⟨_, _, hw, _⟩ => by cases hw) ?_ ?_
  · intro s s' hdb hlog hback hP p id ⟨j, ws, hw, hws⟩
    rw [hdb]
    exact (hP p id ⟨j, ws, hback j ws hw, hws⟩).imp_right fun ⟨t, k, hm⟩ => ⟨t, k, hlog.subset hm⟩
  · intro y a i r hr _ _ hlegit hP p id ⟨j, ws, hw, hws⟩
    have hafter : ((y.state.commit i).note (.did i .commit r)).db.outbox.find? id =
        (y.state.db.writeAll (y.state.staged i)).outbox.find? id := rfl
    rw [hafter]
    rcases committed_commit.1 hw with ⟨rfl, rfl⟩ | hw
    · have hinsert : (y.state.db.writeAll (y.state.staged j)).outbox =
          y.state.db.outbox.insert (createdEvent id p.id p.createdAt) := by
        rw [hws]
        rfl
      rw [hinsert]
      refine .inl ?_
      cases hold : y.state.db.outbox.find? id with
      | none => exact ⟨_, (Table.find?_insert hold id).trans (if_pos rfl)⟩
      | some row => exact ⟨row, Table.find?_insert_of_some _ hold⟩
    · rcases hP p id ⟨j, ws, hw, hws⟩ with ⟨row, hrow⟩ | ⟨t, hm⟩
      · have hchange := row_change hr.inv hlegit id
        generalize hrow' : (y.state.db.writeAll (y.state.staged i)).outbox.find? id = after
          at hchange
        rw [hrow] at hchange
        cases hchange with
        | kept => exact .inl ⟨row, rfl⟩
        | claimed | marked | released => exact .inl ⟨_, rfl⟩
        | purged row processed =>
          obtain ⟨t, -, hm⟩ := processed_marked hr id row hrow processed
          exact .inr ⟨t, hr.persistentCommit (P := Marked id t) hlegit r hm⟩
      · exact .inr ⟨t, hr.persistentCommit (P := Marked id t) hlegit r hm⟩

/-! ## The guarantee -/

/-- **No payment is lost.** Whatever fails or crashes, a committed payment whose webhook has not
succeeded is in its outbox row, new, claimed or given up, or in a message on a queue. -/
theorem no_payment_lost (h : Reachable py Pipeline y) : ∀ p, y.state.Stored p →
    y.state.Informed p.id ∨
    (∃ q id row, y.state.CreatedWith q id ∧ q.id = p.id ∧
      y.state.db.outbox.find? id = some row ∧ row.Waits) ∨
    ∃ msg ∈ y.state.broker.messages, Carries py msg p.id := by
  intro p hp
  obtain ⟨row₀, ⟨i, ws, hw, hin⟩, -, -, hsame⟩ := row_inserted h _ _ hp
  obtain ⟨q, id, hws⟩ := creation_atomic h i ws hw (.inl ⟨row₀, hin⟩)
  have hrow₀ : row₀ = PaymentMapper.toModel q := by
    rw [hws] at hin
    simpa using hin
  subst hrow₀
  have hid : q.id = p.id := hsame.id.symm
  have hc : y.state.CreatedWith q id := ⟨i, ws, hw, hws⟩
  rw [← hid]
  have hmarked : ∀ t, y.state.Marked id t → y.state.Informed q.id ∨
      ∃ msg ∈ y.state.broker.messages, Carries py msg q.id := fun t => marked_carried h hc
  rcases created_row h q id hc with ⟨row, hrow⟩ | ⟨t, hm⟩
  · cases hst : row.status with
    | new => exact .inr (.inl ⟨q, id, row, hc, rfl, hrow, .inl hst⟩)
    | processing =>
      have hclaimed := processing_claimed h id row hrow hst
      exact .inr (.inl ⟨q, id, row, hc, rfl, hrow, .inr (.inl ⟨hst, hclaimed⟩)⟩)
    | failed => exact .inr (.inl ⟨q, id, row, hc, rfl, hrow, .inr (.inr hst)⟩)
    | processed =>
      obtain ⟨t, -, hm⟩ := processed_marked h id row hrow hst
      exact (hmarked t hm).imp_right .inr
  · exact (hmarked t hm).imp_right .inr

/-- The action starts no process that processes a payment by itself. -/
def startsPipeline (a : Action Choice Kind Env) : Bool :=
  match a with
  | .spawn _ (.processPayment ..) => false
  | _ => true

theorem startsPipeline_pipeline {y : Config} {a : Action Choice Kind Env}
    (h : startsPipeline a = true) : Pipeline y a := by
  rintro i paymentId messageId rfl
  cases h

theorem no_payment_lost_sample : ∃ y, (machine samplePlatform).runActions relayedRun
    (Config.init 0) = some y ∧ ∃ p, y.state.Stored p ∧ (y.state.Informed p.id ∨
      (∃ q id row, y.state.CreatedWith q id ∧ q.id = p.id ∧
        y.state.db.outbox.find? id = some row ∧ row.Waits) ∨
      ∃ msg ∈ y.state.broker.messages, Carries samplePlatform msg p.id) := by
  have hA : (machine samplePlatform).AllowedActions Pipeline relayedRun (Config.init 0) :=
    Machine.AllowedActions.mono (fun _ _ => startsPipeline_pipeline)
      (by decide +kernel : (machine samplePlatform).AllowedActions
        (fun _ a => startsPipeline a = true) relayedRun (Config.init 0))
  obtain ⟨y, hy⟩ := Option.isSome_iff_exists.1 (by decide +kernel :
    ((machine samplePlatform).runActions relayedRun (Config.init 0)).isSome = true)
  have hstored : (((machine samplePlatform).runActions relayedRun (Config.init 0)).map fun y =>
      (y.state.db.payments.find? (UUID.ofNat 1)).isSome) = some true := by decide +kernel
  rw [hy, Option.map_some, Option.some.injEq] at hstored
  have hr := reachable_of_run hA hy
  obtain ⟨row, hrow⟩ := Option.isSome_iff_exists.1 hstored
  obtain ⟨p, -, -, hp⟩ := payment_of_find? hr.inv hrow
  exact ⟨y, hy, p, hp, no_payment_lost hr p hp⟩

end PaymentProcessing
