import PaymentProcessing.Concurrency.Accounting
import PaymentProcessing.Guarantees.DeadLetters
import PaymentProcessing.Guarantees.Inbox

/-!
# How often a message is handled

A message is delivered at most three times, however often its consumers fail, unless it is published
again or the broker takes a delivery back. The potential of a configuration counts the deliveries
there were and those that can still come: a message that waits has its attempts left, and a consumer
that has not forwarded its message holds one less.
-/

namespace PaymentProcessing

open Python Relational Concurrency World

variable {py : Platform} {A : Allowed} {i : Nat} {s s' : World} {y y' : Config}
  {a : Action Choice Kind Env} {msg : Message} {P : List (String × Json) → Bool}

/-! ## Counters -/

namespace Entry

/-- A message with `P` was delivered. -/
def delivers (P : List (String × Json) → Bool) : Entry → Bool
  | .delivered _ msg => P msg.body
  | _ => false

/-- A message with `P` was published to `payments.new`, whatever the call answered. -/
def publishes (P : List (String × Json) → Bool) : Entry → Bool
  | .did _ (.publish .new body _ _) _ => P body
  | _ => false

/-- How many webhooks the consumer of a message with `P` has sent. -/
def webhooks (P : List (String × Json) → Bool) (s : World) : Entry → Nat
  | .delivered i msg => if P msg.body then s.log.countP (Entry.isPostOf i) else 0
  | _ => 0

end Entry

namespace World

/-- How many deliveries of messages with `P` there were. -/
def deliveries (P : List (String × Json) → Bool) (s : World) : Nat :=
  s.log.countP (Entry.delivers P)

/-- How many messages with `P` the relays have published. -/
def published (P : List (String × Json) → Bool) (s : World) : Nat :=
  s.log.countP (Entry.publishes P)

/-- How many webhooks the consumers of messages with `P` have sent. -/
def webhooks (P : List (String × Json) → Bool) (s : World) : Nat :=
  (s.log.map (Entry.webhooks P s)).sum

end World

/-- How many deliveries of messages with `P` an action takes back. -/
def returned (P : List (String × Json) → Bool) (y : Config) : Action Choice Kind Env → Nat
  | .env (.requeue i) => (y.state.broker.unacked.filter fun d => d.1 = i).countP fun d => P d.2.body
  | _ => 0

/-! ## Potential -/

/-- The message is put on the retry queue. -/
def Op.isRetry : Op → Bool
  | .publish .retry .. => true
  | _ => false

/-- How often a message with `P` can be delivered until it is given up. -/
def attempts (P : List (String × Json) → Bool) (msg : Message) : Nat :=
  if P msg.body then
    match InboundPaymentMessage.parseRetryCount msg.headers with
    | .ok count => (3 - count).toNat
    | .error _ => 0
  else 0

/-- How often the message of a delivery can come back. -/
def Entry.left (P : List (String × Json) → Bool) (s : World) : Entry → Nat
  | .delivered i msg => if (s.history i).any (·.1.isRetry) then 0 else attempts P msg - 1
  | _ => 0

namespace World

/-- The deliveries that can come of the messages that wait. -/
def waiting (P : List (String × Json) → Bool) (b : Broker) : Nat :=
  (b.ready.map (attempts P)).sum + (b.retry.map (attempts P)).sum

/-- The deliveries that can come of the messages that were delivered. -/
def pending (P : List (String × Json) → Bool) (s : World) : Nat := (s.log.map (Entry.left P s)).sum

/-- The deliveries there were and those that can come. -/
def potential (P : List (String × Json) → Bool) (s : World) : Nat :=
  waiting P s.broker + s.pending P + s.deliveries P

end World

theorem attempts_of_count {count : Int}
    (h : InboundPaymentMessage.parseRetryCount msg.headers = .ok count) :
    attempts P msg = if P msg.body then (3 - count).toNat else 0 := by
  rw [attempts, h]

theorem attempts_le (h : RetriedAtMostTwice msg) : attempts P msg ≤ 3 := by
  obtain ⟨count, hcount, h₀, -⟩ := h
  rw [attempts_of_count hcount]
  split <;> omega

theorem attempts_pos (h : RetriedAtMostTwice msg) (hP : P msg.body = true) : 1 ≤ attempts P msg := by
  obtain ⟨count, hcount, -, h₂⟩ := h
  rw [attempts_of_count hcount, if_pos hP]
  omega

theorem attempts_retry {headers : Headers} {count : Int}
    (hcount : InboundPaymentMessage.parseRetryCount msg.headers = .ok count) (h₂ : count ≤ 2)
    (hnext : InboundPaymentMessage.parseRetryCount headers = .ok (count + 1)) :
    attempts P ⟨msg.body, headers⟩ = attempts P msg - 1 := by
  rw [attempts_of_count hcount, attempts_of_count hnext]
  split
  · omega
  · rfl

/-! ## The log -/

theorem left_le (hsub : ∀ i, s.history i ⊆ s'.history i) (e : Entry) :
    e.left P s' ≤ e.left P s := by
  cases e with
  | delivered i msg =>
    simp only [Entry.left]
    by_cases hold : (s.history i).any (·.1.isRetry) = true
    · have hnew : (s'.history i).any (·.1.isRetry) = true := by
        obtain ⟨x, hx, hretry⟩ := List.any_eq_true.1 hold
        exact List.any_eq_true.2 ⟨x, hsub i hx, hretry⟩
      rw [if_pos hnew]
      exact Nat.zero_le _
    · rw [if_neg hold]
      split <;> omega
  | _ => exact Nat.le_refl _

section Appended

variable {l : List Entry} (hlog : s'.log = l ++ s.log)
  (hnone : ∀ e ∈ l, ∀ i msg, e ≠ .delivered i msg)

include hlog hnone

theorem pending_append : s'.pending P = (s.log.map (Entry.left P s')).sum := by
  have hzero : (l.map (Entry.left P s')).sum = 0 := by
    refine List.sum_eq_zero ?_
    intro n hn
    obtain ⟨e, he, rfl⟩ := List.mem_map.1 hn
    cases e with
    | delivered i msg => exact absurd rfl (hnone _ he i msg)
    | _ => rfl
  rw [World.pending, hlog, List.map_append, List.sum_append, hzero, Nat.zero_add]

/-- No delivery counts more than before. -/
theorem pending_le (hsub : ∀ i, s.history i ⊆ s'.history i) : s'.pending P ≤ s.pending P := by
  rw [pending_append hlog hnone]
  exact List.sum_le_sum fun e _ => left_le hsub e

/-- A consumer that forwards its message pays for it. -/
theorem pending_spent (hsub : ∀ i, s.history i ⊆ s'.history i)
    (hd : s.Logged (.delivered i msg)) (hold : (s.history i).any (·.1.isRetry) = false)
    (hnew : (s'.history i).any (·.1.isRetry) = true) :
    s'.pending P + (attempts P msg - 1) ≤ s.pending P := by
  rw [pending_append hlog hnone]
  refine sum_add_le hd (fun e _ => left_le hsub e) ?_
  simp [Entry.left, hold, hnew]

theorem deliveries_append : s'.deliveries P = s.deliveries P := by
  have hzero : l.countP (Entry.delivers P) = 0 := by
    refine List.countP_eq_zero.2 ?_
    intro e he hd
    cases e with
    | delivered i msg => exact hnone _ he i msg rfl
    | _ => cases hd
  rw [World.deliveries, hlog, List.countP_append, hzero, Nat.zero_add]
  rfl

omit hnone in
theorem published_append : s.published P ≤ s'.published P := by
  rw [World.published, World.published, hlog, List.countP_append]
  exact Nat.le_add_left ..

end Appended

/-! ## Steps -/

theorem ofProcess_not_retry {op : Op} (h : op.ofProcess) : op.isRetry = false := by
  cases op with
  | publish key => cases key <;> cases h
  | _ => rfl

/-- What an operation adds to the log and to the histories. -/
theorem exec_appends {op : Op} {r : Except Exc (Res op)} {c : Choice}
    (hs : World.exec i op c s = some (r, s')) : ∃ l, s'.log = .did i op r :: l ++ s.log ∧
      (∀ e ∈ .did i op r :: l, ∀ j msg, e ≠ .delivered j msg) ∧
      ∀ j, s.history j ⊆ s'.history j := by
  obtain ⟨l, hlog, he⟩ := exec_log hs
  refine ⟨l, hlog, ?_, ?_⟩
  · rintro e hm j msg rfl
    rcases List.mem_cons.1 hm with hd | hm
    · cases hd
    · cases (he _ hm).2
  · intro j
    refine List.Sublist.subset (List.Sublist.filterMap _ ?_)
    rw [hlog]
    exact List.sublist_append_right (.did i op r :: l) s.log

/-- **A message is forwarded once**, at the expense of the delivery it came with. -/
theorem retry_paid (hr : Reachable py A y) (hr' : Reachable py A y')
    {body : List (String × Json)} {headers : Headers} {expiration : Option Int}
    {r : Except Exc Unit} {c : Choice}
    (hs : World.exec i (.publish .retry body headers expiration) c y.state = some (r, y'.state)) :
    y'.state.pending P + attempts P ⟨body, headers⟩ ≤ y.state.pending P := by
  obtain ⟨l, hlog, hnone, hsub⟩ := exec_appends hs
  have hhist := (recorded py).exec hs
  have hd : y'.state.Did i (.publish .retry body headers expiration) r := by
    rw [Did, Logged, hlog]
    exact List.mem_append_left _ (List.mem_cons_self ..)
  obtain ⟨msg, hm', -⟩ := forwarded_cause hr' hd (by simp)
  have hm : y.state.Logged (.delivered i msg) := by
    rw [Logged, hlog] at hm'
    exact (List.mem_append.1 hm').resolve_left fun hm => hnone _ hm i msg rfl
  obtain ⟨id, hid⟩ := delivered_names hr' hm'
  have hobeyed := (consumer_keeps hr' hm' hid).obeyed
  rw [hhist] at hobeyed
  obtain ⟨hhandling, hforwards⟩ : Handling (y.state.history i) ∧
      Forwards msg (y.state.history i) .retry body headers := hobeyed.1
  have hold : (y.state.history i).any (·.1.isRetry) = false := by
    refine List.any_eq_false.2 fun x hx => ?_
    rw [ofProcess_not_retry (hhandling x.1 x.2 hx)]
    exact Bool.false_ne_true
  have hnew : (y'.state.history i).any (·.1.isRetry) = true := by
    rw [hhist]
    rfl
  have hnext : attempts P ⟨body, headers⟩ = attempts P msg - 1 := by
    obtain ⟨count', hcount', -, h₂⟩ := sent_counted hr msg ((messages_sent hr).2 i msg hm)
    cases hforwards with
    | retry e count cause counted action =>
      cases counted.symm.trans hcount'
      exact attempts_retry counted h₂ (FailureRouter.parseRetryCount_setHeader _ _)
  rw [hnext]
  exact pending_spent hlog hnone hsub hm hold hnew

/-- **One operation** adds to the potential only what a relay publishes. -/
theorem run_paid (hr : Reachable py A y) (hr' : Reachable py A y') {op : Op}
    {r : Except Exc (Res op)} {c : Choice}
    (hs : World.exec i op c y.state = some (r, y'.state)) :
    y'.state.potential P + 3 * y.state.published P ≤
      y.state.potential P + 3 * y'.state.published P := by
  obtain ⟨l, hlog, hnone, hsub⟩ := exec_appends hs
  have hdeliveries := deliveries_append (P := P) hlog hnone
  have hpending := pending_le (P := P) hlog hnone hsub
  have hpublished := published_append (P := P) hlog
  have hsame : World.waiting P y'.state.broker = World.waiting P y.state.broker →
      y'.state.potential P + 3 * y.state.published P ≤
        y.state.potential P + 3 * y'.state.published P := by
    intro hwaiting
    rw [World.potential, World.potential, hwaiting]
    omega
  cases exec_traffic hs with
  | lost e hb => exact hsame (by rw [hb])
  | done r hb _ =>
    generalize hb' : y'.state.broker = b at hb
    cases hb with
    | same => exact hsame (by rw [hb'])
    | ack | reject => exact hsame (by rw [hb']; rfl)
    | publish key body headers expiration =>
      cases key with
      | dlq => exact hsame (by rw [hb']; rfl)
      | retry =>
        have hpaid := retry_paid (P := P) hr hr' hs
        have hwaiting : World.waiting P y'.state.broker =
            World.waiting P y.state.broker + attempts P ⟨body, headers⟩ := by
          rw [hb']
          simp only [World.waiting, Broker.enqueue, List.map_append, List.sum_append, List.map_cons,
            List.map_nil, List.sum_cons, List.sum_nil]
          omega
        rw [World.potential, World.potential, hwaiting]
        omega
      | new =>
        have hwaiting : World.waiting P y'.state.broker =
            World.waiting P y.state.broker + attempts P ⟨body, headers⟩ := by
          rw [hb']
          simp only [World.waiting, Broker.enqueue, List.map_append, List.sum_append, List.map_cons,
            List.map_nil, List.sum_cons, List.sum_nil]
          omega
        have hpaid : attempts P ⟨body, headers⟩ + 3 * y.state.published P ≤
            3 * y'.state.published P := by
          by_cases hP : P body = true
          · have hcounted : attempts P ⟨body, headers⟩ ≤ 3 := by
              refine attempts_le (sent_counted hr' _ ⟨i, .new, expiration, r, ?_⟩)
              rw [Did, Logged, hlog]
              exact List.mem_append_left _ (List.mem_cons_self ..)
            have hone : y.state.published P + 1 ≤ y'.state.published P := by
              rw [World.published, World.published, hlog, List.cons_append, List.countP_cons,
                List.countP_append, if_pos (by exact hP)]
              omega
            omega
          · have hzero : attempts P ⟨body, headers⟩ = 0 := if_neg hP
            omega
        rw [World.potential, World.potential, hwaiting]
        omega

/-- **A delivery** is one of the attempts that the message had left. -/
theorem deliver_paid {n : Nat} {k : Kind} {b : Broker} (hcounted : RetriedAtMostTwice msg)
    (hb : s.broker.deliver i n = some (msg, b)) (hbroker : s'.broker = b)
    (hlog : s'.log = [.delivered i msg, .started i k] ++ s.log)
    (hhist : ∀ j, s'.history j = s.history j) :
    s'.potential P + 3 * s.published P ≤ s.potential P + 3 * s'.published P := by
  obtain ⟨m, hm, he⟩ := Option.map_eq_some_iff.1 hb
  cases he
  have hwaiting : attempts P msg + World.waiting P s'.broker = World.waiting P s.broker := by
    rw [hbroker, World.waiting, World.waiting, ← sum_eraseIdx (attempts P) hm, Nat.add_assoc]
  have hpending : s'.pending P ≤ attempts P msg - 1 + s.pending P := by
    have hleft : Entry.left P s' (.delivered i msg) ≤ attempts P msg - 1 := by
      simp only [Entry.left]
      split <;> omega
    have hrest : (s.log.map (Entry.left P s')).sum ≤ (s.log.map (Entry.left P s)).sum :=
      List.sum_le_sum fun e _ => left_le (fun j => (hhist j).symm ▸ List.Subset.refl _) e
    have hstarted : Entry.left P s' (.started i k) = 0 := rfl
    simp only [World.pending, hlog, List.map_append, List.map_cons, List.map_nil, List.sum_append,
      List.sum_cons, List.sum_nil, hstarted]
    omega
  have hdeliveries : s'.deliveries P = (if P msg.body then 1 else 0) + s.deliveries P := by
    have hone : List.countP (Entry.delivers P) [.delivered i msg, .started i k] =
        if P msg.body then 1 else 0 := by
      by_cases hP : P msg.body = true <;> simp [Entry.delivers, hP]
    rw [World.deliveries, hlog, List.countP_append, hone]
    rfl
  have hattempt : attempts P msg - 1 + (if P msg.body then 1 else 0) ≤ attempts P msg := by
    by_cases hP : P msg.body = true
    · have hpos := attempts_pos hcounted hP
      rw [if_pos hP]
      omega
    · rw [if_neg hP]
      omega
  have hpublished := published_append (P := P) hlog
  rw [World.potential, World.potential, hdeliveries]
  omega

theorem attempts_sum (queue : List Message) (h : ∀ msg ∈ queue, RetriedAtMostTwice msg) :
    (queue.map (attempts P)).sum ≤ 3 * queue.countP fun msg => P msg.body := by
  induction queue with
  | nil => exact Nat.zero_le _
  | cons msg queue ih =>
    have hrest := ih fun m hm => h m (List.mem_cons_of_mem _ hm)
    have hmsg := attempts_le (P := P) (h msg (List.mem_cons_self ..))
    rw [List.map_cons, List.sum_cons, List.countP_cons]
    by_cases hP : P msg.body = true
    · rw [if_pos hP]
      omega
    · have hzero : attempts P msg = 0 := if_neg hP
      omega

theorem broker_paid {b : Broker} {n : Nat}
    (h : World.waiting P b ≤ World.waiting P s.broker + n) :
    World.potential P { s with broker := b } + 3 * s.published P ≤
      s.potential P + 3 * World.published P { s with broker := b } + n := by
  have hpotential : World.potential P { s with broker := b } =
      World.waiting P b + s.pending P + s.deliveries P := rfl
  have hpublished : World.published P { s with broker := b } = s.published P := rfl
  rw [hpotential, hpublished, World.potential]
  omega

/-- **One action** adds to the potential only what a relay publishes and the broker takes back. -/
theorem step_paid (hr : Reachable py A y) (hr' : Reachable py A y') (hl : Legit py a y y') :
    y'.state.potential P + 3 * y.state.published P ≤
      y.state.potential P + 3 * y'.state.published P + 3 * returned P y a := by
  have hcounted : ∀ msg ∈ y.state.broker.messages, RetriedAtMostTwice msg := fun msg hm =>
    sent_counted hr msg ((messages_sent hr).1 msg hm)
  cases hl with
  | run i c k op f r s ha hi hreq hs hy =>
    subst hy
    have hpaid := run_paid (P := P) hr hr' hs
    omega
  | kill i k f ha hi hy =>
    subst hy
    exact Nat.le_add_right ..
  | spawn i k s f ha hi hidle hs hy =>
    subst hy
    have hhist : ∀ j, s.history j = y.state.history j := (recorded py).start hs
    have hstarted : s.log = .started i k :: y.state.log → s.broker = y.state.broker →
        s.potential P + 3 * y.state.published P ≤ y.state.potential P + 3 * s.published P := by
      intro hlog hb
      have hnone : ∀ e ∈ [Entry.started i k], ∀ j msg, e ≠ .delivered j msg := by
        intro e hm
        obtain rfl := List.mem_singleton.1 hm
        simp
      have hdeliveries := deliveries_append (P := P) (l := [.started i k]) hlog hnone
      have hpending := pending_le (P := P) (l := [.started i k]) hlog hnone fun j =>
        (hhist j).symm ▸ List.Subset.refl _
      have hpublished := published_append (P := P) (l := [.started i k]) hlog
      rw [World.potential, World.potential, hb]
      omega
    refine Nat.le_trans ?_ (Nat.le_add_right ..)
    cases k with
    | dispatch n =>
      obtain ⟨⟨msg, b⟩, hb, he⟩ := Option.map_eq_some_iff.1 hs
      cases he
      exact deliver_paid (hcounted msg (Broker.messages_deliver hb).1) hb rfl rfl hhist
    | _ =>
      cases hs
      exact hstarted rfl rfl
  | env e s ha hs hy =>
    subst hy ha
    cases e with
    | tick d =>
      cases hs
      exact Nat.le_add_right ..
    | requeue i =>
      cases hs
      have htaken := attempts_sum (P := P)
        ((y.state.broker.unacked.filter fun d => d.1 = i).map Prod.snd)
        fun msg hm =>
          hcounted msg (Broker.mem_messages.2 (.inr (.inl ⟨i, Broker.mem_deliveries.1 hm⟩)))
      rw [List.countP_map] at htaken
      refine broker_paid (Nat.le_trans ?_ (Nat.add_le_add_left htaken _))
      simp only [World.waiting, Broker.requeue, List.map_append, List.sum_append]
      omega
    | expire n =>
      obtain ⟨b, hb, rfl⟩ := Option.map_eq_some_iff.1 hs
      obtain ⟨m, hm, rfl⟩ := Option.map_eq_some_iff.1 hb
      refine broker_paid (n := 0) ?_
      simp only [World.waiting, List.map_append, List.sum_append, List.map_cons, List.map_nil,
        List.sum_cons, List.sum_nil, ← sum_eraseIdx (attempts P) hm]
      omega

/-! ## Runs -/

theorem webhooks_le (h : Reachable py A y) : y.state.webhooks P ≤ y.state.deliveries P := by
  have hle : ∀ l : List Entry,
      (l.map (Entry.webhooks P y.state)).sum ≤ l.countP (Entry.delivers P) := by
    intro l
    induction l with
    | nil => exact Nat.le_refl _
    | cons e l ih =>
      rw [List.map_cons, List.sum_cons, List.countP_cons]
      cases e with
      | delivered i msg =>
        have hone := one_post h i
        by_cases hP : P msg.body = true
        · simp only [Entry.webhooks, Entry.delivers, hP, if_true]
          omega
        · simp only [Entry.webhooks, Entry.delivers, hP, Bool.false_eq_true, if_false]
          omega
      | _ =>
        simp only [Entry.webhooks, Entry.delivers, Bool.false_eq_true, if_false]
        omega
  exact hle y.state.log

/-- **A message is handled at most three times**, however its consumers fail and whatever is killed.
In a run the messages with `P` are delivered at most three times as often as the relays publish such
messages and the broker takes deliveries of such messages back, and a delivery sends at most one
webhook. -/
theorem attempts_bounded (P : List (String × Json) → Bool) {clock : Time}
    {acts : List (Action Choice Kind Env)}
    (h : (machine py).runActions acts (Config.init clock) = some y) :
    y.state.webhooks P ≤ y.state.deliveries P ∧ y.state.deliveries P ≤
      3 * (y.state.published P + (machine py).total (returned P) acts (Config.init clock)) := by
  have hA : (machine py).AllowedActions anyAction acts (Config.init clock) :=
    Machine.AllowedActions.any (fun _ _ => trivial) ..
  have hr : Reachable py anyAction y := reachable_of_run hA h
  have hstep : ∀ y y' a, Reachable py anyAction y → anyAction y a →
      (machine py).step a y = some y' → Reachable py anyAction y' ∧
        y'.state.potential P + 3 * y.state.published P ≤
          y.state.potential P + 3 * y'.state.published P + 3 * returned P y a := by
    intro y y' a hy ha hs
    have hy' : Reachable py anyAction y' := hy.steps (.step a .refl ha hs)
    exact ⟨hy', step_paid hy hy' (hy.good.legit (sound py) hs)⟩
  have hbound := Machine.total_bound (fun y : Config => y.state.potential P)
    (fun y => 3 * y.state.published P) hstep ⟨clock, .refl⟩ hA h
  have hstart : (Config.init clock).state.potential P = 0 := rfl
  have hnone : (Config.init clock).state.published P = 0 := rfl
  have hend : y.state.deliveries P ≤ y.state.potential P := Nat.le_add_left ..
  simp only [hstart, hnone, Machine.total_mul] at hbound
  refine ⟨webhooks_le hr, ?_⟩
  omega

/-- The receiver of the sample payment answers every webhook with 503, so all attempts are needed. -/
def unavailableRun : List (Action Choice Kind Env) :=
  let attempt i n := .spawn i (.dispatch 0) :: List.replicate n (.run i { status := 503 })
  markedRun ++ attempt 2 22 ++ .env (.expire 0) :: attempt 3 7 ++ .env (.expire 0) :: attempt 4 7

theorem attempts_bounded_sample : ∃ y, (machine samplePlatform).runActions unavailableRun
    (Config.init 0) = some y ∧ y.state.deliveries (fun _ => true) = 3 ∧ 3 ≤
      3 * (y.state.published (fun _ => true) + (machine samplePlatform).total
        (returned fun _ => true) unavailableRun (Config.init 0)) := by
  obtain ⟨y, hy⟩ := Option.isSome_iff_exists.1 (by decide +kernel :
    ((machine samplePlatform).runActions unavailableRun (Config.init 0)).isSome = true)
  have hthree : (((machine samplePlatform).runActions unavailableRun (Config.init 0)).map fun y =>
      y.state.deliveries fun _ => true) = some 3 := by
    decide +kernel
  rw [hy, Option.map_some, Option.some.injEq] at hthree
  have hbound := (attempts_bounded (fun _ => true) hy).2
  rw [hthree] at hbound
  exact ⟨y, hy, hthree, hbound⟩

end PaymentProcessing
