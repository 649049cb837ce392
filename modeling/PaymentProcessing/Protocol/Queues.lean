import PaymentProcessing.Protocol.Rows

/-!
# Messages over a run

What an action does to the queues (`Traffic`), and that every message on a queue, and every message
that was ever published or delivered, is one that a relay or a consumer published.
-/

namespace PaymentProcessing

open Python Relational Concurrency World

variable {py : Platform} {A : Allowed} {i : Nat} {s s' : World} {y y' : Config}
  {a : Action Choice Kind Env} {msg : Message}

/-! ## Queues -/

namespace Broker

/-- The messages that are somewhere. -/
def messages (b : Broker) : List Message := b.ready ++ b.unacked.map (·.2) ++ b.retry ++ b.dlq

theorem mem_messages {b : Broker} : msg ∈ b.messages ↔
    msg ∈ b.ready ∨ (∃ i, (i, msg) ∈ b.unacked) ∨ msg ∈ b.retry ∨ msg ∈ b.dlq := by
  simp [messages]

theorem messages_enqueue {b : Broker} {key : RoutingKey} {new : Message}
    (h : msg ∈ (b.enqueue key new).messages) : msg = new ∨ msg ∈ b.messages := by
  rw [mem_messages] at h ⊢
  cases key <;> simp only [enqueue, List.mem_append, List.mem_singleton] at h <;> tauto

theorem messages_ack {b : Broker} (h : msg ∈ (b.ack i).messages) : msg ∈ b.messages := by
  rw [mem_messages] at h ⊢
  simp only [ack, List.mem_filter] at h
  rcases h with h | ⟨j, hj, -⟩ | h
  · exact .inl h
  · exact .inr (.inl ⟨j, hj⟩)
  · exact .inr (.inr h)

theorem mem_deliveries {b : Broker} :
    msg ∈ (b.unacked.filter fun d => d.1 = i).map Prod.snd ↔ (i, msg) ∈ b.unacked := by
  simp

theorem messages_reject {b : Broker} (h : msg ∈ (b.reject i).messages) : msg ∈ b.messages := by
  rw [mem_messages] at h ⊢
  simp only [reject, List.mem_append, mem_deliveries, List.mem_filter] at h
  rcases h with h | ⟨j, hj, -⟩ | h | h | h
  · exact .inl h
  · exact .inr (.inl ⟨j, hj⟩)
  · exact .inr (.inr (.inl h))
  · exact .inr (.inr (.inr h))
  · exact .inr (.inl ⟨i, h⟩)

theorem messages_requeue {b : Broker} (h : msg ∈ (b.requeue i).messages) : msg ∈ b.messages := by
  rw [mem_messages] at h ⊢
  simp only [requeue, List.mem_append, mem_deliveries, List.mem_filter] at h
  rcases h with (h | h) | ⟨j, hj, -⟩ | h
  · exact .inr (.inl ⟨i, h⟩)
  · exact .inl h
  · exact .inr (.inl ⟨j, hj⟩)
  · exact .inr (.inr h)

theorem messages_expire {b b' : Broker} {n : Nat} (hb : b.expire n = some b')
    (h : msg ∈ b'.messages) : msg ∈ b.messages := by
  obtain ⟨m, hm, rfl⟩ := Option.map_eq_some_iff.1 hb
  rw [mem_messages] at h ⊢
  simp only [List.mem_append, List.mem_singleton] at h
  rcases h with (h | rfl) | h | h | h
  · exact .inl h
  · exact .inr (.inr (.inl (List.mem_of_getElem? hm)))
  · exact .inr (.inl h)
  · exact .inr (.inr (.inl (List.mem_of_mem_eraseIdx h)))
  · exact .inr (.inr (.inr h))

theorem messages_deliver {b b' : Broker} {n : Nat} {m : Message}
    (hb : b.deliver i n = some (m, b')) : m ∈ b.messages ∧
      ∀ msg ∈ b'.messages, msg ∈ b.messages := by
  obtain ⟨m', hm, he⟩ := Option.map_eq_some_iff.1 hb
  cases he
  have hready : m ∈ b.ready := List.mem_of_getElem? hm
  refine ⟨mem_messages.2 (.inl hready), fun msg h => ?_⟩
  rw [mem_messages] at h ⊢
  simp only [List.mem_cons, Prod.mk.injEq] at h
  rcases h with h | ⟨j, ⟨-, rfl⟩ | h⟩ | h
  · exact .inl (List.mem_of_mem_eraseIdx h)
  · exact .inl hready
  · exact .inr (.inl ⟨j, h⟩)
  · exact .inr (.inr h)

/-- The message waits on a queue. -/
def Queued (msg : Message) (b : Broker) : Prop := msg ∈ b.ready ∨ msg ∈ b.retry ∨ msg ∈ b.dlq

theorem Queued.enqueue {b : Broker} (h : b.Queued msg) (key : RoutingKey) (new : Message) :
    (b.enqueue key new).Queued msg := by
  cases key with
  | new => exact h.imp_left (List.mem_append_left _)
  | retry => exact h.imp_right (Or.imp_left (List.mem_append_left _))
  | dlq => exact h.imp_right (Or.imp_right (List.mem_append_left _))

theorem queued_enqueue (b : Broker) (key : RoutingKey) (msg : Message) :
    (b.enqueue key msg).Queued msg := by
  have hlast : ∀ queue : List Message, msg ∈ queue ++ [msg] := fun queue =>
    List.mem_append_right queue (List.mem_singleton_self msg)
  cases key with
  | new => exact .inl (hlast b.ready)
  | retry => exact .inr (.inl (hlast b.retry))
  | dlq => exact .inr (.inr (hlast b.dlq))

theorem mem_or_mem_eraseIdx {α : Type} {l : List α} {n : Nat} {x z : α} (hn : l[n]? = some z)
    (hx : x ∈ l) : x = z ∨ x ∈ l.eraseIdx n := by
  obtain ⟨k, hk⟩ := List.mem_iff_getElem?.1 hx
  by_cases hkn : k = n
  · subst hkn
    exact .inl (Option.some.inj (hk.symm.trans hn))
  · exact .inr (List.mem_eraseIdx_iff_getElem?.2 ⟨k, hkn, hk⟩)

theorem Queued.expire {b b' : Broker} {n : Nat} (h : b.Queued msg) (hb : b.expire n = some b') :
    b'.Queued msg := by
  obtain ⟨m, hm, rfl⟩ := Option.map_eq_some_iff.1 hb
  rcases h with h | h | h
  · exact .inl (List.mem_append_left _ h)
  · rcases mem_or_mem_eraseIdx hm h with rfl | h
    · exact .inl (List.mem_append_right _ (List.mem_singleton_self _))
    · exact .inr (.inl h)
  · exact .inr (.inr h)

theorem Queued.deliver {b b' : Broker} {n : Nat} {m : Message} (h : b.Queued msg)
    (hb : b.deliver i n = some (m, b')) : b'.Queued msg ∨ msg = m := by
  obtain ⟨m', hm, he⟩ := Option.map_eq_some_iff.1 hb
  cases he
  rcases h with h | h
  · exact (mem_or_mem_eraseIdx hm h).symm.imp_left .inl
  · exact .inl (.inr h)

theorem unacked_deliver {b b' : Broker} {n : Nat} {m : Message}
    (hb : b.deliver i n = some (m, b')) : b'.unacked = (i, m) :: b.unacked := by
  obtain ⟨m', -, he⟩ := Option.map_eq_some_iff.1 hb
  cases he
  rfl

theorem unacked_cases {j : Nat} {b : Broker} (h : (j, msg) ∈ b.unacked) (i : Nat) :
    j = i ∨ (j, msg) ∈ b.unacked.filter fun d => d.1 ≠ i := by
  by_cases hij : j = i
  · exact .inl hij
  · exact .inr (List.mem_filter.2 ⟨h, by simpa using hij⟩)

theorem unacked_reject {j : Nat} {b : Broker} (h : (j, msg) ∈ b.unacked) (i : Nat) :
    (j, msg) ∈ (b.reject i).unacked ∨ (b.reject i).Queued msg := by
  refine (unacked_cases h i).symm.imp_right ?_
  rintro rfl
  exact .inr (.inr (List.mem_append_right _ (mem_deliveries.2 h)))

theorem unacked_requeue {j : Nat} {b : Broker} (h : (j, msg) ∈ b.unacked) (i : Nat) :
    (j, msg) ∈ (b.requeue i).unacked ∨ (b.requeue i).Queued msg := by
  refine (unacked_cases h i).symm.imp_right ?_
  rintro rfl
  exact .inl (List.mem_append_left _ (mem_deliveries.2 h))

end Broker

/-! ## Actions -/

/-- What an operation does to the queues. -/
inductive OpTraffic (i : Nat) (b : Broker) : Op → Broker → Prop where
  | same (op : Op) : OpTraffic i b op b
  | publish (key : RoutingKey) (body : List (String × Json)) (headers : Headers)
      (expiration : Option Int) : OpTraffic i b (.publish key body headers expiration)
        (b.enqueue key ⟨body, headers⟩)
  | ack : OpTraffic i b .ack (b.ack i)
  | reject : OpTraffic i b .reject (b.reject i)

theorem effect_traffic {c : Choice} {op : Op} {r : Except Exc (Res op)}
    (h : s.effect i c op = some (r, s')) : OpTraffic i s.broker op s'.broker := by
  cases effect_cases h with
  | kept hs | committed _ hs | ended _ hs | issued u unused hs => subst hs; exact .same op
  | staged ls ws hws hs =>
    rw [(lockAndStage_spec hs).2.2.2.2.2]
    exact .same op
  | published key body headers expiration hop hs =>
    subst hop hs; exact .publish key body headers expiration
  | acked hop hs => subst hop hs; exact .ack
  | rejected hop hs => subst hop hs; exact .reject

/-- An operation that has returned has done what it does. -/
inductive Resolved (i : Nat) (op : Op) (b b' : Broker) : Except Exc (Res op) → Prop where
  | done (r : Except Exc (Res op)) (h : OpTraffic i b op b') (hop : ∀ key body headers expiration,
      op = .publish key body headers expiration → b' = b.enqueue key ⟨body, headers⟩) :
    Resolved i op b b' r
  | lost (e : Exc) (h : b' = b) : Resolved i op b b' (.error e)

theorem exec_traffic {c : Choice} {op : Op} {r : Except Exc (Res op)}
    (h : World.exec i op c s = some (r, s')) : Resolved i op s.broker s'.broker r := by
  have hdone : ∀ r₁ s₁, s.effect i c op = some (r₁, s₁) →
      Resolved i op s.broker s₁.broker r := by
    intro r₁ s₁ he
    refine .done r (effect_traffic he) ?_
    rintro key body headers expiration rfl
    cases he
    rfl
  rcases exec_cases h with ⟨s₁, he, rfl⟩ | ⟨f, r₁, s₁, he, -, -, rfl⟩ | ⟨f, rfl, -, rfl⟩
  · exact hdone r s₁ he
  · exact hdone r₁ s₁ he
  · exact .lost _ (by cases op <;> rfl)

/-- What an action does to the queues. -/
inductive Traffic (py : Platform) (a : Action Choice Kind Env) (y y' : Config) : Prop where
  | quiet (h : y'.state.broker = y.state.broker)
      (hlog : ∀ i msg, y'.state.Logged (.delivered i msg) → y.state.Logged (.delivered i msg))
  | deliver (i n : Nat) (msg : Message) (ha : a = .spawn i (.dispatch n))
      (idle : y.procs i = .idle)
      (h : y.state.broker.deliver i n = some (msg, y'.state.broker))
      (logged : y'.state.log = .delivered i msg :: .started i (.dispatch n) :: y.state.log)
  | run (i : Nat) (op : Op) (r : Except Exc (Res op)) (req : Req py i op y.state)
      (hlog : ∃ l, y'.state.log = .did i op r :: (l ++ y.state.log) ∧
        ∀ e ∈ l, ∃ ws, e = .committed i ws)
      (h : Resolved i op y.state.broker y'.state.broker r)
  | requeue (i : Nat) (h : y'.state.broker = y.state.broker.requeue i)
      (hlog : y'.state.log = y.state.log)
  | expire (n : Nat) (h : y.state.broker.expire n = some y'.state.broker)
      (hlog : y'.state.log = y.state.log)

theorem Legit.traffic (h : Legit py a y y') : Traffic py a y y' := by
  cases h with
  | spawn i k s p ha hi _ hs hy =>
    subst hy
    cases k with
    | dispatch n =>
      obtain ⟨⟨msg, b⟩, hb, he⟩ := Option.map_eq_some_iff.1 hs
      cases he
      exact .deliver i n msg ha hi hb rfl
    | _ =>
      cases hs
      exact .quiet rfl fun i msg hm => (List.mem_cons.1 hm).resolve_left (by simp)
  | run i c k op p r s _ _ hreq hs hy =>
    subst hy
    obtain ⟨l, hl, he⟩ := exec_log hs
    exact .run i op r hreq ⟨l, hl, fun e hm => ⟨_, (he e hm).2⟩⟩ (exec_traffic hs)
  | kill i k p _ _ hy =>
    subst hy
    exact .quiet rfl fun _ _ hm => hm
  | env e s _ hs hy =>
    subst hy
    cases e with
    | tick d => cases hs; exact .quiet rfl fun _ _ hm => hm
    | requeue j => cases hs; exact .requeue j rfl rfl
    | expire n =>
      obtain ⟨b, hb, rfl⟩ := Option.map_eq_some_iff.1 hs
      exact .expire n hb rfl

/-- A message on a queue stays on one, or a process that starts gets it. -/
theorem Traffic.queued (h : Traffic py a y y') (hm : y.state.broker.Queued msg) :
    y'.state.broker.Queued msg ∨ ∃ i n, y.procs i = .idle ∧ (i, msg) ∈ y'.state.broker.unacked ∧
      y'.state.log = .delivered i msg :: .started i (.dispatch n) :: y.state.log := by
  cases h with
  | quiet hb hlog => exact .inl (by rw [hb]; exact hm)
  | deliver i n m ha idle hb logged =>
    refine (hm.deliver hb).imp_right ?_
    rintro rfl
    refine ⟨i, n, idle, ?_, logged⟩
    rw [Broker.unacked_deliver hb]
    exact List.mem_cons_self ..
  | run i op r req hlog hb =>
    cases hb with
    | lost e hb => exact .inl (by rw [hb]; exact hm)
    | done r hb hop =>
      generalize y'.state.broker = b at hb
      cases hb with
      | same | ack => exact .inl hm
      | publish key body headers expiration => exact .inl (hm.enqueue key _)
      | reject => exact .inl (hm.imp_right (Or.imp_right (List.mem_append_left _)))
  | requeue i hb hlog => exact .inl (by rw [hb]; exact hm.imp_left (List.mem_append_right _))
  | expire n hb hlog => exact .inl (hm.expire hb)

/-- A delivery stays, or its message goes back to a queue, or its consumer settles it. -/
theorem Traffic.unacked (h : Traffic py a y y') (hm : (i, msg) ∈ y.state.broker.unacked) :
    (i, msg) ∈ y'.state.broker.unacked ∨ y'.state.broker.Queued msg ∨ Req py i .ack y.state := by
  cases h with
  | quiet hb hlog => exact .inl (by rw [hb]; exact hm)
  | deliver j n m ha idle hb logged =>
    rw [Broker.unacked_deliver hb]
    exact .inl (List.mem_cons_of_mem _ hm)
  | run j op r req hlog hb =>
    cases hb with
    | lost e hb => exact .inl (by rw [hb]; exact hm)
    | done r hb hop =>
      generalize y'.state.broker = b at hb
      cases hb with
      | same => exact .inl hm
      | publish key => cases key <;> exact .inl hm
      | ack =>
        rcases Broker.unacked_cases hm j with rfl | hm
        · exact .inr (.inr req)
        · exact .inl hm
      | reject => exact (Broker.unacked_reject hm j).imp_right .inl
  | requeue j hb hlog =>
    rw [hb]
    exact (Broker.unacked_requeue hm j).imp_right .inl
  | expire n hb hlog =>
    obtain ⟨m, -, he⟩ := Option.map_eq_some_iff.1 hb
    rw [← he]
    exact .inl hm

theorem Traffic.unacked_new (h : Traffic py a y y') (hm : (i, msg) ∈ y'.state.broker.unacked) :
    (i, msg) ∈ y.state.broker.unacked ∨ y'.state.Logged (.delivered i msg) := by
  cases h with
  | quiet hb hlog => exact .inl (by rw [← hb]; exact hm)
  | deliver j n m ha idle hb logged =>
    rw [Broker.unacked_deliver hb] at hm
    rcases List.mem_cons.1 hm with he | hm
    · cases he
      refine .inr ?_
      rw [Logged, logged]
      exact List.mem_cons_self ..
    · exact .inl hm
  | run j op r req hlog hb =>
    cases hb with
    | lost e hb => exact .inl (by rw [← hb]; exact hm)
    | done r hb hop =>
      generalize y'.state.broker = b at hb hm
      cases hb with
      | same => exact .inl hm
      | publish key => cases key <;> exact .inl hm
      | ack | reject => exact .inl (List.mem_filter.1 hm).1
  | requeue j hb hlog =>
    rw [hb] at hm
    exact .inl (List.mem_filter.1 hm).1
  | expire n hb hlog =>
    obtain ⟨m, -, he⟩ := Option.map_eq_some_iff.1 hb
    rw [← he] at hm
    exact .inl hm

theorem Legit.delivered (h : Legit py a y y') (hd : y'.state.Logged (.delivered i msg)) :
    y.state.Logged (.delivered i msg) ∨ msg ∈ y.state.broker.messages := by
  refine (h.logged hd).imp_right ?_
  intro hadds
  cases hadds with
  | delivered _ k p _ ha idle clean hs =>
    obtain ⟨n, b, -, hb, -⟩ := start_dispatch hs clean.1 hd
    exact (Broker.messages_deliver hb).1

/-! ## Sent messages -/

namespace World

/-- The message was published, whatever the call answered. -/
def Sent (msg : Message) (s : World) : Prop :=
  ∃ i key expiration r, s.Did i (.publish key msg.body msg.headers expiration) r

end World

instance (msg : Message) : (discipline py).Persistent (Sent msg) :=
  inferInstanceAs ((discipline py).Persistent fun s => ∃ i key expiration r,
    s.Did i (.publish key msg.body msg.headers expiration) r)

/-- A message that comes onto a queue was just published. -/
theorem Legit.message (h : Legit py a y y') (hm : msg ∈ y'.state.broker.messages) :
    msg ∈ y.state.broker.messages ∨ y'.state.Sent msg := by
  cases h.traffic with
  | quiet hb hlog => exact .inl (by rw [← hb]; exact hm)
  | deliver j n m ha idle hb logged => exact .inl ((Broker.messages_deliver hb).2 msg hm)
  | run j op r req hlog hb =>
    obtain ⟨l, hl, -⟩ := hlog
    have hdid : y'.state.Did j op r := by
      rw [Did, Logged, hl]
      exact List.mem_cons_self ..
    cases hb with
    | lost e hb => exact .inl (by rw [← hb]; exact hm)
    | done r hb hop =>
      generalize hb' : y'.state.broker = b at hb hm
      cases hb with
      | same => exact .inl hm
      | publish key body headers expiration =>
        rcases Broker.messages_enqueue hm with rfl | hm
        · exact .inr ⟨j, key, expiration, r, hdid⟩
        · exact .inl hm
      | ack => exact .inl (Broker.messages_ack hm)
      | reject => exact .inl (Broker.messages_reject hm)
  | requeue j hb hlog =>
    rw [hb] at hm
    exact .inl (Broker.messages_requeue hm)
  | expire n hb hlog => exact .inl (Broker.messages_expire hb hm)

/-- **Every message on a queue was published**, and so was every message that was delivered. -/
theorem messages_sent (h : Reachable py A y) :
    (∀ msg ∈ y.state.broker.messages, y.state.Sent msg) ∧
    ∀ i msg, y.state.Logged (.delivered i msg) → y.state.Sent msg := by
  refine h.invariant (P := fun y => (∀ msg ∈ y.state.broker.messages, y.state.Sent msg) ∧
    ∀ i msg, y.state.Logged (.delivered i msg) → y.state.Sent msg)
    (fun _ => ⟨fun _ hm => (by cases hm), fun _ _ hd => by cases hd⟩) ?_
  intro y y' a hr _ hP _ hl
  have hold : ∀ msg, y.state.Sent msg → y'.state.Sent msg := fun msg => hl.persistent hr
  refine ⟨fun msg hm => ?_, fun i msg hd => ?_⟩
  · rcases hl.message hm with hm | hs
    · exact hold msg (hP.1 msg hm)
    · exact hs
  · rcases hl.delivered hd with hd | hm
    · exact hold msg (hP.2 i msg hd)
    · exact hold msg (hP.1 msg hm)

end PaymentProcessing
