import PaymentProcessing.Infrastructure.Topology
import PaymentProcessing.Guarantees.Messages

/-!
# The broker carries the queues

With the topology that the processes declare, the broker does with exchanges, bindings and dead
letters what the system is modelled to do on its three queues: whatever is published, delivered,
settled, requeued or expires, in any order, and however often the topology is declared again.
-/

namespace PaymentProcessing

open Python Relational Concurrency World

variable {py : Platform} {A : Allowed} {y y' : Config} {a : Action Choice Kind Env}
  {b : Amqp.Broker Message} {q : Broker} {cs ds : List Command}

/-! ## The topology -/

/-- What the declarations make of an empty broker. -/
def PaymentsTopology.declared : Amqp.Topology where
  exchanges := [paymentsExchange]
  queues := [⟨"payments.new", some (paymentsExchange, "payments.new.dlq")⟩,
    ⟨"payments.new.retry", some (paymentsExchange, "payments.new")⟩, ⟨"payments.new.dlq", none⟩]
  bindings := [⟨paymentsExchange, "payments.new", "payments.new"⟩,
    ⟨paymentsExchange, "payments.new.retry", "payments.new.retry"⟩,
    ⟨paymentsExchange, "payments.new.dlq", "payments.new.dlq"⟩]

theorem declare_empty : Amqp.Topology.empty.declareAll PaymentsTopology.declare =
    some PaymentsTopology.declared := by
  decide +kernel

theorem routes_declared (key : RoutingKey) :
    PaymentsTopology.declared.routes paymentsExchange key.value = [key.value] := by
  cases key <;> decide +kernel

theorem value_injective {key key' : RoutingKey} (h : key.value = key'.value) : key = key' := by
  cases key <;> cases key' <;> first | rfl | exact absurd h (by decide +kernel)

/-- The queue that a routing key leads to. -/
def Broker.queue (q : Broker) : RoutingKey → List Message
  | .new => q.ready
  | .retry => q.retry
  | .dlq => q.dlq

/-- The broker has the topology, its queues have these contents, and nothing is anywhere else. -/
structure Mirrors (b : Amqp.Broker Message) (q : Broker) : Prop where
  topology : b.topology = PaymentsTopology.declared
  queue : ∀ key, b.contents key.value = q.queue key
  elsewhere : ∀ name, (∀ key : RoutingKey, name ≠ key.value) → b.contents name = []
  unacked : b.unacked = q.unacked.map fun d => ⟨d.1, RoutingKey.new.value, d.2⟩

/-! ## Commands -/

theorem Mirrors.route (h : Mirrors b q) (key : RoutingKey) (msg : Message) :
    Mirrors (b.route paymentsExchange key.value msg) (q.enqueue key msg) := by
  have hcontents : ∀ name, (b.route paymentsExchange key.value msg).contents name =
      if name = key.value then b.contents name ++ [msg] else b.contents name := by
    intro name
    simp only [Amqp.Broker.route, h.topology, routes_declared, List.mem_singleton]
  refine ⟨h.topology, fun key' => ?_, fun name hname => ?_, ?_⟩
  · rw [hcontents, h.queue]
    by_cases hkey : key' = key
    · subst hkey
      rw [if_pos rfl]
      cases key' <;> rfl
    · rw [if_neg fun he => hkey (value_injective he)]
      cases key <;> cases key' <;> first | rfl | exact absurd rfl hkey
  · rw [hcontents, if_neg (hname key)]
    exact h.elsewhere name hname
  · cases key <;> exact h.unacked

/-- What dies on a queue with a dead-letter key goes to the queue of that key. -/
theorem Mirrors.deadLetter (h : Mirrors b q) (key key' : RoutingKey) (msg : Message)
    (hdead : (PaymentsTopology.declared.queue? key.value).bind (·.deadLetter) =
      some (paymentsExchange, key'.value)) :
    Mirrors (b.deadLetter key.value msg) (q.enqueue key' msg) := by
  have hsame : b.deadLetter key.value msg = b.route paymentsExchange key'.value msg := by
    simp only [Amqp.Broker.deadLetter, h.topology, hdead]
  rw [hsame]
  exact h.route key' msg

/-- A message leaves its queue. -/
theorem Mirrors.erase (h : Mirrors b q) (q' : Broker) (key : RoutingKey) (n : Nat)
    (hq : q'.queue key = (q.queue key).eraseIdx n)
    (hothers : ∀ key', key' ≠ key → q'.queue key' = q.queue key')
    (hunacked : q'.unacked = q.unacked) :
    Mirrors { b with contents :=
      Function.update b.contents key.value ((b.contents key.value).eraseIdx n) } q' := by
  refine ⟨h.topology, fun key' => ?_, fun name hname => ?_, ?_⟩
  · by_cases hkey : key' = key
    · subst hkey
      exact (Function.update_self ..).trans (by rw [h.queue, hq])
    · rw [hothers key' hkey]
      exact (Function.update_of_ne (fun he => hkey (value_injective he)) _ _).trans (h.queue key')
  · exact (Function.update_of_ne (hname key) _ _).trans (h.elsewhere name hname)
  · rw [hunacked]
    exact h.unacked

theorem Mirrors.ack (h : Mirrors b q) (i : Nat) : Mirrors (b.ack i) (q.ack i) := by
  refine ⟨h.topology, fun key => ?_, h.elsewhere, ?_⟩
  · cases key <;> exact h.queue _
  · simp only [Amqp.Broker.ack, Broker.ack, h.unacked, List.filter_map]
    rfl

theorem Mirrors.deliveries (h : Mirrors b q) (i : Nat) : b.deliveries i =
    (q.unacked.filter fun d => d.1 = i).map fun d => ⟨d.1, RoutingKey.new.value, d.2⟩ := by
  simp only [Amqp.Broker.deliveries, h.unacked, List.filter_map]
  rfl

/-- Deliveries die one after the other. -/
theorem Mirrors.deadLetters (h : Mirrors b q) (ds : List (Nat × Message)) :
    Mirrors ((ds.map fun d => (⟨d.1, RoutingKey.new.value, d.2⟩ : Amqp.Delivery Message)).foldl
      (fun b d => b.deadLetter d.queue d.message) b)
      { q with dlq := q.dlq ++ ds.map Prod.snd } := by
  induction ds generalizing b q with
  | nil =>
    rw [List.map_nil, List.map_nil, List.append_nil]
    exact h
  | cons d ds ih =>
    have hnext := ih (h.deadLetter .new .dlq d.2 (by decide +kernel))
    rw [Broker.enqueue, List.append_assoc] at hnext
    exact hnext

theorem Mirrors.reject (h : Mirrors b q) (i : Nat) : Mirrors (b.reject i) (q.reject i) := by
  have hreject := (h.ack i).deadLetters (q.unacked.filter fun d => d.1 = i)
  rw [← h.deliveries] at hreject
  exact hreject

theorem Mirrors.requeue (h : Mirrors b q) (i : Nat) : Mirrors (b.requeue i) (q.requeue i) := by
  have hcontents : ∀ name, (b.requeue i).contents name = (if name = RoutingKey.new.value then
      (q.unacked.filter fun d => d.1 = i).map Prod.snd else []) ++ b.contents name := by
    intro name
    simp only [Amqp.Broker.requeue, h.deliveries, List.filter_map]
    split
    · rename_i hname
      subst hname
      simp [Function.comp_def]
    · rename_i hname
      have hne : RoutingKey.new.value ≠ name := fun he => hname he.symm
      simp [Function.comp_def, hne]
  refine ⟨h.topology, fun key => ?_, fun name hname => ?_, (h.ack i).unacked⟩
  · rw [hcontents, h.queue]
    cases key with
    | new => rw [if_pos rfl]; rfl
    | retry | dlq => rw [if_neg (by decide +kernel)]; rfl
  · rw [hcontents, if_neg (hname .new), List.nil_append]
    exact h.elsewhere name hname

theorem Mirrors.declare (h : Mirrors b q) : b.declareAll PaymentsTopology.declare = some b := by
  have hagain := Amqp.Topology.declareAll_again declare_empty
  rw [← h.topology] at hagain
  rw [Amqp.Broker.declareAll, hagain]
  rfl

/-- Both answer the same and leave states that belong together, or both refuse. -/
abbrev Agree {α : Type} (x : Option (α × Amqp.Broker Message)) (x' : Option (α × Broker)) : Prop :=
  Option.Rel (fun r r' => r.1 = r'.1 ∧ Mirrors r.2 r'.2) x x'

/-- **One command.** -/
theorem Mirrors.command (h : Mirrors b q) (c : Command) : Agree (c.onAmqp b) (c.onQueues q) := by
  cases c with
  | declare =>
    rw [Command.onAmqp, h.declare]
    exact .some ⟨rfl, h⟩
  | publish key msg =>
    have hexchange : paymentsExchange ∈ b.topology.exchanges := by
      rw [h.topology]
      exact List.mem_singleton_self _
    rw [Command.onAmqp, Amqp.Broker.publish, if_pos hexchange]
    exact .some ⟨rfl, h.route key msg⟩
  | deliver i n =>
    have hready : b.contents PaymentsTopology.newQueue.name = q.ready := h.queue .new
    simp only [Command.onAmqp, Command.onQueues, Amqp.Broker.deliver, Broker.deliver, hready]
    cases hn : q.ready[n]? with
    | none => exact .none
    | some msg =>
      have herase := h.erase { q with ready := q.ready.eraseIdx n } .new n rfl
        (fun key hkey => by cases key <;> first | rfl | exact absurd rfl hkey) rfl
      rw [show b.contents RoutingKey.new.value = q.ready from hready] at herase
      refine .some ⟨rfl, herase.topology, fun key => ?_, herase.elsewhere, ?_⟩
      · have hkey := herase.queue key
        cases key <;> exact hkey
      · exact congrArg (_ :: ·) h.unacked
  | ack i => exact .some ⟨rfl, h.ack i⟩
  | reject i => exact .some ⟨rfl, h.reject i⟩
  | requeue i => exact .some ⟨rfl, h.requeue i⟩
  | expire n =>
    have hretry : b.contents PaymentsTopology.retryQueue.name = q.retry := h.queue .retry
    simp only [Command.onAmqp, Command.onQueues, Amqp.Broker.expire, Broker.expire, hretry]
    cases hn : q.retry[n]? with
    | none => exact .none
    | some msg =>
      have herase := h.erase { q with retry := q.retry.eraseIdx n } .retry n rfl
        (fun key hkey => by cases key <;> first | rfl | exact absurd rfl hkey) rfl
      rw [show b.contents RoutingKey.retry.value = q.retry from hretry] at herase
      exact .some ⟨rfl, herase.deadLetter .retry .new msg (by decide +kernel)⟩

theorem Agree.bind {α β : Type} {x : Option (α × Amqp.Broker Message)} {x' : Option (α × Broker)}
    {f : α × Amqp.Broker Message → Option (β × Amqp.Broker Message)}
    {f' : α × Broker → Option (β × Broker)} (h : Agree x x')
    (hf : ∀ out b q, Mirrors b q → Agree (f (out, b)) (f' (out, q))) :
    Agree (x.bind f) (x'.bind f') := by
  cases h with
  | none => exact .none
  | @some r r' hr =>
    obtain ⟨out, b⟩ := r
    obtain ⟨out', q⟩ := r'
    obtain ⟨rfl, hc⟩ := hr
    exact hf out b q hc

/-- **Any sequence of commands.** -/
theorem Mirrors.commands (h : Mirrors b q) (cs : List Command) :
    Agree (Command.runAll (fun b c => c.onAmqp b) cs b)
      (Command.runAll (fun q c => c.onQueues q) cs q) := by
  induction cs generalizing b q with
  | nil => exact .some ⟨rfl, h⟩
  | cons c cs ih =>
    refine (h.command c).bind ?_
    intro out b q hc
    simp only [Option.map_eq_bind]
    exact (ih hc).bind fun outs b q hc => .some ⟨rfl, hc⟩

/-! ## Runs -/

theorem Command.runAll_append {σ : Type} {step : σ → Command → Option (Option Message × σ)}
    {s s₁ s₂ : σ} {outs outs' : List Message} (h₁ : Command.runAll step cs s = some (outs, s₁))
    (h₂ : Command.runAll step ds s₁ = some (outs', s₂)) :
    Command.runAll step (cs ++ ds) s = some (outs ++ outs', s₂) := by
  induction cs generalizing s outs with
  | nil =>
    cases h₁
    exact h₂
  | cons c cs ih =>
    obtain ⟨os, hos, hrest⟩ := Option.bind_eq_some_iff.1 h₁
    obtain ⟨rest, hcs, he⟩ := Option.map_eq_some_iff.1 hrest
    cases he
    simp only [List.cons_append, Command.runAll, hos, Option.bind_some, ih hcs, Option.map_some,
      List.append_assoc]

/-- Declarations are nothing to the queues. -/
theorem Command.runAll_filter (cs : List Command) (q : Broker) :
    Command.runAll (fun q c => c.onQueues q) (cs.filter fun c => !c.isDeclare) q =
      Command.runAll (fun q c => c.onQueues q) cs q := by
  induction cs generalizing q with
  | nil => rfl
  | cons c cs ih =>
    cases c with
    | declare =>
      rw [List.filter_cons_of_neg (by simp [isDeclare]), ih]
      simp [Command.runAll, onQueues]
    | _ =>
      rw [List.filter_cons_of_pos rfl]
      simp only [Command.runAll, ih]

/-- The message that an entry delivers. -/
def Entry.delivery? : Entry → Option Message
  | .delivered _ msg => some msg
  | _ => none

namespace World

/-- The messages that were delivered, in their order. -/
def delivered (s : World) : List Message := s.log.reverse.filterMap Entry.delivery?

theorem delivered_of_log {s s' : World} {l : List Entry} (h : s'.log = l ++ s.log) :
    s'.delivered = s.delivered ++ l.reverse.filterMap Entry.delivery? := by
  rw [delivered, h, List.reverse_append, List.filterMap_append, delivered]

/-- A process has given this command, or it is one that nobody gives. -/
def Gave (s : World) : Command → Prop
  | .declare => False
  | .publish key msg => ∃ i expiration r, s.Did i (.publish key msg.body msg.headers expiration) r
  | .deliver i _ => ∃ msg, s.Logged (.delivered i msg)
  | .ack i => ∃ r, s.Did i .ack r
  | .reject i => ∃ r, s.Did i .reject r
  | .requeue _ | .expire _ => True

theorem Gave.mono {s s' : World} {c : Command} (hlog : s.log <:+ s'.log) (h : s.Gave c) :
    s'.Gave c := by
  cases c with
  | declare => exact h
  | publish key msg =>
    obtain ⟨i, expiration, r, hd⟩ := h
    exact ⟨i, expiration, r, hlog.subset hd⟩
  | deliver i n =>
    obtain ⟨msg, hd⟩ := h
    exact ⟨msg, hlog.subset hd⟩
  | ack i | reject i =>
    obtain ⟨r, hd⟩ := h
    exact ⟨r, hlog.subset hd⟩
  | requeue i | expire n => trivial

end World

/-- What an operation of process `i` is to the broker; one that is lost does not get there. -/
def Op.command (i : Nat) (c : Choice) (op : Op) : Option Command :=
  match c.outcome, op with
  | .lost _, _ => none
  | _, .publish key body headers _ => some (.publish key ⟨body, headers⟩)
  | _, .ack => some (.ack i)
  | _, .reject => some (.reject i)
  | _, _ => none

/-- What an action is to the broker. -/
def Config.command (y : Config) : Action Choice Kind Env → Option Command
  | .spawn i (.dispatch n) => some (.deliver i n)
  | .run i c =>
    match y.procs i with
    | .running _ (.call op _) => op.command i c
    | _ => none
  | .env (.requeue i) => some (.requeue i)
  | .env (.expire n) => some (.expire n)
  | _ => none

/-- The commands of a run, in the order of its actions. -/
def commands (py : Platform) (acts : List (Action Choice Kind Env)) (y : Config) : List Command :=
  (machine py).trace (fun y a => (Config.command y a).toList) acts y

/-- The commands take the queues from one state to the other. -/
structure Driven (s s' : World) (cs : List Command) (outs : List Message) : Prop where
  gave : ∀ c ∈ cs, s'.Gave c
  queues : Command.runAll (fun q c => c.onQueues q) cs s.broker = some (outs, s'.broker)
  delivered : s'.delivered = s.delivered ++ outs

namespace Driven

variable {s s₁ s' : World} {c : Command} {l : List Entry} {outs outs' : List Message}

/-- No command. -/
theorem none (hl : s'.log = l ++ s.log) (hnone : l.reverse.filterMap Entry.delivery? = [])
    (hb : s'.broker = s.broker) : Driven s s' [] [] where
  gave c hc := by cases hc
  queues := by rw [hb]; rfl
  delivered := by rw [World.delivered_of_log hl, hnone]

/-- One command. -/
theorem one {o : Option Message} (hgave : s'.Gave c)
    (hc : c.onQueues s.broker = some (o, s'.broker)) (hl : s'.log = l ++ s.log)
    (hout : l.reverse.filterMap Entry.delivery? = o.toList) : Driven s s' [c] o.toList where
  gave c' hc' := by
    cases List.mem_singleton.1 hc'
    exact hgave
  queues := by
    simp only [Command.runAll, hc, Option.bind_some, Option.map_some, List.append_nil]
  delivered := by rw [World.delivered_of_log hl, hout]

theorem trans (h₁ : Driven s s₁ cs outs) (h₂ : Driven s₁ s' ds outs')
    (hlog : s₁.log <:+ s'.log) : Driven s s' (cs ++ ds) (outs ++ outs') where
  gave c hc := (List.mem_append.1 hc).elim (fun hc => (h₁.gave c hc).mono hlog) (h₂.gave c)
  queues := Command.runAll_append h₁.queues h₂.queues
  delivered := by rw [h₂.delivered, h₁.delivered, List.append_assoc]

end Driven

/-- An operation is its command, or nothing to the broker. -/
theorem exec_command {i : Nat} {op : Op} {r : Except Exc (Res op)} {c : Choice} {s s' : World}
    (h : World.exec i op c s = some (r, s')) :
    (op.command i c = none ∧ s'.broker = s.broker) ∨
      ∃ cmd, op.command i c = some cmd ∧ cmd.onQueues s.broker = some (none, s'.broker) ∧
        (s'.Did i op r → s'.Gave cmd) := by
  obtain ⟨outcome, time, uuid, random, skip, status⟩ := c
  cases op with
  | publish key body headers expiration =>
    cases outcome with
    | lost f => cases h; exact .inl ⟨rfl, rfl⟩
    | fine | late f => cases h; exact .inr ⟨_, rfl, rfl, fun hd => ⟨i, expiration, _, hd⟩⟩
  | ack | reject =>
    cases outcome with
    | lost f => cases h; exact .inl ⟨rfl, rfl⟩
    | fine | late f => cases h; exact .inr ⟨_, rfl, rfl, fun hd => ⟨_, hd⟩⟩
  | _ =>
    refine .inl ⟨by cases outcome <;> rfl, ?_⟩
    generalize hb : s'.broker = b
    cases hb ▸ exec_traffic h with
    | lost e hb => exact hb
    | done r hb => cases hb; rfl

/-- An operation delivers nothing, and is its command, if it has one. -/
theorem exec_driven {i : Nat} {op : Op} {r : Except Exc (Res op)} {c : Choice} {s s' : World}
    (h : World.exec i op c s = some (r, s')) :
    ∃ outs, Driven s s' (op.command i c).toList outs := by
  obtain ⟨l, hl, hcommitted⟩ := exec_log h
  have hdid : s'.Did i op r := by
    rw [Did, Logged, hl]
    exact List.mem_cons_self ..
  have hnone : (Entry.did i op r :: l).reverse.filterMap Entry.delivery? = [] := by
    refine List.filterMap_eq_nil_iff.2 ?_
    intro e he
    rcases List.mem_cons.1 (List.mem_reverse.1 he) with rfl | he
    · rfl
    · rw [(hcommitted e he).2]
      rfl
  rw [← List.cons_append] at hl
  rcases exec_command h with ⟨hc, hb⟩ | ⟨cmd, hc, hb, hgave⟩
  · rw [hc]
    exact ⟨_, .none hl hnone hb⟩
  · rw [hc]
    exact ⟨_, .one (hgave hdid) (o := none) hb hl hnone⟩

/-- **One action** is its command, if it has one. -/
theorem Legit.driven (h : Legit py a y y') :
    ∃ outs, Driven y.state y'.state (y.command a).toList outs := by
  cases h with
  | spawn i k s p ha hi hA hs hy =>
    subst ha hy
    cases k with
    | dispatch n =>
      obtain ⟨⟨msg, b⟩, hb, he⟩ := Option.map_eq_some_iff.1 hs
      cases he
      have hdeliver : (Command.deliver i n).onQueues y.state.broker = some (some msg, b) :=
        congrArg (Option.map fun mb : Message × Broker => (some mb.1, mb.2)) hb
      exact ⟨_, .one (c := .deliver i n) ⟨msg, List.mem_cons_self ..⟩ hdeliver
        (l := [.delivered i msg, .started i (.dispatch n)]) rfl rfl⟩
    | _ =>
      cases hs
      exact ⟨_, .none (l := [.started i _]) rfl rfl rfl⟩
  | run i c k op p r s ha hi hreq hs hy =>
    subst ha hy
    have hcommand : y.command (.run i c) = op.command i c := by
      simp only [Config.command, hi]
    rw [hcommand]
    exact exec_driven hs
  | kill i k p ha hi hy =>
    subst ha hy
    exact ⟨_, .none (l := []) rfl rfl rfl⟩
  | env e s ha hs hy =>
    subst ha hy
    cases e with
    | tick d =>
      cases hs
      exact ⟨_, .none (l := []) rfl rfl rfl⟩
    | requeue j =>
      cases hs
      exact ⟨_, .one (c := .requeue j) trivial rfl (l := []) rfl rfl⟩
    | expire n =>
      obtain ⟨b, hb, rfl⟩ := Option.map_eq_some_iff.1 hs
      exact ⟨_, .one (c := .expire n) trivial (congrArg (Option.map (Prod.mk none)) hb)
        (l := []) rfl rfl⟩

/-- **A run** is its commands. -/
theorem Reachable.driven {acts : List (Action Choice Kind Env)} (h : Reachable py anyAction y)
    (hrun : (machine py).runActions acts y = some y') :
    ∃ outs, Driven y.state y'.state (commands py acts y) outs := by
  induction acts generalizing y with
  | nil =>
    cases hrun
    exact ⟨[], .none (l := []) rfl rfl rfl⟩
  | cons a acts ih =>
    obtain ⟨y₁, hs, hrest⟩ := Option.bind_eq_some_iff.1 hrun
    have h₁ : Reachable py anyAction y₁ := h.steps (.step a .refl trivial hs)
    have hl : Legit py a y y₁ := h.good.legit (sound py) hs
    obtain ⟨outs, hone⟩ := hl.driven
    obtain ⟨outs', hd⟩ := ih h₁ hrest
    have hlater := h₁.evolves (Machine.steps_of_runActions
      (Machine.AllowedActions.any (fun _ _ => trivial) ..) hrest)
    have hcommands : commands py (a :: acts) y = (y.command a).toList ++ commands py acts y₁ := by
      rw [commands, Machine.trace, hs]
      rfl
    rw [hcommands]
    exact ⟨_, hone.trans hd hlater.log⟩

/-- The first client that declares the topology finds an empty broker. -/
theorem declareAll_empty : (Amqp.Broker.empty (M := Message)).declareAll PaymentsTopology.declare =
    some ⟨PaymentsTopology.declared, fun _ => [], []⟩ :=
  congrArg (Option.map fun t => (⟨t, fun _ => [], []⟩ : Amqp.Broker Message)) declare_empty

theorem mirrors_empty : Mirrors ⟨PaymentsTopology.declared, fun _ => [], []⟩ ⟨[], [], [], []⟩ where
  topology := rfl
  queue key := by cases key <;> rfl
  elsewhere _ _ := rfl
  unacked := rfl

/-- **The declared topology carries the system.** Take what the actions of a run are to the broker,
in their order (what is published and settled, and what is delivered, requeued or expires), and let
clients declare the topology whenever they like, as long as one does at first: the broker then
accepts every command and delivers what was delivered in the run, and its queues have what the
queues of the run have. -/
theorem topology_carries_system {clock : Time} {acts : List (Action Choice Kind Env)}
    (h : (machine py).runActions acts (Config.init clock) = some y) :
    (∀ c ∈ commands py acts (Config.init clock), y.state.Gave c) ∧
      ∀ ds : List Command,
        (ds.filter fun c => !c.isDeclare) = commands py acts (Config.init clock) →
        ∃ b, Command.runAll (fun b c => c.onAmqp b) (.declare :: ds) Amqp.Broker.empty =
          some (y.state.delivered, b) ∧ Mirrors b y.state.broker := by
  obtain ⟨outs, hdriven⟩ := Reachable.driven ⟨clock, .refl⟩ h
  refine ⟨hdriven.gave, fun ds hds => ?_⟩
  obtain rfl : y.state.delivered = outs := hdriven.delivered
  have hrun := hdriven.queues
  rw [← hds, Command.runAll_filter] at hrun
  have hagree := mirrors_empty.commands ds
  rw [show Command.runAll (fun q c => c.onQueues q) ds ⟨[], [], [], []⟩ = _ from hrun] at hagree
  generalize hx : Command.runAll (fun b c => c.onAmqp b) ds
    ⟨PaymentsTopology.declared, fun _ => [], []⟩ = x at hagree
  cases hagree with
  | @some r r' hr =>
    obtain ⟨outs, b⟩ := r
    obtain ⟨rfl, hc⟩ := hr
    refine ⟨b, ?_, hc⟩
    have hdeclare : Command.declare.onAmqp Amqp.Broker.empty =
        some (none, ⟨PaymentsTopology.declared, fun _ => [], []⟩) := by
      rw [Command.onAmqp, declareAll_empty, Option.map_some]
    simp only [Command.runAll, hdeclare, hx, Option.bind_some, Option.map_some, Option.toList_none,
      List.nil_append]

theorem topology_carries_system_sample : ∃ y, (machine samplePlatform).runActions relayedRun
    (Config.init 0) = some y ∧ y.state.delivered ≠ [] ∧
      ∀ ds : List Command,
        (ds.filter fun c => !c.isDeclare) = commands samplePlatform relayedRun (Config.init 0) →
        ∃ b, Command.runAll (fun b c => c.onAmqp b) (.declare :: ds) Amqp.Broker.empty =
          some (y.state.delivered, b) ∧ Mirrors b y.state.broker := by
  have hrun : ((machine samplePlatform).runActions relayedRun (Config.init 0)).any
      (fun y => !y.state.delivered.isEmpty) = true := by
    decide +kernel
  obtain ⟨y, hy, hdelivered⟩ := (Option.any_eq_true _ _).1 hrun
  exact ⟨y, hy, by simpa using hdelivered, (topology_carries_system hy).2⟩

end PaymentProcessing
