import Mathlib.Data.List.Basic
import Mathlib.Logic.Function.Basic

/-!
# A message broker with direct exchanges

Exchanges, queues and bindings are declared; declaring again what is there changes nothing, and a
queue is not declared again with other arguments. A message that is published to an exchange goes to
every queue bound under its routing key. A message that is rejected, or expires on its queue, is
published once more as the queue says, or dropped. An operation that the broker refuses has no
result.
-/

namespace Amqp

/-! ## Topologies -/

/-- A queue as it is declared. -/
structure Queue where
  name : String
  /-- The exchange and the routing key for the messages that die on it. -/
  deadLetter : Option (String × String)
deriving DecidableEq

/-- A queue is bound to an exchange under a routing key. -/
structure Binding where
  exchange : String
  key : String
  queue : String
deriving DecidableEq

/-- What has been declared. -/
structure Topology where
  exchanges : List String
  queues : List Queue
  bindings : List Binding
deriving DecidableEq

/-- A declaration. -/
inductive Declaration where
  | exchange (name : String)
  | queue (q : Queue)
  | bind (x : Binding)

namespace Topology

def empty : Topology := ⟨[], [], []⟩

/-- The queue with this name. -/
def queue? (t : Topology) (name : String) : Option Queue := t.queues.find? fun q => q.name = name

/-- One declaration. -/
def declare (t : Topology) : Declaration → Option Topology
  | .exchange name =>
    some (if name ∈ t.exchanges then t else { t with exchanges := t.exchanges ++ [name] })
  | .queue q =>
    match t.queue? q.name with
    | none => some { t with queues := t.queues ++ [q] }
    | some q' => if q' = q then some t else none
  | .bind x =>
    if x.exchange ∈ t.exchanges ∧ (t.queue? x.queue).isSome then
      some (if x ∈ t.bindings then t else { t with bindings := t.bindings ++ [x] })
    else none

/-- Declarations, one after the other. -/
def declareAll (t : Topology) : List Declaration → Option Topology
  | [] => some t
  | d :: ds => (t.declare d).bind fun t => t.declareAll ds

/-- What is declared has been declared. -/
def Has (t : Topology) : Declaration → Prop
  | .exchange name => name ∈ t.exchanges
  | .queue q => t.queue? q.name = some q
  | .bind x => (x.exchange ∈ t.exchanges ∧ (t.queue? x.queue).isSome) ∧ x ∈ t.bindings

variable {t t' : Topology} {d d' : Declaration}

/-- What is there can be declared again, and nothing changes. -/
theorem declare_of_has (h : t.Has d) : t.declare d = some t := by
  cases d with
  | exchange name =>
    have hname : name ∈ t.exchanges := h
    simp only [declare, if_pos hname]
  | queue q =>
    have hq : t.queue? q.name = some q := h
    simp only [declare, hq, if_true]
  | bind x =>
    obtain ⟨hready, hx⟩ := h
    simp only [declare, if_pos hready, if_pos hx]

theorem queue?_append (t : Topology) (q : Queue) (name : String) :
    queue? { t with queues := t.queues ++ [q] } name =
      (t.queue? name).or (if q.name = name then some q else none) := by
  rw [queue?, queue?, List.find?_append]
  by_cases hq : q.name = name
  · rw [List.find?_cons_of_pos (by simpa using hq), if_pos hq]
  · rw [List.find?_cons_of_neg (by simpa using hq), List.find?_nil, if_neg hq]

/-- A declaration adds to the topology, and never takes away. -/
structure Grows (t t' : Topology) : Prop where
  exchanges : t.exchanges ⊆ t'.exchanges
  queues : ∀ name q, t.queue? name = some q → t'.queue? name = some q
  bindings : t.bindings ⊆ t'.bindings

theorem Grows.refl (t : Topology) : t.Grows t := ⟨fun _ h => h, fun _ _ h => h, fun _ h => h⟩

theorem Grows.trans {t₁ t₂ t₃ : Topology} (h₁ : t₁.Grows t₂) (h₂ : t₂.Grows t₃) : t₁.Grows t₃ :=
  ⟨fun _ h => h₂.exchanges (h₁.exchanges h), fun _ _ h => h₂.queues _ _ (h₁.queues _ _ h),
    fun _ h => h₂.bindings (h₁.bindings h)⟩

theorem Grows.has (h : t.Grows t') (hd : t.Has d) : t'.Has d := by
  cases d with
  | exchange name => exact h.exchanges hd
  | queue q => exact h.queues _ _ hd
  | bind x =>
    obtain ⟨⟨hx, hq⟩, hb⟩ := hd
    obtain ⟨q, hq⟩ := Option.isSome_iff_exists.1 hq
    exact ⟨⟨h.exchanges hx, Option.isSome_iff_exists.2 ⟨q, h.queues _ _ hq⟩⟩, h.bindings hb⟩

/-- **A declaration** leaves everything that was there, and what it declares. -/
theorem declare_spec (h : t.declare d = some t') : t.Grows t' ∧ t'.Has d := by
  cases d with
  | exchange name =>
    simp only [declare, Option.some.injEq] at h
    split at h
    · rename_i hname
      subst h
      exact ⟨.refl t, hname⟩
    · subst h
      exact ⟨⟨List.subset_append_left .., fun _ _ h => h, fun _ h => h⟩,
        List.mem_append_right _ (List.mem_singleton_self _)⟩
  | queue q =>
    simp only [declare] at h
    split at h
    · rename_i hnone
      cases h
      have hkeep : ∀ name q', t.queue? name = some q' →
          queue? { t with queues := t.queues ++ [q] } name = some q' := by
        intro name q' hq'
        rw [queue?_append, hq', Option.some_or]
      refine ⟨⟨fun _ h => h, hkeep, fun _ h => h⟩, ?_⟩
      show queue? _ q.name = some q
      rw [queue?_append, hnone, if_pos rfl, Option.none_or]
    · rename_i q' hq'
      split at h
      · rename_i hsame
        cases h
        rw [hsame] at hq'
        exact ⟨.refl t, hq'⟩
      · cases h
  | bind x =>
    simp only [declare] at h
    split at h
    · rename_i hready
      simp only [Option.some.injEq] at h
      split at h
      · rename_i hx
        subst h
        exact ⟨.refl t, hready, hx⟩
      · subst h
        exact ⟨⟨fun _ h => h, fun _ _ h => h, List.subset_append_left ..⟩, hready,
          List.mem_append_right _ (List.mem_singleton_self _)⟩
    · cases h

theorem declareAll_spec {ds : List Declaration} : ∀ {t t' : Topology},
    t.declareAll ds = some t' → t.Grows t' ∧ ∀ d ∈ ds, t'.Has d := by
  induction ds with
  | nil =>
    intro t t' h
    cases h
    exact ⟨.refl _, fun _ hd => by cases hd⟩
  | cons d ds ih =>
    intro t t' h
    obtain ⟨t₁, h₁, h₂⟩ := Option.bind_eq_some_iff.1 h
    obtain ⟨hgrow, hhas⟩ := declare_spec h₁
    obtain ⟨hgrow', hall⟩ := ih h₂
    refine ⟨hgrow.trans hgrow', fun d' hd => ?_⟩
    rcases List.mem_cons.1 hd with rfl | hd
    · exact hgrow'.has hhas
    · exact hall d' hd

theorem declareAll_of_has {ds : List Declaration} (h : ∀ d ∈ ds, t.Has d) :
    t.declareAll ds = some t := by
  induction ds with
  | nil => rfl
  | cons d ds ih =>
    rw [declareAll, declare_of_has (h d (List.mem_cons_self ..)), Option.bind_some]
    exact ih fun d' hd => h d' (List.mem_cons_of_mem _ hd)

/-- **Declaring everything once more changes nothing**, whatever was there before. -/
theorem declareAll_again {ds : List Declaration} (h : t.declareAll ds = some t') :
    t'.declareAll ds = some t' :=
  declareAll_of_has (declareAll_spec h).2

/-- The queues to which a direct exchange routes a key. -/
def routes (t : Topology) (exchange key : String) : List String :=
  (t.bindings.filter fun x => x.exchange = exchange && x.key = key).map (·.queue)

end Topology

/-! ## Messages -/

/-- A delivery that is not settled, on a channel. -/
structure Delivery (M : Type) where
  channel : Nat
  queue : String
  message : M

/-- The broker. -/
structure Broker (M : Type) where
  topology : Topology
  contents : String → List M
  unacked : List (Delivery M)

namespace Broker

variable {M : Type}

def empty : Broker M := ⟨Topology.empty, fun _ => [], []⟩

/-- Declarations of a client. -/
def declareAll (b : Broker M) (ds : List Declaration) : Option (Broker M) :=
  (b.topology.declareAll ds).map fun t => { b with topology := t }

/-- A message is routed by an exchange. -/
def route (b : Broker M) (exchange key : String) (msg : M) : Broker M :=
  { b with contents := fun q =>
      if q ∈ b.topology.routes exchange key then b.contents q ++ [msg] else b.contents q }

/-- `basic.publish`. -/
def publish (b : Broker M) (exchange key : String) (msg : M) : Option (Broker M) :=
  if exchange ∈ b.topology.exchanges then some (b.route exchange key msg) else none

/-- A message dies on a queue. -/
def deadLetter (b : Broker M) (queue : String) (msg : M) : Broker M :=
  match (b.topology.queue? queue).bind (·.deadLetter) with
  | none => b
  | some (exchange, key) => b.route exchange key msg

/-- The `n`-th message of a queue is delivered on a channel. -/
def deliver (b : Broker M) (queue : String) (channel n : Nat) : Option (M × Broker M) :=
  (b.contents queue)[n]?.map fun msg =>
    (msg, { b with
      contents := Function.update b.contents queue ((b.contents queue).eraseIdx n)
      unacked := ⟨channel, queue, msg⟩ :: b.unacked })

/-- The deliveries on a channel. -/
def deliveries (b : Broker M) (channel : Nat) : List (Delivery M) :=
  b.unacked.filter fun d => d.channel = channel

/-- `basic.ack` of what is delivered on a channel. -/
def ack (b : Broker M) (channel : Nat) : Broker M :=
  { b with unacked := b.unacked.filter fun d => d.channel ≠ channel }

/-- `basic.reject` without requeueing. -/
def reject (b : Broker M) (channel : Nat) : Broker M :=
  (b.deliveries channel).foldl (fun b d => b.deadLetter d.queue d.message) (b.ack channel)

/-- The channel is closed: what is delivered on it goes back to the front of its queue. -/
def requeue (b : Broker M) (channel : Nat) : Broker M :=
  { b.ack channel with contents := fun q =>
      ((b.deliveries channel).filter fun d => d.queue = q).map (·.message) ++ b.contents q }

/-- The time to live of the `n`-th message of a queue is over. -/
def expire (b : Broker M) (queue : String) (n : Nat) : Option (Broker M) :=
  (b.contents queue)[n]?.map fun msg =>
    { b with contents := Function.update b.contents queue ((b.contents queue).eraseIdx n) }.deadLetter
      queue msg

end Broker

end Amqp
