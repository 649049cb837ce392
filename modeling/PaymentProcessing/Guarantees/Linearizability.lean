import PaymentProcessing.Protocol.Answering

/-!
# Requests happen at once

Every answer of the API is the answer of the ledger at one moment between the request's start and
its end: requests that overlap, fail, crash or race for a key, while relays and consumers run, are
answered as if they had come one after another.
-/

namespace PaymentProcessing

open Python Relational Concurrency World

variable {py : Platform} {A : Allowed} {i j : Nat} {s s' : World} {y y' : Config} {k : Kind}
  {h : History} {command : CreatePaymentInput} {id : UUID} {p : Payment}

/-! ## Events of the log -/

/-- The process that an event happens to. -/
def LedgerEvent.process : LedgerEvent → Option Nat
  | .accept i _ | .look i _ _ | .seek i _ _ => some i
  | .decide .. | .settle _ | .tell .. => none

theorem mem_events {e : Entry} {event : LedgerEvent} (he : s.Logged e) (hev : event ∈ e.events) :
    event ∈ s.events := List.mem_flatMap.2 ⟨e, he, hev⟩

/-- What an entry is on the ledger happens to its process. -/
theorem events_process {e : Entry} {event : LedgerEvent} (hev : event ∈ e.events)
    (hp : event.process = some i) : e.process = i := by
  cases e with
  | committed j ws =>
    obtain ⟨w, -, hw⟩ := List.mem_filterMap.1 (List.mem_reverse.1 hev)
    cases w with
    | insertPayment row =>
      obtain ⟨p, -, rfl⟩ := Option.map_eq_some_iff.1 hw
      exact Option.some.inj hp
    | updatePayment row =>
      obtain ⟨p, -, rfl⟩ := Option.map_eq_some_iff.1 hw
      cases hp
    | insertCharge row =>
      cases hw
      cases hp
    | _ => cases hw
  | did j op r =>
    unfold Entry.events at hev
    split at hev
    · rename_i he
      cases he
    · rename_i he
      cases he
      obtain rfl := List.mem_singleton.1 hev
      exact Option.some.inj hp
    · rename_i he
      cases he
      obtain rfl := List.mem_singleton.1 hev
      exact Option.some.inj hp
    · rename_i he
      cases he
      obtain rfl := List.mem_singleton.1 hev
      exact Option.some.inj hp
    · obtain rfl := List.mem_singleton.1 hev
      cases hp
    · cases hev
  | _ => cases hev

/-! ## What requests are answered -/

theorem exec_outside {op : Op} {c : Choice} {e : Exc}
    (h : World.exec i op c s = some (.error e, s')) : e.isOutside := by
  rcases exec_cases h with ⟨s₁, he, -⟩ | ⟨f, r₁, s₁, -, hr, -, -⟩ | ⟨f, hr, -, -⟩
  · by_cases hop : ∃ row, op = .insertPayment row
    · obtain ⟨row, rfl⟩ := hop
      obtain ⟨s₂, -, hr⟩ := Option.map_eq_some_iff.1 he
      split at hr
      · cases hr
        exact .inr ⟨_, rfl⟩
      · split at hr
        · cases hr
          exact .inr ⟨_, rfl⟩
        · cases hr
    · obtain ⟨a, ha⟩ := effect_answers (fun row hrow => hop ⟨row, hrow⟩) he
      cases ha
  · cases hr
    exact isOutside_fault f
  · cases hr
    exact isOutside_fault f

theorem exec_replied (hi : Inv s) {op : Op} {c : Choice} {r : Except Exc (Res op)}
    (hread : op.readsPayments = true → s.view i = s.db)
    (h : World.exec i op c s = some (r, s')) : Replied op r := by
  cases r with
  | error e =>
    have hout : e.isOutside := exec_outside h
    cases op <;> exact hout
  | ok a =>
    obtain ⟨s₁, he, -⟩ := exec_ok h
    cases op with
    | getPayment id =>
      intro r hr
      subst hr
      have hrow : s.db.payments.find? id = some r := by
        simp only [effect, hread rfl, Option.some.injEq, Prod.mk.injEq, Except.ok.injEq] at he
        exact he.1
      obtain ⟨p, rfl, -⟩ := payment_of_find? hi hrow
      exact ⟨p, rfl⟩
    | selectPaymentByKey key =>
      intro r hr
      subst hr
      have hrow : s.db.payments.rows.find? (fun row => row.idempotencyKey = key) = some r := by
        simp only [effect, hread rfl, Option.some.injEq, Prod.mk.injEq, Except.ok.injEq] at he
        exact he.1
      obtain ⟨p, rfl, -⟩ := payment_of_find? hi (Table.find?_key (List.mem_of_find?_eq_some hrow))
      exact ⟨p, rfl⟩
    | _ => trivial

/-- What the history of a process shows is committed was committed by it. -/
theorem Reachable.sealed (hy : Reachable py A y) : ∀ i ws, Sealed (y.state.history i) ws →
    y.state.Logged (.committed i ws) := by
  refine hy.invariant (P := fun y => ∀ i ws, Sealed (y.state.history i) ws →
    y.state.Logged (.committed i ws)) (fun _ i ws ⟨before, hb, _⟩ => ?_) ?_
  · cases List.eq_nil_of_suffix_nil hb
  intro y y' a hr _ hP _ hl i ws hs
  have hsuffix : y.state.log <:+ y'.state.log := (hl.evolves (sound py) hr.inv).log
  cases hl with
  | spawn j k s p _ _ _ hst hy =>
    subst hy
    rw [(recorded py).start hst i] at hs
    exact hsuffix.mem (hP i ws hs)
  | run j c k op f r s _ hj _ hst hy =>
    subst hy
    by_cases hij : i = j
    · subst hij
      rw [(recorded py).exec hst] at hs
      obtain ⟨before, hb, hw⟩ := hs
      rcases List.suffix_cons_iff.1 hb with he | hb
      · simp only [List.cons.injEq, Sigma.mk.injEq] at he
        obtain ⟨⟨rfl, hr'⟩, rfl⟩ := he
        cases hr'
        have hstaged : y.state.staged i = ws := hr.drafts i k _ hj ws hw
        rcases exec_commit hst with rfl | ⟨⟨f, hf⟩, -⟩
        · rw [← hstaged]
          exact List.mem_cons_of_mem _ (List.mem_cons_self ..)
        · cases hf
      · exact hsuffix.mem (hP i ws ⟨before, hb, hw⟩)
    · rw [(recorded py).others hst hij] at hs
      exact hsuffix.mem (hP i ws hs)
  | kill j k p _ _ hy =>
    subst hy
    exact hsuffix.mem (hP i ws hs)
  | env e s _ hst hy =>
    subst hy
    rw [(recorded py).env hst i] at hs
    exact hsuffix.mem (hP i ws hs)

/-- A request that answers with a payment. -/
def Answering (Q : History → Except Exc PaymentOutput → Prop) (h : History) :
    Except Exc Reply → Prop
  | .ok reply => ∃ output, reply = .payment output ∧ Q h (.ok output)
  | .error e => Q h (.error e)

theorem Reachable.requests (hy : Reachable py A y) (hk : y.state.Logged (.started i k))
    {φ : Op → Prop} {Q : History → Except Exc PaymentOutput → Prop} {q : App PaymentOutput}
    (hq : Requests φ Q q []) (hstart : ∀ s s' p, World.start py i k s = some (s', p) →
      p = q.bind fun output => .ret (.payment output)) :
    KeepsAlong (fun _ => Replied) (fun _ => φ) (Answering Q) i y := by
  refine hy.keeps_started hk (fun s s' p hs => ?_) ?_
  · rw [hstart s s' p hs]
    exact Prog.Along.bind hq (fun h output ho => ⟨output, rfl, ho⟩) fun _ _ he => he
  · intro y k' op f c r s hr _ hi hex _
    exact exec_replied hr.inv (fun hread => hr.reads_committed hi hread) hex

theorem Reachable.creating (hy : Reachable py A y)
    (hk : y.state.Logged (.started i (.createPayment command))) :
    KeepsAlong (fun _ => Replied) (fun _ => Op.requests command) (Answering (Created command)) i y :=
  hy.requests hk (requests_createPayment command) fun _ _ _ hs => by cases hs; rfl

theorem Reachable.reading (hy : Reachable py A y)
    (hk : y.state.Logged (.started i (.getPayment id))) :
    KeepsAlong (fun _ => Replied) (fun _ _ => True) (Answering (Read id)) i y :=
  hy.requests hk (requests_getPayment id) fun _ _ _ hs => by cases hs; rfl

/-! ## The moment of a request -/

/-- Requests of the API. -/
def Kind.isRequest : Kind → Bool
  | .createPayment _ | .getPayment _ => true
  | _ => false

/-- What the ledger answers to the request of process `i` when this event happens to it. -/
inductive Decides (i : Nat) : Kind → LedgerEvent → Except Exc Reply → Prop where
  | created (command : CreatePaymentInput) (p : Payment) (now : Time)
      (requested : Requested command p now) :
    Decides i (.createPayment command) (.accept i p) (.ok (.payment (PaymentOutput.fromPayment p)))
  | replayed (command : CreatePaymentInput) (p : Payment) (matching : Matches command p true) :
    Decides i (.createPayment command) (.seek i command.idempotencyKey (some p))
      (.ok (.payment (PaymentOutput.fromPayment p)))
  | conflict (command : CreatePaymentInput) (p : Payment) (matching : Matches command p false) :
    Decides i (.createPayment command) (.seek i command.idempotencyKey (some p))
      (.error (.idempotencyConflict (some p.id)))
  | found (id : UUID) (p : Payment) :
    Decides i (.getPayment id) (.look i id (some p)) (.ok (.payment (PaymentOutput.fromPayment p)))
  | missing (id : UUID) :
    Decides i (.getPayment id) (.look i id none) (.error (.paymentNotFound id))

/-- The events are a history of the ledger that explains every answer. -/
structure Linearizes (py : Platform) (events : List LedgerEvent) (y : Config) : Prop where
  legal : (ledger py).Legal events
  book : y.state.db.book = (ledger py).after events
  /-- Only requests create, and only what they are asked for. -/
  accepted : ∀ i p, .accept i p ∈ events → ∃ command now,
    y.state.Logged (.started i (.createPayment command)) ∧ Requested command p now
  returned : ∀ i k reply, k.isRequest = true → y.procs i = .running k (.ret reply) →
    ∃ event ∈ events, Decides i k event (.ok reply)
  conflict : ∀ i command id,
    y.procs i = .running (.createPayment command) (.raise (.idempotencyConflict id)) →
    ∃ event ∈ events, Decides i (.createPayment command) event (.error (.idempotencyConflict id))
  missing : ∀ i id id', y.procs i = .running (.getPayment id) (.raise (.paymentNotFound id')) →
    ∃ event ∈ events, Decides i (.getPayment id) event (.error (.paymentNotFound id'))

/-- A row that was found by its key is an event. -/
theorem seek_event (hm : ⟨.selectPaymentByKey command.idempotencyKey,
    .ok (some (PaymentMapper.toModel p))⟩ ∈ s.history i) :
    .seek i command.idempotencyKey (some p) ∈ s.events := by
  refine mem_events (mem_history.1 hm) ?_
  rw [Entry.events, Option.bind_some, paymentOfRow_toModel]
  exact List.mem_singleton_self _

/-- What is sought is found with its key. -/
theorem matches_of_seek {matching : Bool} {money : Money} {events : List LedgerEvent}
    (hl : (ledger py).Legal events)
    (hm : .seek i command.idempotencyKey (some p) ∈ events)
    (hmoney : Money.new command.amount (.inr command.currency) = .ok money)
    (hmatch : hasMatchingCreateInput p command money = matching) : Matches command p matching := by
  obtain ⟨before, -, hfound, -⟩ := hl.enabled hm
  exact ⟨(hfound p rfl).2, money, hmoney, hmatch⟩

/-- What is accepted was committed. -/
theorem committed_of_accept (hm : .accept i p ∈ s.events) : ∃ ws row,
    s.Logged (.committed i ws) ∧ .insertPayment row ∈ ws ∧ paymentOfRow row = some p := by
  obtain ⟨e, he, hev⟩ := List.mem_flatMap.1 hm
  have hi : e.process = i := events_process hev rfl
  cases e with
  | committed j ws =>
    obtain rfl : j = i := hi
    obtain ⟨w, hw, hevent⟩ := List.mem_filterMap.1 (List.mem_reverse.1 hev)
    cases w with
    | insertPayment row =>
      obtain ⟨q, hq, hqp⟩ := Option.map_eq_some_iff.1 hevent
      cases hqp
      exact ⟨ws, row, he, hw, hq⟩
    | updatePayment row =>
      obtain ⟨q, -, hqp⟩ := Option.map_eq_some_iff.1 hevent
      cases hqp
    | insertCharge row => cases hevent
    | _ => cases hevent
  | did j op r =>
    unfold Entry.events at hev
    split at hev
    · rename_i hc
      cases hc
    · cases List.mem_singleton.1 hev
    · cases List.mem_singleton.1 hev
    · cases List.mem_singleton.1 hev
    · cases List.mem_singleton.1 hev
    · cases hev
  | _ => cases hev

theorem Reachable.accepted (hy : Reachable py A y) (hm : .accept i p ∈ y.state.events) :
    ∃ command now, y.state.Logged (.started i (.createPayment command)) ∧
      Requested command p now := by
  obtain ⟨ws, row, hws, hrow, hp⟩ := committed_of_accept hm
  obtain ⟨op, r, hd, hstages⟩ := (written hy i _).2 ws hws hrow
  obtain ⟨k, hk⟩ := hy.inv.active _ hd
  have hop : op = .insertPayment row := by
    cases op with
    | insertPayment row' =>
      cases hstages
      rfl
    | updateOutbox ids patch => obtain ⟨_, -, he⟩ := hstages; cases he
    | deleteProcessed cutoff limit => obtain ⟨_, he⟩ := hstages; cases he
    | _ => cases hstages
  subst hop
  have hpermits : k.permits (.insertPayment row) := did_permitted hy hk hd
  cases k with
  | createPayment command =>
    obtain ⟨-, -, ⟨q, now, rfl, hq⟩, -⟩ := (hy.creating hk).obeyed.of_mem (mem_history.2 hd)
    rw [paymentOfRow_toModel, Option.some.injEq] at hp
    subst hp
    exact ⟨command, now, hk, hq⟩
  | _ => cases hpermits

/-- A committed creation is an event. -/
theorem accept_event (hy : Reachable py A y) {eventId : UUID}
    (hs : Sealed (y.state.history i) (creation p eventId)) : .accept i p ∈ y.state.events := by
  refine mem_events (hy.sealed i _ hs) (List.mem_reverse.2 (List.mem_filterMap.2 ?_))
  refine ⟨_, List.mem_cons_self .., ?_⟩
  rw [Write.event, paymentOfRow_toModel]
  rfl

/-- **Every answer of a request is explained** by the events of the log. -/
theorem Reachable.linearizes (hy : Reachable py A y) : Linearizes py y.state.events y where
  legal := hy.tracks.legal
  book := hy.tracks.after
  accepted _ _ hm := hy.accepted hm
  returned i k reply hk hi := by
    have hstarted := hy.running_started i k _ hi
    cases k with
    | createPayment command =>
      obtain ⟨output, rfl, hc⟩ := (hy.creating hstarted).along _ _ hi
      cases hc with
      | stored p now id requested committed =>
        exact ⟨_, accept_event hy committed, .created command p now requested⟩
      | replayed p money valid found matching =>
        have hev := seek_event found
        exact ⟨_, hev, .replayed command p (matches_of_seek hy.tracks.legal hev valid matching)⟩
    | getPayment id =>
      obtain ⟨output, rfl, hr⟩ := (hy.reading hstarted).along _ _ hi
      cases hr with
      | found p found =>
        refine ⟨.look i id (some p), mem_events (mem_history.1 found) ?_, .found id p⟩
        rw [Entry.events, Option.bind_some, paymentOfRow_toModel]
        exact List.mem_singleton_self _
    | _ => cases hk
  conflict i command id hi := by
    have hc : Created command (y.state.history i) (.error (.idempotencyConflict id)) :=
      (hy.creating (hy.running_started i _ _ hi)).along _ _ hi
    have hsome : ∃ id', id = some id' := by
      have hraised : y.state.Conflicting command (.idempotencyConflict id) := hy.raised hi
      cases id with
      | none => exact absurd rfl hraised.2
      | some id' => exact ⟨id', rfl⟩
    obtain ⟨id', rfl⟩ := hsome
    cases hc with
    | conflict p money valid found matching =>
      have hev := seek_event found
      exact ⟨_, hev, .conflict command p (matches_of_seek hy.tracks.legal hev valid matching)⟩
    | refused _ noConflict => exact absurd rfl (noConflict id')
  missing i id id' hi := by
    have hr : Read id (y.state.history i) (.error (.paymentNotFound id')) :=
      (hy.reading (hy.running_started i _ _ hi)).along _ _ hi
    cases hr with
    | missing missing =>
      exact ⟨.look i id none, mem_events (mem_history.1 missing) (List.mem_singleton_self _),
        .missing id⟩
    | failed _ failed => exact absurd rfl (failed id')

/-! ## Real time -/

/-- A process that has ended does nothing any more. -/
theorem Reachable.ended (hy : Reachable py A y) {r : Except Exc Reply}
    (hi : y.procs i = .running k (Prog.ofExcept r)) (hs : (machine py).Steps A y y') :
    y'.state.own i = y.state.own i := by
  have hend : ∀ {op : Op} {f : Except Exc (Res op) → App Reply},
      (Prog.ofExcept r : App Reply) ≠ .call op f := by
    intro op f he
    cases r <;> cases he
  have hboth : (y'.procs i = .running k (Prog.ofExcept r) ∨ ∃ k', y'.procs i = .killed k') ∧
      y'.state.own i = y.state.own i := by
    refine hy.later hs (P := fun y' => (y'.procs i = .running k (Prog.ofExcept r) ∨
      ∃ k', y'.procs i = .killed k') ∧ y'.state.own i = y.state.own i) ⟨.inl hi, rfl⟩ ?_
    intro y₁ y₂ a _ _ hP _ hl
    obtain ⟨hproc, hown⟩ := hP
    cases hl.moves i with
    | rest proc own =>
      rw [proc]
      exact ⟨hproc, own.trans hown⟩
    | kill k' proc own => exact ⟨.inr ⟨k', proc⟩, own.trans hown⟩
    | spawn k' p idle =>
      rw [idle] at hproc
      rcases hproc with hproc | ⟨k', hproc⟩ <;> cases hproc
    | run k' op f r' c hj =>
      rw [hj] at hproc
      rcases hproc with hproc | ⟨k', hproc⟩
      · exact absurd (Proc.running.inj hproc).2.symm hend
      · cases hproc
  exact hboth.2

/-- What a run adds to the events. -/
theorem Reachable.adds_events (hy : Reachable py A y) (hs : (machine py).Steps A y y') :
    ∃ later, y'.state.events = later ++ y.state.events ∧
      (∀ i k r, y.procs i = .running k (Prog.ofExcept r) →
        ∀ event ∈ later, event.process ≠ some i) ∧
      ∀ i, y.procs i = .idle → ∀ event ∈ y.state.events, event.process ≠ some i := by
  obtain ⟨l, hl⟩ := (hy.evolves hs).log
  refine ⟨l.flatMap Entry.events, events_append hl.symm, ?_, ?_⟩
  · intro i k r hi event hm hp
    obtain ⟨e, he, hev⟩ := List.mem_flatMap.1 hm
    have hown := hy.ended hi hs
    rw [own, own, ← hl, List.filter_append] at hown
    have hnone := List.append_left_eq_self.1 hown
    refine List.filter_eq_nil_iff.1 hnone e he (decide_eq_true ?_)
    exact events_process hev hp
  · intro i hi event hm hp
    obtain ⟨e, he, hev⟩ := List.mem_flatMap.1 hm
    exact not_logged_of_own (hy.good.idle i hi).1 he (events_process hev hp)

/-- **Requests are linearizable.** The events of the log are a legal history of the ledger, which
leads to the tables; every answered request has its event in it, which decides the answer; what
happens later is added at the end: nothing more to a request that has ended, and nothing before to
one that has not started. -/
theorem requests_linearizable (h : Reachable py anyAction y)
    (hs : (machine py).Steps anyAction y y') :
    Linearizes py y'.state.events y' ∧ ∃ later, y'.state.events = later ++ y.state.events ∧
      (∀ i k r, y.procs i = .running k (Prog.ofExcept r) →
        ∀ event ∈ later, event.process ≠ some i) ∧
      ∀ i, y.procs i = .idle → ∀ event ∈ y.state.events, event.process ≠ some i :=
  ⟨(h.steps hs).linearizes, h.adds_events hs⟩

/-- A payment is created and read. -/
def requestsRun : List (Action Choice Kind Env) :=
  creates 0 (UUID.ofNat 1) (UUID.ofNat 2) ++ .spawn 1 (.getPayment (UUID.ofNat 1)) :: performs 1 2

theorem requestsRun_reaches : ∃ y y',
    (machine samplePlatform).runActions (creates 0 (UUID.ofNat 1) (UUID.ofNat 2)) (Config.init 0) =
      some y ∧
    (machine samplePlatform).runActions requestsRun (Config.init 0) = some y' ∧
    Reachable samplePlatform anyAction y ∧ (machine samplePlatform).Steps anyAction y y' := by
  have hA : (machine samplePlatform).AllowedActions anyAction requestsRun (Config.init 0) :=
    Machine.AllowedActions.any (fun _ _ => trivial) ..
  exact reachable_of_runs (creates 0 (UUID.ofNat 1) (UUID.ofNat 2))
    (.spawn 1 (.getPayment (UUID.ofNat 1)) :: performs 1 2) hA (by decide +kernel)

theorem requests_linearizable_sample : ∃ y y', Reachable samplePlatform anyAction y ∧
    (machine samplePlatform).Steps anyAction y y' ∧ y'.state.events.length = 2 ∧
    Linearizes samplePlatform y'.state.events y' := by
  obtain ⟨y, y', -, hy', hr, hs⟩ := requestsRun_reaches
  have hlen : ((machine samplePlatform).runActions requestsRun (Config.init 0)).map
      (fun y => y.state.events.length) = some 2 := by decide +kernel
  rw [hy', Option.map_some, Option.some.injEq] at hlen
  exact ⟨y, y', hr, hs, hlen, (requests_linearizable hr hs).1⟩

/-! ## One request after another -/

/-- The payment that an answer is about, as the ledger had it. -/
theorem Decides.known {events : List LedgerEvent} {event : LedgerEvent} {output : PaymentOutput}
    (hl : (ledger py).Legal events) (hm : event ∈ events)
    (hd : Decides i k event (.ok (.payment output))) : ∃ before p, event :: before <:+ events ∧
      output = PaymentOutput.fromPayment p ∧
      ((ledger py).after (event :: before)).payment p.id = some p := by
  obtain ⟨before, hb, hen⟩ := hl.enabled hm
  have hsound : ((ledger py).after before).Sound :=
    ledger_sound (hl.of_suffix ((List.suffix_cons ..).trans hb))
  cases hd with
  | created command p now requested =>
    refine ⟨before, p, hb, rfl, ?_⟩
    show (((ledger py).after before).apply (.accept i p)).payment p.id = some p
    rw [Book.accept_payment, if_pos rfl]
  | replayed command p matching => exact ⟨before, p, hb, rfl, (hen.1 p rfl).1⟩
  | found id p =>
    have hp : some p = ((ledger py).after before).payment id := hen
    have hid := hsound.filed id p hp.symm
    subst hid
    exact ⟨before, p, hb, rfl, hp.symm⟩

theorem key_eq {key key' : IdempotencyKey} (h : key.value = key'.value) : key = key' := by
  cases key
  cases key'
  cases h
  rfl

/-- What happened before an event that is new. -/
theorem suffix_of_new {later es before : List LedgerEvent} {event : LedgerEvent}
    (hb : event :: before <:+ later ++ es) (hnew : event ∉ es) : es <:+ before := by
  rcases List.suffix_or_suffix_of_suffix hb (List.suffix_append later es) with h | h
  · exact absurd (h.mem (List.mem_cons_self ..)) hnew
  · rcases List.suffix_cons_iff.1 h with rfl | h
    · exact absurd (List.mem_cons_self ..) hnew
    · exact h

/-- Every event of process `j` meets payment `p` in the ledger, as it was or completed since. -/
def Sees (py : Platform) (j : Nat) (p : Payment) (y : Config) : Prop :=
  ∀ event ∈ y.state.events, event.process = some j → ∃ before,
    ((ledger py).after before).Enabled py event ∧ ((ledger py).after before).Sound ∧
      ∃ q, ((ledger py).after before).payment p.id = some q ∧ p.Extends q

/-- A process that starts later sees what the ledger has. -/
theorem Reachable.sees (h : Reachable py anyAction y) (hs : (machine py).Steps anyAction y y')
    (hj : y.procs j = .idle) {known : List LedgerEvent} (hb : known <:+ y.state.events)
    (hp : ((ledger py).after known).payment p.id = some p) : Sees py j p y' := by
  intro event hm hproc
  obtain ⟨later, hlater, -, hfresh⟩ := h.adds_events hs
  have hlegal := (h.steps hs).linearizes.legal
  obtain ⟨before, hbefore, hen⟩ := hlegal.enabled hm
  have hnew : event ∉ y.state.events := fun hold => hfresh j hj event hold hproc
  have hsuffix : before <:+ y'.state.events := (List.suffix_cons ..).trans hbefore
  rw [hlater] at hbefore
  exact ⟨before, hen, ledger_sound (hlegal.of_suffix hsuffix),
    ledger_extends (hlegal.of_suffix hsuffix) (hb.trans (suffix_of_new hbefore hnew)) p.id p hp⟩

namespace Sees

/-- An answer with its id is that payment. -/
theorem answered (h : Sees py j p y) {event : LedgerEvent} {output : PaymentOutput}
    (hm : event ∈ y.state.events) (hd : Decides j k event (.ok (.payment output)))
    (hid : output.paymentId = p.id) : ∃ q, p.Extends q ∧ output = PaymentOutput.fromPayment q := by
  cases hd with
  | created command q now requested =>
    obtain ⟨before, hen, -, r, hr, -⟩ := h _ hm rfl
    have hnone := hen.2.2.1
    rw [show q.id = p.id from hid, hr] at hnone
    cases hnone
  | replayed command q matching =>
    obtain ⟨before, hen, -, r, hr, hext⟩ := h _ hm rfl
    have hq := (hen.1 q rfl).1
    rw [show q.id = p.id from hid, hr] at hq
    cases hq
    exact ⟨q, hext, rfl⟩
  | found id q =>
    obtain ⟨before, hen, hsound, r, hr, hext⟩ := h _ hm rfl
    have hq : some q = ((ledger py).after before).payment id := hen
    have hqid := hsound.filed id q hq.symm
    rw [← hqid, show q.id = p.id from hid, hr] at hq
    cases hq
    exact ⟨q, hext, rfl⟩

/-- Read by its id it is there. -/
theorem not_missing (h : Sees py j p y) : .look j p.id none ∉ y.state.events := by
  intro hm
  obtain ⟨before, hen, -, r, hr, -⟩ := h _ hm rfl
  have hnone : none = ((ledger py).after before).payment p.id := hen
  rw [hr] at hnone
  cases hnone

/-- What is sought with its key is that payment. -/
theorem sought (h : Sees py j p y) {key : String} {q : Payment}
    (hm : .seek j key (some q) ∈ y.state.events) (hkey : key = p.idempotencyKey.value) :
    q.id = p.id := by
  obtain ⟨before, hen, hsound, r, hr, hext⟩ := h _ hm rfl
  obtain ⟨hq, hqkey⟩ := hen.1 q rfl
  obtain rfl := hsound.keyed _ _ q r hq hr
    ((key_eq (hqkey.trans hkey)).trans hext.idempotencyKey.symm)
  exact hext.id

/-- Nothing else is accepted with its key. -/
theorem not_accepted (h : Sees py j p y) {q : Payment} (hm : .accept j q ∈ y.state.events) :
    q.idempotencyKey ≠ p.idempotencyKey := by
  obtain ⟨before, hen, -, r, hr, hext⟩ := h _ hm rfl
  intro hkey
  exact hen.2.2.2 _ r hr (hext.idempotencyKey.trans hkey.symm)

end Sees

/-- **Answers never go back.** A request that starts after another one has answered with a payment
sees that payment: read by its id it is there and is the answer, as it was or completed since;
created again with its key it is answered, or the conflict is with it. -/
theorem answers_never_go_back (h : Reachable py anyAction y)
    (hs : (machine py).Steps anyAction y y') {output : PaymentOutput} (hk : k.isRequest = true)
    (hi : y.procs i = .running k (.ret (.payment output))) (hj : y.procs j = .idle) :
    (∀ k' output', k'.isRequest = true → y'.procs j = .running k' (.ret (.payment output')) →
      output'.paymentId = output.paymentId → ∃ p q : Payment, p.Extends q ∧
        output = PaymentOutput.fromPayment p ∧ output' = PaymentOutput.fromPayment q) ∧
    (∀ output', y'.procs j = .running (.getPayment output.paymentId) (.ret (.payment output')) →
      output'.paymentId = output.paymentId) ∧
    (∀ id, y'.procs j ≠ .running (.getPayment output.paymentId) (.raise (.paymentNotFound id))) ∧
    ∀ command, command.idempotencyKey = output.idempotencyKey →
      (∀ output', y'.procs j = .running (.createPayment command) (.ret (.payment output')) →
        output'.paymentId = output.paymentId) ∧
      ∀ id, y'.procs j = .running (.createPayment command) (.raise (.idempotencyConflict id)) →
        id = some output.paymentId := by
  have hlin := h.linearizes
  have hlin' := (h.steps hs).linearizes
  obtain ⟨event, hm, hd⟩ := hlin.returned i k _ hk hi
  obtain ⟨before, p, hb, rfl, hp⟩ := hd.known hlin.legal hm
  -- whatever happens to the later request, the payment is known by then
  have hsees : Sees py j p y' := h.sees hs hj hb hp
  refine ⟨?_, ?_, ?_, ?_⟩
  · intro k' output' hk' hj' hid
    obtain ⟨event', hm', hd'⟩ := hlin'.returned j k' _ hk' hj'
    obtain ⟨q, hext, rfl⟩ := hsees.answered hm' hd' hid
    exact ⟨p, q, hext, rfl, rfl⟩
  · intro output' hj'
    obtain ⟨q, hreply, hid, -⟩ := (h.steps hs).returned hj'
    cases hreply
    exact hid
  · intro id hj'
    obtain ⟨event', hm', hd'⟩ := hlin'.missing j _ id hj'
    cases hd' with
    | missing => exact hsees.not_missing hm'
  · intro command hkey
    refine ⟨fun output' hj' => ?_, fun id hj' => ?_⟩
    · obtain ⟨event', hm', hd'⟩ := hlin'.returned j _ _ rfl hj'
      cases hd' with
      | created _ q now requested =>
        exact absurd (key_eq (requested.key.trans hkey)) (hsees.not_accepted hm')
      | replayed _ q matching => exact hsees.sought hm' hkey
    · obtain ⟨event', hm', hd'⟩ := hlin'.conflict j command id hj'
      cases hd' with
      | conflict _ q matching => exact congrArg some (hsees.sought hm' hkey)

/-- What request `i` has answered. -/
def Config.answer (i : Nat) (y : Config) : Option PaymentOutput :=
  match y.procs i with
  | .running k (.ret (.payment output)) => if k.isRequest then some output else none
  | _ => none

theorem answer_eq_some {output : PaymentOutput} (h : Config.answer i y = some output) :
    ∃ k, k.isRequest = true ∧ y.procs i = .running k (.ret (.payment output)) := by
  unfold Config.answer at h
  split at h
  · rename_i k output' hi
    split at h
    · rename_i hk
      cases h
      exact ⟨k, hk, hi⟩
    · cases h
  · cases h

/-- Process `i` has not started. -/
def Config.isIdle (i : Nat) (y : Config) : Bool :=
  match y.procs i with
  | .idle => true
  | _ => false

theorem idle_of_isIdle (h : Config.isIdle i y = true) : y.procs i = .idle := by
  unfold Config.isIdle at h
  split at h
  · assumption
  · cases h

theorem answers_never_go_back_sample : ∃ y y', Reachable samplePlatform anyAction y ∧
    (machine samplePlatform).Steps anyAction y y' ∧ ∃ output output',
      Config.answer 0 y = some output ∧ Config.answer 1 y' = some output' ∧
        ∃ p q : Payment, p.Extends q ∧ output = PaymentOutput.fromPayment p ∧
          output' = PaymentOutput.fromPayment q := by
  obtain ⟨y, y', hy, hy', hr, hs⟩ := requestsRun_reaches
  have h₀ : ((machine samplePlatform).runActions (creates 0 (UUID.ofNat 1) (UUID.ofNat 2))
      (Config.init 0)).map (fun y => ((Config.answer 0 y).map (·.paymentId), Config.isIdle 1 y)) =
        some (some (UUID.ofNat 1), true) := by
    decide +kernel
  have h₁ : ((machine samplePlatform).runActions requestsRun (Config.init 0)).map
      (fun y => (Config.answer 1 y).map (·.paymentId)) = some (some (UUID.ofNat 1)) := by
    decide +kernel
  rw [hy, Option.map_some, Option.some.injEq, Prod.mk.injEq] at h₀
  rw [hy', Option.map_some, Option.some.injEq] at h₁
  obtain ⟨output, ho, hid⟩ := Option.map_eq_some_iff.1 h₀.1
  obtain ⟨output', ho', hid'⟩ := Option.map_eq_some_iff.1 h₁
  obtain ⟨k, hk, hi⟩ := answer_eq_some ho
  obtain ⟨k', hk', hi'⟩ := answer_eq_some ho'
  refine ⟨y, y', hr, hs, output, output', ho, ho', ?_⟩
  exact (answers_never_go_back hr hs hk hi (idle_of_isIdle h₀.2)).1 k' output' hk' hi'
    (hid'.trans hid.symm)

end PaymentProcessing
