import PaymentProcessing.Protocol.Ledger

/-!
# How requests come by their answers

The history of a request shows where its answer comes from: a creation was committed, or the payment
of the key was found; a payment was read, or was not there.
-/

namespace PaymentProcessing

open Python Relational Concurrency World

variable {py : Platform} {A : Allowed} {i : Nat} {s s' : World} {y y' : Config} {h : History}
  {command : CreatePaymentInput} {α β : Type} {φ : Op → Prop}
  {Q : History → Except Exc α → Prop} {R : History → Except Exc β → Prop}

/-! ## Operations of requests -/

/-- What the operations of a request are answered. -/
def Replied : (op : Op) → Except Exc (Res op) → Prop
  | _, .error e => e.isOutside
  | .getPayment _, .ok row => ∀ r, row = some r → ∃ p, r = PaymentMapper.toModel p
  | .selectPaymentByKey _, .ok row => ∀ r, row = some r → ∃ p, r = PaymentMapper.toModel p
  | _, .ok _ => True

theorem Replied.outside {op : Op} {e : Exc} (hr : Replied op (.error e)) : e.isOutside := by
  cases op <;> exact hr

/-- A request inserts only what its command asks for. -/
def Op.requests (command : CreatePaymentInput) : Op → Prop
  | .insertPayment row => ∃ p now, row = PaymentMapper.toModel p ∧ Requested command p now
  | _ => True

/-- A part of a request. -/
abbrev Requests (φ : Op → Prop) (Q : History → Except Exc α → Prop) (p : App α) (h : History) :
    Prop :=
  p.Along (fun _ => Replied) (fun _ => φ) Q h

/-- What a history shows, the later ones show. -/
def Remembered (Q : History → Except Exc α → Prop) : Prop := ∀ h x r, Q h r → Q (x :: h) r

theorem requests_withUow {body : App α} (hp : Requests φ Q body h) (hQ : Remembered Q)
    (hout : ∀ h e, e.isOutside → Q h (.error e)) (hrollback : φ .rollback) (hclose : φ .close) :
    Requests φ Q (withUow body) h := by
  have hend : ∀ {op : Op} {x : Except Exc α} {h : History}, φ op → Q h x →
      Requests φ (fun h r => Q h x ∧ ∀ e, r = .error e → e.isOutside) (call op) h := by
    intro op x h hop hx
    refine Prog.along_perform hop fun r hr => ⟨hQ _ _ _ hx, fun e he => ?_⟩
    subst he
    exact hr.outside
  refine Prog.Along.bind (Prog.Along.tryCatch hp (fun _ _ ha => ha) fun h e he => ?_)
    (fun h a ha => ?_) fun _ _ he => he
  · refine Prog.Along.bind (hend hrollback he) (fun h _ he => ?_) fun h e he => hout h e (he.2 e rfl)
    exact Prog.Along.bind (hend hclose he.1) (fun h _ he => he.1) fun h e he => hout h e (he.2 e rfl)
  · exact Prog.Along.bind (hend hclose ha) (fun h _ ha => ha.1) fun h e he => hout h e (he.2 e rfl)

/-! ## Creating -/

/-- The history shows that these writes were committed. -/
def Sealed (h : History) (ws : List Write) : Prop :=
  ∃ before, ⟨.commit, .ok ()⟩ :: before <:+ h ∧ Drafts before ws

theorem Sealed.cons {ws : List Write} (hs : Sealed h ws) (x : Performed Res Exc) :
    Sealed (x :: h) ws := by
  obtain ⟨before, hb, hw⟩ := hs
  exact ⟨before, hb.trans (List.suffix_cons ..), hw⟩

/-- The new payment and its event. -/
def creation (p : Payment) (id : UUID) : List Write :=
  [.insertPayment (PaymentMapper.toModel p), .insertOutbox (createdEvent id p.id p.createdAt)]

/-- Where the answer to a creation comes from. -/
inductive Created (command : CreatePaymentInput) (h : History) : Except Exc PaymentOutput → Prop where
  | stored (p : Payment) (now : Time) (id : UUID) (requested : Requested command p now)
      (committed : Sealed h (creation p id)) :
    Created command h (.ok (PaymentOutput.fromPayment p))
  | replayed (p : Payment) (money : Money)
      (valid : Money.new command.amount (.inr command.currency) = .ok money)
      (found : ⟨.selectPaymentByKey command.idempotencyKey,
        .ok (some (PaymentMapper.toModel p))⟩ ∈ h)
      (matching : hasMatchingCreateInput p command money = true) :
    Created command h (.ok (PaymentOutput.fromPayment p))
  | conflict (p : Payment) (money : Money)
      (valid : Money.new command.amount (.inr command.currency) = .ok money)
      (found : ⟨.selectPaymentByKey command.idempotencyKey,
        .ok (some (PaymentMapper.toModel p))⟩ ∈ h)
      (matching : hasMatchingCreateInput p command money = false) :
    Created command h (.error (.idempotencyConflict (some p.id)))
  | refused (e : Exc) (noConflict : ∀ id, e ≠ .idempotencyConflict (some id)) :
    Created command h (.error e)

/-- What a part of a creation raises is no conflict. -/
def NoConflict (P : History → α → Prop) (h : History) : Except Exc α → Prop
  | .ok a => P h a
  | .error e => ∀ id, e ≠ .idempotencyConflict (some id)

theorem noConflict_call {op : Op} {P : History → Res op → Prop} (hop : φ op)
    (hok : ∀ a, Replied op (.ok a) → P (⟨op, .ok a⟩ :: h) a) :
    Requests φ (NoConflict P) (call op) h := by
  apply Prog.along_perform hop
  intro r hr
  cases r with
  | ok a => exact hok a hr
  | error e => exact fun id => hr.outside.ne_conflict (some id)

theorem noConflict_bind {P : History → α → Prop} {p : App α} {f : α → App β}
    (hp : Requests φ (NoConflict P) p h) (hf : ∀ h a, P h a → Requests φ R (f a) h)
    (herr : ∀ h e, (∀ id, e ≠ .idempotencyConflict (some id)) → R h (.error e)) :
    Requests φ R (p.bind f) h :=
  Prog.Along.bind hp hf herr

theorem noConflict_orRaise {P : History → α → Prop} {r : Except Exc α}
    (hok : ∀ a, r = .ok a → P h a) (herr : ∀ e, r = .error e → ∀ id, e ≠ .idempotencyConflict id) :
    Requests φ (NoConflict P) (orRaise r) h := by
  refine Prog.along_ofExcept ?_
  cases r with
  | ok a => exact hok a rfl
  | error e => exact fun id => herr e rfl (some id)

theorem requests_newPayment (hd : Drafts h []) :
    Requests (Op.requests command)
      (NoConflict fun h new => Requested command new.1 new.2 ∧ Drafts h [])
      (CreatePayment.newPayment py command) h := by
  refine noConflict_bind (P := fun h money => Money.new command.amount (.inr command.currency) =
    .ok money ∧ Drafts h []) (noConflict_orRaise (fun _ hm => ⟨hm, hd⟩)
      fun e he => money_ne_conflict he) (fun h money hm => ?_) fun _ _ he => he
  refine noConflict_bind (P := fun h key => key.value = command.idempotencyKey ∧ Drafts h [])
    (noConflict_orRaise (fun _ hk => ⟨IdempotencyKey.value_of_new hk, hm.2⟩)
      fun e he => key_ne_conflict he) (fun h key hk => ?_) fun _ _ he => he
  refine noConflict_bind (P := fun h url => url = command.webhookUrl ∧ Drafts h [])
    (noConflict_orRaise (fun _ hu => ⟨eq_of_webhookUrl hu, hk.2⟩)
      fun e he => url_ne_conflict he) (fun h url hu => ?_) fun _ _ he => he
  refine noConflict_bind (P := fun h _ => Drafts h []) (noConflict_call trivial
    fun now _ => .kept rfl hu.2) (fun h now hd => ?_) fun _ _ he => he
  refine noConflict_bind (P := fun h _ => Drafts h []) (noConflict_call trivial
    fun id _ => .kept rfl hd) (fun h id hd => ?_) fun _ _ he => he
  exact ⟨⟨rfl, rfl, rfl, hk.1, hm.1, rfl, rfl, hu.1⟩, hd⟩

/-- The transaction of a creation. -/
theorem requests_store {p : Payment} {now : Time} (hp : Requested command p now)
    (hd : Drafts h []) : Requests (Op.requests command)
      (NoConflict fun h _ => ∃ id, Sealed h (creation p id)) (CreatePayment.store p now) h := by
  refine requests_withUow ?_ ?_ (fun h e he id => he.ne_conflict (some id)) trivial trivial
  · refine noConflict_bind (P := fun h _ => Drafts h [.insertPayment (PaymentMapper.toModel p)])
      ?_ (fun h _ hd => ?_) fun _ _ he => he
    · refine Prog.Along.tryCatch (noConflict_call (P := fun h _ =>
        Drafts h [.insertPayment (PaymentMapper.toModel p)]) ⟨p, now, rfl, hp⟩
        fun a _ => .wrote rfl hd) (fun _ _ ha => ha) ?_
      intro h e he
      split
      · split
        · exact fun id => by simp
        · exact he
      · exact he
    refine noConflict_bind (P := fun h _ => ∃ id, Drafts h (creation p id)) ?_
      (fun h _ hd => ?_) fun _ _ he => he
    · refine noConflict_bind (P := fun h _ => Drafts h [.insertPayment (PaymentMapper.toModel p)])
        (noConflict_call trivial fun id _ => .kept rfl hd) (fun h id hd => ?_) fun _ _ he => he
      refine noConflict_call trivial fun _ _ => ⟨id, ?_⟩
      rw [creation, hp.createdAt]
      exact .wrote rfl hd
    · obtain ⟨id, hd⟩ := hd
      exact noConflict_call trivial fun _ _ => ⟨id, h, List.suffix_rfl, hd⟩
  · intro h x r hr
    cases r with
    | ok a =>
      obtain ⟨id, hs⟩ := hr
      exact ⟨id, hs.cons x⟩
    | error e => exact hr

/-- A duplicate is answered with the payment that was found. -/
theorem requests_replay {money : Money} {key : IdempotencyKey}
    (hmoney : Money.new command.amount (.inr command.currency) = .ok money)
    (hkey : key.value = command.idempotencyKey) :
    Requests (Op.requests command) (Created command)
      (CreatePayment.replayExisting command money key) h := by
  refine noConflict_bind (P := fun h found => ∀ p, found = some p →
    ⟨.selectPaymentByKey command.idempotencyKey, .ok (some (PaymentMapper.toModel p))⟩ ∈ h) ?_
    (fun h found hf => ?_) fun h e he => .refused e he
  · refine requests_withUow ?_ ?_ (fun h e he id => he.ne_conflict (some id)) trivial trivial
    · refine noConflict_bind (P := fun h (row : Option PaymentModel) => ∀ r, row = some r →
        (∃ p, r = PaymentMapper.toModel p) ∧ ⟨.selectPaymentByKey command.idempotencyKey,
          .ok (some r)⟩ ∈ h) (noConflict_call trivial fun row hrow r hr => ?_)
        (fun h row hrow => ?_) fun _ _ he => he
      · subst hr
        refine ⟨hrow r rfl, ?_⟩
        rw [hkey]
        exact List.mem_cons_self ..
      · cases row with
        | none => exact fun p hp => by cases hp
        | some r =>
          obtain ⟨⟨p, rfl⟩, hm⟩ := hrow r rfl
          refine noConflict_bind (P := fun h q => q = p ∧ ⟨.selectPaymentByKey command.idempotencyKey,
            .ok (some (PaymentMapper.toModel p))⟩ ∈ h) (noConflict_orRaise (fun q hq => ⟨?_, hm⟩)
            fun e he => ?_) (fun h q hq => ?_) fun _ _ he => he
          · rw [PaymentMapper.toDomain_toModel] at hq
            exact (Except.ok.inj hq).symm
          · rw [PaymentMapper.toDomain_toModel] at he
            cases he
          · obtain ⟨rfl, hm⟩ := hq
            intro p hp
            cases hp
            exact hm
    · intro h x r hr
      cases r with
      | ok a => exact fun p hp => List.mem_cons_of_mem _ (hr p hp)
      | error e => exact hr
  · cases found with
    | none => exact .refused _ (by simp)
    | some p =>
      cases hm : hasMatchingCreateInput p command money with
      | true =>
        simp only [hm, Bool.not_true, Bool.false_eq_true, if_false]
        exact .replayed p money hmoney (hf p rfl) hm
      | false =>
        simp only [hm, Bool.not_false, if_true]
        exact .conflict p money hmoney (hf p rfl) hm

/-- **A creation**, whatever happens to its operations. -/
theorem requests_createPayment (command : CreatePaymentInput) :
    Requests (Op.requests command) (Created command) (CreatePayment.execute py command) [] := by
  refine noConflict_bind (requests_newPayment .start) (fun h new hnew => ?_)
    fun h e he => .refused e he
  obtain ⟨hp, hd⟩ := hnew
  refine Prog.Along.bind (Q := NoConflict fun h stored => stored = true →
    ∃ id, Sealed h (creation new.1 id)) (Prog.Along.tryCatch (noConflict_bind
      (requests_store hp hd) (fun h _ hs => ?_) fun _ _ he => he) (fun _ _ ha => ha)
      fun h e he => ?_) (fun h stored hs => ?_) fun h e he => .refused e he
  · exact fun _ => hs
  · split
    · exact fun hf => by cases hf
    · exact he
  · cases stored with
    | true =>
      obtain ⟨id, hs⟩ := hs rfl
      exact .stored new.1 new.2 id hp hs
    | false => exact requests_replay hp.money hp.key

/-! ## Reading -/

/-- Where the answer to a read comes from. -/
inductive Read (id : UUID) (h : History) : Except Exc PaymentOutput → Prop where
  | found (p : Payment) (found : ⟨.getPayment id, .ok (some (PaymentMapper.toModel p))⟩ ∈ h) :
    Read id h (.ok (PaymentOutput.fromPayment p))
  | missing (missing : ⟨.getPayment id, .ok none⟩ ∈ h) : Read id h (.error (.paymentNotFound id))
  | failed (e : Exc) (failed : ∀ id, e ≠ .paymentNotFound id) : Read id h (.error e)

theorem Exc.isOutside.ne_missing {e : Exc} (he : e.isOutside) (id : UUID) :
    e ≠ .paymentNotFound id := by
  rcases he with ⟨f, rfl⟩ | ⟨constraint, rfl⟩
  · cases f <;> simp [Fault.toExc]
  · simp

/-- **A read**, whatever happens to its operations. -/
theorem requests_getPayment (id : UUID) :
    Requests (fun _ => True) (Read id) (GetPayment.execute id) [] := by
  refine requests_withUow ?_ ?_ (fun h e he => .failed e he.ne_missing) trivial trivial
  · refine Prog.Along.bind (Q := fun h r => (∀ e, r = .error e → ∀ id, e ≠ .paymentNotFound id) ∧
      (∀ p, r = .ok (some p) → ⟨.getPayment id, .ok (some (PaymentMapper.toModel p))⟩ ∈ h) ∧
      (r = .ok none → ⟨.getPayment id, .ok none⟩ ∈ h)) ?_ (fun h found hf => ?_)
      fun h e he => .failed e (he.1 e rfl)
    · refine Prog.Along.bind (Q := fun h r => ⟨.getPayment id, r⟩ ∈ h ∧ Replied (.getPayment id) r)
        (Prog.along_perform trivial fun r hr => ⟨List.mem_cons_self .., hr⟩) (fun h row hrow => ?_)
        fun h e he => ⟨fun _ hee => ?_, (fun p hp => by cases hp), fun hn => by cases hn⟩
      · cases row with
        | none => exact ⟨(fun e he => by cases he), (fun p hp => by cases hp), fun _ => hrow.1⟩
        | some r =>
          obtain ⟨p, rfl⟩ := hrow.2 r rfl
          have hsame : SqlPaymentRepository.toPayment (some (PaymentMapper.toModel p)) =
              .ret (some p) := by
            simp only [SqlPaymentRepository.toPayment, PaymentMapper.toDomain_toModel]
            rfl
          show Requests _ _ (SqlPaymentRepository.toPayment (some (PaymentMapper.toModel p))) h
          rw [hsame]
          refine ⟨(fun e he => by cases he), (fun q hq => ?_), fun hn => by cases hn⟩
          cases hq
          exact hrow.1
      · cases hee
        exact he.2.outside.ne_missing
    · cases found with
      | none => exact .missing (hf.2.2 rfl)
      | some p => exact .found p (hf.2.1 p rfl)
  · intro h x r hr
    cases hr with
    | found p hm => exact .found p (List.mem_cons_of_mem _ hm)
    | missing hm => exact .missing (List.mem_cons_of_mem _ hm)
    | failed e he => exact .failed e he

end PaymentProcessing
