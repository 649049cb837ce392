import PaymentProcessing.Guarantees.Amounts
import PaymentProcessing.Guarantees.Payments
import PaymentProcessing.Python.JsonEquality

/-!
# Replaying a request

A second request with the key of a committed payment is answered with that payment, or refused as
a conflict with it. `has_matching_create_input` decides which, and compares the metadata with
Python's `==`, to which `true` is 1 and `false` is 0.
-/

namespace PaymentProcessing

open Python Relational Concurrency World

variable {py : Platform} {y y' y₁ y₂ : Config} {c c' : CreatePaymentInput}

/-- The commands ask for the same payment, with `R` for their metadata. -/
structure SameUpTo (R : Json → Json → Prop) (c c' : CreatePaymentInput) : Prop where
  currency : c.currency = c'.currency
  amount : c.amount.value = c'.amount.value
  description : c.description = c'.description
  webhookUrl : c.webhookUrl = c'.webhookUrl
  metadata : R c.metadata.toJson c'.metadata.toJson

/-- The commands ask for the same payment. -/
def SameRequest : CreatePaymentInput → CreatePaymentInput → Prop := SameUpTo Json.Same

/-- The commands differ in their metadata, and only in that one of them has `true` where the other
has 1, or `false` where it has 0. -/
def OnlyTruthValuesDiffer (c c' : CreatePaymentInput) : Prop :=
  SameUpTo (fun a b => Json.Same a.unbool b.unbool) c c' ∧
    ¬ Json.Same c.metadata.toJson c'.metadata.toJson

/-! ## The decision -/

theorem parse_eq_ok {text : String} {cur : Currency} (h : Currency.parse (.inr text) = .ok cur) :
    text = cur.value := by
  have hof : Currency.ofValue text = .ok cur := by
    simp only [Currency.parse] at h
    split at h
    · rename_i parsed heq
      cases h
      exact heq
    · cases h
  unfold Currency.ofValue at hof
  split_ifs at hof with h₁ h₂ h₃
  · cases hof
    exact h₁
  · cases hof
    exact h₂
  · cases hof
    exact h₃

theorem currency_value_inj {cur cur' : Currency} : cur.value = cur'.value ↔ cur = cur' := by
  refine ⟨fun h => ?_, fun h => congrArg _ h⟩
  have hv := Currency.ofValue_value cur
  rw [h, Currency.ofValue_value] at hv
  exact (Except.ok.inj hv).symm

theorem new_eq_ok {amount : Decimal} {text : String} {m : Money}
    (h : Money.new amount (.inr text) = .ok m) :
    m.amount.value = amount.value ∧ text = m.currency.value := by
  unfold Money.new at h
  split at h
  · cases h
  · cases h
  · rename_i neg k x
    split_ifs at h with h₀ hx hq
    split at h
    · cases h
    · rename_i cur hcur
      cases h
      obtain ⟨hneg, -⟩ := not_or.1 h₀
      rw [Bool.not_eq_true] at hneg
      subst hneg
      refine ⟨?_, parse_eq_ok hcur⟩
      have hv := value_hundredths (Decimal.rescale k x (-2))
      rw [rescale_value (by omega)] at hv
      exact mul_right_cancel₀ (by norm_num : (100 : ℚ) ≠ 0) hv

theorem money_eq_iff {m m' : Money} :
    m.eq m' = true ↔ m.amount.value = m'.amount.value ∧ m.currency.value = m'.currency.value := by
  obtain ⟨_, _, k, -, -, rfl⟩ := m
  obtain ⟨_, _, k', -, -, rfl⟩ := m'
  simp only [Money.eq, Decimal.eq, Bool.and_eq_true, decide_eq_true_eq, currency_value_inj]

/-- A payment that was requested matches a command when the two ask for the same, up to truth
values. -/
theorem hasMatching_iff {p : Payment} {now : Time} {m : Money} (hp : Requested c p now)
    (hm : Money.new c'.amount (.inr c'.currency) = .ok m) :
    hasMatchingCreateInput p c' m = true ↔
      SameUpTo (fun a b => Json.Same a.unbool b.unbool) c c' := by
  obtain ⟨hv, hc⟩ := new_eq_ok hp.money
  obtain ⟨hv', hc'⟩ := new_eq_ok hm
  have hmeta : p.metadata.pyEq c'.metadata = true ↔
      Json.Same c.metadata.toJson.unbool c'.metadata.toJson.unbool := by
    rw [hp.metadata]
    exact Json.pyEq_iff_same _ _ c.metadata.wf c'.metadata.wf
  simp only [hasMatchingCreateInput, Bool.and_eq_true, decide_eq_true_eq, money_eq_iff, hmeta]
  rw [hv, hv', ← hc, ← hc', hp.description, hp.webhookUrl]
  constructor
  · rintro ⟨⟨⟨⟨h₁, h₂⟩, h₃⟩, h₄⟩, h₅⟩
    exact ⟨h₂, h₁, h₃, h₅, h₄⟩
  · rintro ⟨h₁, h₂, h₃, h₄, h₅⟩
    exact ⟨⟨⟨⟨h₂, h₁⟩, h₃⟩, h₅⟩, h₄⟩

/-- Asking for the same is asking for the same up to truth values. -/
theorem SameRequest.upTo (h : SameRequest c c') :
    SameUpTo (fun a b => Json.Same a.unbool b.unbool) c c' :=
  ⟨h.currency, h.amount, h.description, h.webhookUrl, h.metadata.unbool⟩

/-- What is the same up to truth values is the same, but for the truth values. -/
theorem upTo_iff_same (h : ¬ OnlyTruthValuesDiffer c c') :
    SameUpTo (fun a b => Json.Same a.unbool b.unbool) c c' ↔ SameRequest c c' := by
  refine ⟨fun hs => ?_, SameRequest.upTo⟩
  by_cases hm : Json.Same c.metadata.toJson c'.metadata.toJson
  · exact ⟨hs.currency, hs.amount, hs.description, hs.webhookUrl, hm⟩
  · exact absurd ⟨hs, hm⟩ h


/-! ## A replay that nobody disturbs -/

/-- Process `i` comes to `p` while the tables stay as they are and nobody else holds a lock. -/
structure Arrives (py : Platform) (y₀ : Config) (i : Nat) (k : Kind) (db : Tables) (p : App Reply)
    (y : Config) : Prop where
  steps : (machine py).Steps anyAction y₀ y
  proc : y.procs i = .running k p
  db : y.state.db = db
  clean : y.state.staged i = []
  free : ∀ l, y.state.locks.Free i l

/-- An operation that does not fail has its effect. -/
theorem exec_fine {s s' : World} {i : Nat} (op : Op) {choice : Choice} {r : Except Exc (Res op)}
    (h : s.effect i choice op = some (r, s')) (hfine : choice.outcome = .fine) :
    World.exec i op choice s = some (r, s'.note (.did i op r)) := by
  unfold World.exec
  simp only [hfine, ite_self, h, Option.map_some]

/-- One operation further. -/
theorem Arrives.perform {y₀ : Config} {i : Nat} {k : Kind} {db : Tables} {op : Op}
    {f : Except Exc (Res op) → App Reply} {r : Except Exc (Res op)} {s : World}
    (h : Arrives py y₀ i k db (.call op f) y) (choice : Choice)
    (hs : World.exec i op choice y.state = some (r, s))
    (hdb : s.db = y.state.db) (hclean : s.staged i = y.state.staged i ∨ s.staged i = [])
    (hlocks : s.locks = y.state.locks ∨ s.locks = y.state.locks.releaseAll i) :
    ∃ y', Arrives py y₀ i k db (f r) y' ∧ y'.state = s := by
  have hstep : (machine py).step (.run i choice) y =
      some ⟨s, Function.update y.procs i (.running k (f r))⟩ := by
    simp only [Machine.step, h.proc]
    exact congrArg (Option.map _) hs
  refine ⟨_, ⟨h.steps.step _ trivial hstep, Function.update_self .., hdb.trans h.db,
    hclean.elim (fun hc => hc.trans h.clean) id, fun l => ?_⟩, rfl⟩
  rcases hlocks with hl | hl
  · exact hl ▸ h.free l
  · exact hl ▸ (h.free l).releaseAll

theorem newPayment_valid {m : Money} {key : IdempotencyKey} {url : String}
    (hm : Money.new c.amount (.inr c.currency) = .ok m)
    (hk : IdempotencyKey.new c.idempotencyKey = .ok key)
    (hu : PaymentProcessing.webhookUrl py c.webhookUrl = .ok url) :
    CreatePayment.newPayment py c = (do
      let now ← call .now
      let id ← call .uuid4
      return (Payment.create id m c.description c.metadata key url now, now)) := by
  simp only [CreatePayment.newPayment, hm, hk, hu]
  rfl

/-- Inserting a payment whose key is taken. -/
theorem insertPayment_refused {s : World} {i : Nat} (hs : s.staged i = [])
    (hfree : ∀ l, s.locks.Free i l) (row row' : PaymentModel)
    (hid : s.db.payments.find? row.id = none) (hrow : row' ∈ s.db.payments.rows)
    (hkey : row'.idempotencyKey = row.idempotencyKey) (choice : Choice) :
    s.effect i choice (.insertPayment row) =
      some (.error (.integrityError "uq_payments_idempotency_key"), s) := by
  have hlocks : ∃ k', s.locks.acquireAll? i
      [.payment row.id, .idempotencyKey row.idempotencyKey] = some k' :=
    Locks.acquireAll?_free fun l _ => hfree l
  obtain ⟨k', hk'⟩ := hlocks
  have hany : s.db.payments.rows.any (fun r => r.idempotencyKey = row.idempotencyKey) = true :=
    List.any_eq_true.2 ⟨row', hrow, decide_eq_true hkey⟩
  simp only [effect, lockAndStage, hk', view, hs, Tables.writeAll_nil, hid, hany, Option.map_some,
    Option.isSome_none, Bool.false_eq_true, if_false, if_true]

/-- **A replay that nobody disturbs is decided** by `has_matching_create_input`. -/
theorem replay_undisturbed {y : Config} {i : Nat} {u : UUID} {p : Payment} {m : Money}
    {key : IdempotencyKey} {url : String} (hm : Money.new c.amount (.inr c.currency) = .ok m)
    (hk : IdempotencyKey.new c.idempotencyKey = .ok key)
    (hu : PaymentProcessing.webhookUrl py c.webhookUrl = .ok url)
    (hidle : y.procs i = .idle) (hclean : y.state.staged i = [])
    (hfree : ∀ l, y.state.locks.Free i l) (hissued : y.state.issued.find? u = none)
    (hid : y.state.db.payments.find? u = none)
    (hrow : y.state.db.payments.rows.find? (fun row => row.idempotencyKey = key.value) =
      some (PaymentMapper.toModel p)) :
    ∃ y₁ y', (machine py).step (.spawn i (.createPayment c)) y = some y₁ ∧
      (machine py).Steps anyAction y₁ y' ∧ y'.procs i = .running (.createPayment c)
      (if hasMatchingCreateInput p c m then .ret (.payment (PaymentOutput.fromPayment p))
        else .raise (.idempotencyConflict (some p.id))) := by
  have hmem := List.mem_of_find?_eq_some hrow
  have hkey : (PaymentMapper.toModel p).idempotencyKey = key.value := by
    have h := List.find?_some
      (p := fun row : PaymentModel => decide (row.idempotencyKey = key.value)) hrow
    exact of_decide_eq_true h
  have hstep : (machine py).step (.spawn i (.createPayment c)) y = some ⟨y.state.note
      (.started i (.createPayment c)), Function.update y.procs i (.running (.createPayment c)
        (do return .payment (← CreatePayment.execute py c)))⟩ := by
    simp only [Machine.step, hidle]
    rfl
  have h₁ : Arrives py ⟨y.state.note (.started i (.createPayment c)), Function.update y.procs i
      (.running (.createPayment c) (do return .payment (← CreatePayment.execute py c)))⟩ i
      (.createPayment c) y.state.db (do return .payment (← CreatePayment.execute py c)) _ :=
    ⟨.refl, Function.update_self .., rfl, hclean, hfree⟩
  simp only [CreatePayment.execute, newPayment_valid hm hk hu] at h₁ hstep
  obtain ⟨y₂, h₂, hs₂⟩ := h₁.perform {} rfl rfl (.inl rfl) (.inl rfl)
  have huuid : y₂.state.effect i { uuid := u } .uuid4 =
      some (.ok u, { y₂.state with issued := y₂.state.issued.insert (i, u) }) := by
    have hissued₂ : y₂.state.issued.find? u = none := by
      rw [hs₂]
      exact hissued
    simp only [effect, hissued₂, if_true]
  obtain ⟨y₃, h₃, -⟩ := h₂.perform _ (exec_fine _ huuid rfl) rfl (.inl rfl) (.inl rfl)
  -- the key is taken
  have hins := insertPayment_refused h₃.clean h₃.free (PaymentMapper.toModel
    (Payment.create u m c.description c.metadata key url 0)) (PaymentMapper.toModel p)
    (by rw [h₃.db]; exact hid) (by rw [h₃.db]; exact hmem) hkey {}
  obtain ⟨y₄, h₄, -⟩ := h₃.perform _ (exec_fine _ hins rfl) rfl (.inl rfl) (.inl rfl)
  obtain ⟨y₅, h₅, -⟩ := h₄.perform {} (exec_fine .rollback rfl rfl) rfl
    (.inr (Function.update_self ..)) (.inr rfl)
  obtain ⟨y₆, h₆, -⟩ := h₅.perform {} (exec_fine .close rfl rfl) rfl
    (.inr (Function.update_self ..)) (.inr rfl)
  -- the payment is read by its key
  have hread : y₆.state.effect i {} (.selectPaymentByKey key.value) =
      some (.ok (some (PaymentMapper.toModel p)), y₆.state) := by
    simp only [effect, view, h₆.clean, Tables.writeAll_nil, h₆.db, hrow]
  obtain ⟨y₇, h₇, -⟩ := h₆.perform _ (exec_fine _ hread rfl) rfl (.inl rfl) (.inl rfl)
  simp only [Prog.ofExcept, Prog.bind, SqlPaymentRepository.toPayment,
    PaymentMapper.toDomain_toModel, orRaise] at h₇
  obtain ⟨y₈, h₈, -⟩ := h₇.perform {} (exec_fine .close rfl rfl) rfl
    (.inr (Function.update_self ..)) (.inr rfl)
  refine ⟨_, y₈, hstep, h₈.steps, h₈.proc.trans ?_⟩
  by_cases hmatch : hasMatchingCreateInput p c m = true
  · simp only [hmatch, if_true]
    simp [Prog.ofExcept, Payment.create, hmatch]
  · rw [Bool.not_eq_true] at hmatch
    simp [Prog.ofExcept, Payment.create, hmatch]

/-- Process 0 creates the payment of a valid command, and nothing else has happened. -/
theorem created_undisturbed {m : Money} {key : IdempotencyKey} {url : String}
    (hm : Money.new c.amount (.inr c.currency) = .ok m)
    (hk : IdempotencyKey.new c.idempotencyKey = .ok key)
    (hu : PaymentProcessing.webhookUrl py c.webhookUrl = .ok url) :
    ∃ y, Reachable py anyAction y ∧ y.procs 1 = .idle ∧ y.state.staged 1 = [] ∧
      (∀ l, y.state.locks.Free 1 l) ∧ y.state.issued.find? (UUID.ofNat 3) = none ∧
      y.state.db.payments.rows = [PaymentMapper.toModel (Payment.create (UUID.ofNat 1) m
        c.description c.metadata key url 0)] := by
  have hrun : ∃ y, (machine py).runActions ([.spawn 0 (.createPayment c), .run 0 {},
      .run 0 { uuid := UUID.ofNat 1 }, .run 0 {}, .run 0 { uuid := UUID.ofNat 2 }] ++
        performs 0 3) (Config.init 0) = some y ∧ y.procs 1 = .idle ∧ y.state.staged 1 = [] ∧
      y.state.locks.held = [] ∧ y.state.issued.find? (UUID.ofNat 3) = none ∧
      y.state.db.payments.rows = [PaymentMapper.toModel (Payment.create (UUID.ofNat 1) m
        c.description c.metadata key url 0)] := by
    simp only [performs, List.replicate, List.cons_append, List.nil_append, Machine.runActions,
      Machine.step, machine, Config.init, World.start, CreatePayment.execute,
      newPayment_valid hm hk hu, Option.map_some, Option.bind_some, Function.update_self]
    exact ⟨_, rfl, rfl, rfl, rfl, rfl, rfl⟩
  obtain ⟨y, hy, h₁, h₂, h₃, h₄, h₅⟩ := hrun
  refine ⟨y, reachable_of_run (Machine.AllowedActions.any (fun _ _ => trivial) ..) hy, h₁, h₂,
    fun l p hp => ?_, h₄, h₅⟩
  rw [h₃] at hp
  cases hp


/-! ## Replays -/

/-- The command passes the checks. -/
def CreatePaymentInput.Valid (py : Platform) (c : CreatePaymentInput) : Prop :=
  ∀ e, ¬ Invalid py c e

/-- `c'`, executed by process `i` after the payment `p` of `c` was committed, is answered with that
payment if the two ask for the same, and is a conflict with it otherwise: whatever happens in
between, and at the latest when nothing does. -/
structure ReplaysRight (py : Platform) (c c' : CreatePaymentInput) : Prop where
  answered : ∀ y y₁ y₂ p now i reply, Reachable py anyAction y → Requested c p now →
    y.state.Known p → (machine py).step (.spawn i (.createPayment c')) y = some y₁ →
    (machine py).Steps anyAction y₁ y₂ → y₂.procs i = .running (.createPayment c') (.ret reply) →
      SameRequest c c' ∧ ∃ output q, reply = .payment output ∧ output.paymentId = p.id ∧
        p.Extends q ∧ output = PaymentOutput.fromPayment q
  refused : ∀ y y₁ y₂ p now i e, Reachable py anyAction y → Requested c p now →
    y.state.Known p → (machine py).step (.spawn i (.createPayment c')) y = some y₁ →
    (machine py).Steps anyAction y₁ y₂ → y₂.procs i = .running (.createPayment c') (.raise e) →
      e.isOutside ∨ (¬ SameRequest c c' ∧ e = .idempotencyConflict (some p.id))
  ends : ∀ y p now i u, Reachable py anyAction y → Requested c p now → y.state.Known p →
    y.procs i = .idle → (∀ l, y.state.locks.Free i l) → y.state.issued.find? u = none →
    y.state.db.payments.find? u = none → ∃ y', (machine py).Steps anyAction y y' ∧
      ((∃ reply, y'.procs i = .running (.createPayment c') (.ret reply)) ∨
        y'.procs i = .running (.createPayment c') (.raise (.idempotencyConflict (some p.id))))

/-- A payment of the key in the table is the payment that was requested with it, and matches a
command when the requested one does. -/
theorem matching_decided {s : World} {p q : Payment} {now : Time} {b : Bool} (hi : Inv s)
    (hkey : c.idempotencyKey = c'.idempotencyKey) (hp : Requested c p now) (hkp : s.Known p)
    (hkq : s.Known q) (hq : Matches c' q b) : p.Extends q ∧
      (b = true ↔ SameUpTo (fun a b => Json.Same a.unbool b.unbool) c c') := by
  obtain ⟨r, hr, hpr⟩ := hkp
  obtain ⟨r', hr', hqr⟩ := hkq
  have hrow : PaymentMapper.toModel r = PaymentMapper.toModel r' := by
    refine hi.keys _ (Table.mem_of_find? hr) _ (Table.mem_of_find? hr') ?_
    show r.idempotencyKey.value = r'.idempotencyKey.value
    rw [hpr.idempotencyKey, hqr.idempotencyKey, hp.key, hq.key, hkey]
  obtain rfl := PaymentMapper.toModel_injective hrow
  have hpend : p.isTerminal = false := by rw [Payment.isTerminal, hp.pending]; rfl
  have hext : p.Extends q :=
    ⟨hqr.id.symm.trans hpr.id, hqr.money.symm.trans hpr.money,
      hqr.description.symm.trans hpr.description, hqr.metadata.symm.trans hpr.metadata,
      hqr.idempotencyKey.symm.trans hpr.idempotencyKey, hqr.webhookUrl.symm.trans hpr.webhookUrl,
      hqr.createdAt.symm.trans hpr.createdAt, fun ht => by rw [hpend] at ht; cases ht⟩
  obtain ⟨money, hm, hb⟩ := hq.input
  refine ⟨hext, ?_⟩
  rw [← hasMatching_iff hp hm, ← hb, hasMatchingCreateInput, hasMatchingCreateInput, hext.money,
    hext.description, hext.metadata, hext.webhookUrl]

/-- Whatever happens in between, a replay of a valid command is answered or refused. -/
theorem replay_tells {p : Payment} {now : Time} {i : Nat} (hvalid : c'.Valid py)
    (hkey : c.idempotencyKey = c'.idempotencyKey) (h : Reachable py anyAction y)
    (hp : Requested c p now) (hk : y.state.Known p)
    (hspawn : (machine py).step (.spawn i (.createPayment c')) y = some y₁)
    (hs : (machine py).Steps anyAction y₁ y₂) :
    (∀ reply, y₂.procs i = .running (.createPayment c') (.ret reply) →
      SameUpTo (fun a b => Json.Same a.unbool b.unbool) c c' ∧
        ∃ q, p.Extends q ∧ reply = .payment (PaymentOutput.fromPayment q)) ∧
    ∀ e, y₂.procs i = .running (.createPayment c') (.raise e) → e.isOutside ∨
      (¬ SameUpTo (fun a b => Json.Same a.unbool b.unbool) c c' ∧
        e = .idempotencyConflict (some p.id)) := by
  have hone : (machine py).Steps anyAction y y₁ := .step _ .refl trivial hspawn
  have h₁ := h.steps hone
  obtain ⟨prog, hst, hrun, hf, hinv⟩ := h.spawned hspawn
  have hwork : y₁.state.Working py i := ⟨⟨_, hf.started⟩, .inl ⟨_, hf.started, rfl⟩⟩
  have hsafe := Runs.reply .payment (runs_createPayment_valid hvalid : Runs py i _ _ _ _) y₁.state
    hinv ⟨hwork, hf.staged⟩
  have hprog : (do return Reply.payment (← CreatePayment.execute py c')) = prog :=
    congrArg Prod.snd (Option.some.inj hst)
  subst hprog
  obtain ⟨hret, hraise⟩ := h₁.ended_of_safe hrun hsafe hs
  have hinv₂ := (h₁.steps hs).inv
  have hk₂ : y₂.state.Known p := h.persistent (P := Known p) (hone.trans hs) hk
  refine ⟨fun reply he => ?_, fun e he => ?_⟩
  · obtain ⟨⟨output, rfl, q, hkq, rfl, hm⟩, -⟩ := hret reply he
    obtain ⟨hext, hdec⟩ := matching_decided hinv₂ hkey hp hk₂ hkq hm
    exact ⟨hdec.1 rfl, q, hext, rfl⟩
  · obtain ⟨hout | ⟨q, rfl, hkq, hm⟩, -⟩ := hraise e he
    · exact .inl hout
    · obtain ⟨hext, hdec⟩ := matching_decided hinv₂ hkey hp hk₂ hkq hm
      refine .inr ⟨fun hs => ?_, by rw [hext.id]⟩
      cases hdec.2 hs

/-- A valid command has an amount of money, a key and a url. -/
theorem CreatePaymentInput.Valid.new_ok (h : c.Valid py) : (∃ m : Money,
    Money.new c.amount (.inr c.currency) = .ok m) ∧
    (∃ key, IdempotencyKey.new c.idempotencyKey = .ok key) ∧
    ∃ url, PaymentProcessing.webhookUrl py c.webhookUrl = .ok url := by
  refine ⟨?_, ?_, ?_⟩
  · cases hm : Money.new c.amount (.inr c.currency) with
    | ok m => exact ⟨m, rfl⟩
    | error e => exact absurd (.inl hm) (h e)
  · cases hk : IdempotencyKey.new c.idempotencyKey with
    | ok key => exact ⟨key, rfl⟩
    | error e => exact absurd (.inr (.inl hk)) (h e)
  · cases hu : PaymentProcessing.webhookUrl py c.webhookUrl with
    | ok url => exact ⟨url, rfl⟩
    | error e => exact absurd (.inr (.inr hu)) (h e)

/-- Undisturbed, a replay of a valid command comes to an end. -/
theorem replay_ends {p : Payment} {now : Time} {i : Nat} {u : UUID} (hvalid : c'.Valid py)
    (hkey : c.idempotencyKey = c'.idempotencyKey) (h : Reachable py anyAction y)
    (hp : Requested c p now) (hk : y.state.Known p) (hidle : y.procs i = .idle)
    (hfree : ∀ l, y.state.locks.Free i l) (hissued : y.state.issued.find? u = none)
    (hid : y.state.db.payments.find? u = none) : ∃ y', (machine py).Steps anyAction y y' ∧
      ((∃ reply, y'.procs i = .running (.createPayment c') (.ret reply)) ∨
        y'.procs i = .running (.createPayment c') (.raise (.idempotencyConflict (some p.id)))) := by
  obtain ⟨⟨m, hm⟩, ⟨key, hkn⟩, url, hu⟩ := hvalid.new_ok
  obtain ⟨q, hq, hpq⟩ := hk
  have hqmem := Table.mem_of_find? hq
  have hqkey : (PaymentMapper.toModel q).idempotencyKey = key.value := by
    show q.idempotencyKey.value = key.value
    rw [hpq.idempotencyKey, hp.key, hkey, IdempotencyKey.value_of_new hkn]
  -- the payment is the one the key finds
  have hrow : y.state.db.payments.rows.find? (fun row => row.idempotencyKey = key.value) =
      some (PaymentMapper.toModel q) := by
    cases hf : y.state.db.payments.rows.find? (fun row => row.idempotencyKey = key.value) with
    | none => exact absurd (decide_eq_true hqkey) (List.find?_eq_none.1 hf _ hqmem)
    | some row =>
      have hrkey := List.find?_some
        (p := fun row : PaymentModel => decide (row.idempotencyKey = key.value)) hf
      rw [h.inv.keys row (List.mem_of_find?_eq_some hf) _ hqmem
        ((of_decide_eq_true hrkey).trans hqkey.symm)]
  obtain ⟨y₁, y', hspawn, hs, hproc⟩ := replay_undisturbed hm hkn hu hidle (h.good.idle i hidle).2
    hfree hissued hid hrow
  refine ⟨y', .trans (.step _ .refl trivial hspawn) hs, ?_⟩
  split at hproc
  · exact .inl ⟨_, hproc⟩
  · rw [hpq.id] at hproc
    exact .inr hproc

/-- If only truth values differ, the replay is answered, though it asks for something else. -/
theorem not_replaysRight (hc : c.Valid py) (hc' : c'.Valid py)
    (hkey : c.idempotencyKey = c'.idempotencyKey) (hd : OnlyTruthValuesDiffer c c') :
    ¬ ReplaysRight py c c' := by
  intro hr
  obtain ⟨hup, hdiff⟩ := hd
  obtain ⟨⟨m, hm⟩, ⟨key, hk⟩, url, hu⟩ := hc.new_ok
  obtain ⟨⟨m', hm'⟩, ⟨key', hk'⟩, url', hu'⟩ := hc'.new_ok
  have hkk : key.value = key'.value := by
    rw [IdempotencyKey.value_of_new hk, IdempotencyKey.value_of_new hk', hkey]
  -- the payment is created and the command replayed
  obtain ⟨y, h, hidle, hclean, hfree, hissued, hrows⟩ := created_undisturbed hm hk hu
  have hp : Requested c (Payment.create (UUID.ofNat 1) m c.description c.metadata key url 0) 0 :=
    ⟨rfl, rfl, rfl, IdempotencyKey.value_of_new hk, hm, rfl, rfl, eq_of_webhookUrl hu⟩
  have hid : y.state.db.payments.find? (UUID.ofNat 3) = none := by
    rw [Table.find?_eq_none, hrows]
    intro row hrow
    rw [List.mem_singleton.1 hrow]
    exact (by decide : UUID.ofNat 1 ≠ UUID.ofNat 3)
  have hstored : y.state.Known (Payment.create (UUID.ofNat 1) m c.description c.metadata key url
      0) := by
    refine ⟨_, Table.find?_key (t := y.state.db.payments) (r := PaymentMapper.toModel _) ?_,
      .refl _⟩
    rw [hrows]
    exact List.mem_singleton.2 rfl
  obtain ⟨y₁, y', hspawn, hs, hproc⟩ := replay_undisturbed (p := Payment.create (UUID.ofNat 1) m
    c.description c.metadata key url 0) hm' hk' hu' hidle hclean hfree hissued hid
    (by rw [hrows]; exact List.find?_cons_of_pos (decide_eq_true hkk))
  rw [if_pos ((hasMatching_iff hp hm').2 hup)] at hproc
  exact hdiff (hr.answered y y₁ y' _ 0 1 _ h hp hstored hspawn hs hproc).1.metadata

/-- **A replay is accepted only for the same request**, unless the metadata differ in nothing but
truth values that are read as numbers. -/
theorem replay_only_same (hc : c.Valid py) (hc' : c'.Valid py)
    (hkey : c.idempotencyKey = c'.idempotencyKey) :
    ReplaysRight py c c' ↔ ¬ OnlyTruthValuesDiffer c c' := by
  constructor
  · exact fun hr hd => not_replaysRight hc hc' hkey hd hr
  · intro hd
    refine ⟨?_, ?_, ?_⟩
    · intro y y₁ y₂ p now i reply h hp hk hspawn hs he
      obtain ⟨hup, hans⟩ := (replay_tells hc' hkey h hp hk hspawn hs).1 reply he
      obtain ⟨q, hext, rfl⟩ := hans
      exact ⟨(upTo_iff_same hd).1 hup, _, q, rfl, hext.id, hext, rfl⟩
    · intro y y₁ y₂ p now i e h hp hk hspawn hs he
      rw [← upTo_iff_same hd]
      exact (replay_tells hc' hkey h hp hk hspawn hs).2 e he
    · intro y p now i u h hp hk hidle hfree hissued hid
      exact replay_ends hc' hkey h hp hk hidle hfree hissued hid

/-- The sample request with this metadata. -/
def withEntry (value : Json) (h : (Json.obj [("gift", value)]).WF) : CreatePaymentInput :=
  { sampleCommand with metadata := ⟨[("gift", value)], h⟩ }

/-- A command whose checks answer passes them. -/
theorem CreatePaymentInput.valid_of_isOk
    (h : ((Money.new c.amount (.inr c.currency)).isOk &&
      (IdempotencyKey.new c.idempotencyKey).isOk &&
      (PaymentProcessing.webhookUrl py c.webhookUrl).isOk) = true) : c.Valid py := by
  simp only [Bool.and_eq_true] at h
  rintro e (he | he | he)
  · rw [he] at h
    cases h.1.1
  · rw [he] at h
    cases h.1.2
  · rw [he] at h
    cases h.2

/-- `{"gift": true}` and then `{"gift": 1}`. -/
theorem truth_value_replayed : ¬ ReplaysRight samplePlatform
    (withEntry (.bool true) (by simp [Json.WF, Json.WFEntries, Json.WFEntry]))
    (withEntry (.int 1) (by simp [Json.WF, Json.WFEntries, Json.WFEntry])) := by
  refine not_replaysRight (CreatePaymentInput.valid_of_isOk (by decide +kernel))
    (CreatePaymentInput.valid_of_isOk (by decide +kernel)) rfl ⟨⟨rfl, rfl, rfl, rfl, ?_⟩, ?_⟩
  · refine .obj (fun _ => rfl) ?_
    intro k v w hv hw
    have hone : ∀ {u}, lookup k [("gift", Json.int 1)] = some u → u = .int 1 := by
      intro u hu
      simp only [lookup] at hu
      split at hu
      · exact (Option.some.inj hu).symm
      · cases hu
    rw [hone hv, hone hw]
    exact .number rfl rfl
  · intro h
    cases h with
    | obj hkeys hval =>
      cases hval "gift" (.bool true) (.int 1) rfl rfl with
      | number ha => cases ha
    | number ha => cases ha

theorem replay_only_same_sample : ReplaysRight samplePlatform sampleCommand
    { sampleCommand with amount := .finite false 105 (-1) } := by
  have hc : sampleCommand.Valid samplePlatform :=
    CreatePaymentInput.valid_of_isOk (by decide +kernel)
  have hc' : CreatePaymentInput.Valid samplePlatform
      { sampleCommand with amount := .finite false 105 (-1) } :=
    CreatePaymentInput.valid_of_isOk (by decide +kernel)
  refine (replay_only_same hc hc' rfl).2 fun hd => hd.2 ?_
  exact .obj (fun _ => rfl) fun k v w hv => by cases hv

end PaymentProcessing
