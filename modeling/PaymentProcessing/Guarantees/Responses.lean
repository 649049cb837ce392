import PaymentProcessing.Guarantees.Ledger
import PaymentProcessing.Guarantees.Linearizability
import PaymentProcessing.Presentation.Http
import PaymentProcessing.Protocol.Refusing

/-!
# The API tells the truth

Every response to a request is justified by what has happened in the system: an acceptance or a
replay by the ledger, a conflict by the payment that has the key, a refusal by the request itself,
and an internal error by a fault that an operation of the request has met.
-/

namespace PaymentProcessing

open Python Relational Concurrency World

variable {py : Platform} {A : Allowed} {i j : Nat} {s s' : World} {y y' : Config} {h : History}
  {command : CreatePaymentInput} {k : Kind}

/-! ## Payment ids are new -/

theorem issued_of_drawn (hy : Reachable py A y) : ∀ i u, y.state.Did i .uuid4 (.ok u) →
    y.state.IssuedTo i u := by
  refine hy.invariant (P := fun y => ∀ i u, y.state.Did i .uuid4 (.ok u) → y.state.IssuedTo i u)
    (fun _ _ _ hd => by cases hd) ?_
  intro y y' a hr _ hP _ hl i u hd
  rcases hl.logged hd with hd | hadds
  · exact hl.persistent hr (hP i u hd)
  · cases hadds with
    | did _ k op f r c _ _ _ hs => exact (uuid4_ok hr.inv.used hs).1

/-- What was committed was committed by a commit. -/
theorem did_of_committed (hy : Reachable py A y) : ∀ i ws, y.state.Logged (.committed i ws) →
    ∃ r, y.state.Did i .commit r := by
  refine hy.invariant (P := fun y => ∀ i ws, y.state.Logged (.committed i ws) →
    ∃ r, y.state.Did i .commit r) (fun _ _ _ hd => by cases hd) ?_
  intro y y' a hr _ hP _ hl i ws hd
  have hsuffix : y.state.log <:+ y'.state.log := (hl.evolves (sound py) hr.inv).log
  rcases hl.logged hd with hd | hadds
  · exact (hP i ws hd).imp fun r hr => hsuffix.mem hr
  · cases hadds with
    | committed _ k f c ha hi =>
      subst ha
      cases hl with
      | run j c' k' op f' r s ha hj _ hs hy =>
        cases ha
        rw [hi] at hj
        cases hj
        subst hy
        obtain ⟨l, hlog, -⟩ := exec_log hs
        refine ⟨r, ?_⟩
        show _ ∈ s.log
        rw [hlog]
        exact List.mem_cons_self ..
      | spawn _ _ _ _ ha | kill _ _ _ ha | env _ _ ha => cases ha

theorem Reachable.drawing (hy : Reachable py A y)
    (hk : y.state.Logged (.started i (.createPayment command))) :
    KeepsAlong (fun _ _ _ => True) (fun h op => op.InsertsDrawn h) (fun _ _ => True) i y := by
  refine hy.keeps_started hk (fun s s' p hs => ?_) fun _ _ _ _ _ _ _ _ _ _ _ _ => trivial
  cases hs
  exact Prog.Along.bind (draws_createPayment command) (fun _ _ _ => trivial) fun _ _ _ => trivial

/-- A payment is inserted under an id that was issued to its process. -/
theorem inserts_drawn (hy : Reachable py A y) {row : PaymentModel} {r : Except Exc Unit}
    (hd : y.state.Did i (.insertPayment row) r) : y.state.IssuedTo i row.id := by
  obtain ⟨k, hk⟩ := hy.inv.active _ hd
  have hpermits : k.permits (.insertPayment row) := did_permitted hy hk hd
  cases k with
  | createPayment command =>
    obtain ⟨before, hb, ⟨hdrawn, -⟩, -⟩ := (hy.drawing hk).obeyed.of_mem (mem_history.2 hd)
    exact issued_of_drawn hy i _ (mem_history.1 (hb.mem hdrawn))
  | _ => cases hpermits

/-- A payment that is there was committed by the process that its id was issued to. -/
theorem accepted_issued (hy : Reachable py A y) {id : UUID} {row : PaymentModel}
    (hrow : y.state.db.payments.find? id = some row) :
    ∃ i ws, y.state.Logged (.committed i ws) ∧ y.state.IssuedTo i id := by
  obtain ⟨p, rfl, hid, -⟩ := payment_of_find? hy.inv hrow
  have hbook : ((ledger py).after y.state.events).payment id = some p := by
    rw [← hy.tracks.after]
    show (y.state.db.payments.find? id).bind paymentOfRow = some p
    rw [hrow, Option.bind_some, paymentOfRow_toModel]
  have haccept : ∃ i q, q.id = p.id ∧ .accept i q ∈ y.state.events := by
    cases (ledger_accounts hy.tracks.legal).1 _ _ hbook with
    | accepted i p pending accept => exact ⟨i, p, rfl, accept⟩
    | settled i q isSuccessful now older settle accept decide =>
      exact ⟨i, q, rfl, settle.mem (List.mem_cons_of_mem _ accept)⟩
  obtain ⟨i, q, hq, haccept⟩ := haccept
  obtain ⟨ws, row, hws, hw, hpay⟩ := committed_of_accept haccept
  obtain ⟨op, r, hd, hstages⟩ := (written hy i _).2 ws hws hw
  have hop : op = .insertPayment row := by
    cases op with
    | insertPayment row' =>
      cases hstages
      rfl
    | updateOutbox ids patch => obtain ⟨_, -, he⟩ := hstages; cases he
    | deleteProcessed cutoff limit => obtain ⟨_, he⟩ := hstages; cases he
    | _ => cases hstages
  subst hop
  have hissued := inserts_drawn hy hd
  have hsame : row.id = id := by
    rw [← hid, ← hq]
    unfold paymentOfRow at hpay
    cases hdomain : PaymentMapper.toDomain row with
    | error e => rw [hdomain] at hpay; cases hpay
    | ok q' =>
      rw [hdomain] at hpay
      cases hpay
      exact (toDomain_id hdomain).symm
  exact ⟨i, ws, hws, hsame ▸ hissued⟩

/-- **A payment never has the id of another one.** -/
theorem insert_fresh (hy : Reachable py A y) {row : PaymentModel}
    {f : Except Exc Unit → App Reply} (hi : y.procs i = .running k (.call (.insertPayment row) f)) :
    (y.state.view i).payments.find? row.id = none := by
  have hk := hy.running_started i k _ hi
  have hview : y.state.view i = y.state.db := by
    rw [World.view, (hy.noTransaction hi (((hy.orderly hi).1.waits rfl).resolve_right id)).staged]
    rfl
  rw [hview]
  have hpermits : k.permits (.insertPayment row) := by
    have hkeeps :
        KeepsAlong (fun _ _ _ => True) (fun _ op => k.permits op) (fun _ _ => True) i y := by
      refine hy.keeps_started hk (fun s s' p hs => ?_) fun _ _ _ _ _ _ _ _ _ _ _ _ => trivial
      exact Prog.Only.along (I := fun _ => True) (start_only hs) trivial (fun _ _ _ hop => hop)
        fun _ _ _ _ _ _ => trivial
    exact (hkeeps.along k _ hi).1
  cases k with
  | createPayment command =>
    obtain ⟨hdrawn, hu⟩ := ((hy.drawing hk).along _ _ hi).1
    cases hrow : y.state.db.payments.find? row.id with
    | none => rfl
    | some old =>
      obtain ⟨j, ws, hws, hj⟩ := accepted_issued hy hrow
      have hissued : y.state.IssuedTo i row.id := issued_of_drawn hy i _ (mem_history.1 hdrawn)
      have hij : j = i := by
        rw [IssuedTo, hissued] at hj
        exact (congrArg Prod.fst (Option.some.inj hj)).symm
      subst hij
      obtain ⟨r, hr⟩ := did_of_committed hy j ws hws
      exact absurd rfl (hu _ (mem_history.2 hr))
  | _ => cases hpermits

/-- **An operation of a request fails** by a fault, or because the key is taken. -/
theorem exec_failsRightly (hy : Reachable py A y) {op : Op} {f : Except Exc (Res op) → App Reply}
    {c : Choice} {r : Except Exc (Res op)} (hi : y.procs i = .running k (.call op f))
    (hex : World.exec i op c y.state = some (r, s)) : FailsRightly op r := by
  intro e he
  subst he
  rcases exec_cases hex with ⟨s₁, heff, -⟩ | ⟨flt, r₁, s₁, -, hr, -, -⟩ | ⟨flt, hr, -, -⟩
  · by_cases hop : ∃ row, op = .insertPayment row
    · obtain ⟨row, rfl⟩ := hop
      obtain ⟨s₂, -, hr⟩ := Option.map_eq_some_iff.1 heff
      rw [insert_fresh hy hi] at hr
      simp only [Option.isSome_none, Bool.false_eq_true, if_false] at hr
      split at hr
      · cases hr
        exact .inr ⟨rfl, rfl⟩
      · cases hr
    · obtain ⟨a, ha⟩ := effect_answers (fun row hrow => hop ⟨row, hrow⟩) heff
      cases ha
  · cases hr
    exact .inl ⟨flt, rfl⟩
  · cases hr
    exact .inl ⟨flt, rfl⟩

/-! ## What requests raise -/

theorem Reachable.refusing (hy : Reachable py A y) (hk : y.state.Logged (.started i k))
    {P : History → Exc → Prop} {q : App PaymentOutput}
    (hq : Refuses P (fun _ _ => True) q [])
    (hstart : ∀ s s' p, World.start py i k s = some (s', p) →
      p = q.bind fun output => .ret (.payment output)) :
    KeepsAlong (fun _ op r => Replied op r ∧ FailsRightly op r) (fun _ _ => True)
      (Fails P fun _ _ => True) i y := by
  refine hy.keeps_started hk (fun s s' p hs => ?_) ?_
  · rw [hstart s s' p hs]
    exact refuses_bind hq fun _ _ _ => trivial
  · intro y k' op f c r s hr _ hi hex _
    exact ⟨exec_replied hr.inv (fun hread => hr.reads_committed hi hread) hex,
      exec_failsRightly hr hi hex⟩

/-- Process `i` has met a fault that raised this. -/
def World.MetFault (i : Nat) (e : Exc) (s : World) : Prop :=
  ∃ (op : Op) (f : Fault), s.Did i op (.error f.toExc) ∧ e = f.toExc

theorem metFault_of_faulty {e : Exc} (hf : Faulty (s.history i) e) : s.MetFault i e := by
  obtain ⟨op, f, hm, he⟩ := hf
  exact ⟨op, f, mem_history.1 hm, he⟩

/-- **What a creation raises**: a fault that it has met, or a refusal without any commit. -/
theorem creation_raises (hy : Reachable py A y) {e : Exc}
    (hi : y.procs i = .running (.createPayment command) (.raise e)) : y.state.MetFault i e ∨
      (∀ ws, ¬ y.state.Logged (.committed i ws)) ∧
        (command.check py = .error e ∨ ∃ id, e = .idempotencyConflict id) := by
  have hfails : Faulty (y.state.history i) e ∨ RefusesCreation py command (y.state.history i) e :=
    (hy.refusing (hy.running_started i _ _ hi) (refuses_createPayment command)
      fun _ _ _ hs => by cases hs; rfl).along _ _ hi
  refine hfails.imp metFault_of_faulty fun ⟨hu, he⟩ => ⟨fun ws hws => ?_, he⟩
  obtain ⟨r, hr⟩ := did_of_committed hy i ws hws
  exact hu _ (mem_history.2 hr) rfl

theorem reading_raises (hy : Reachable py A y) {id : UUID} {e : Exc}
    (hi : y.procs i = .running (.getPayment id) (.raise e)) :
    y.state.MetFault i e ∨ e = .paymentNotFound id := by
  have hfails : Faulty (y.state.history i) e ∨ e = .paymentNotFound id :=
    (hy.refusing (hy.running_started i _ _ hi) (refuses_getPayment id)
      fun _ _ _ hs => by cases hs; rfl).along _ _ hi
  exact hfails.imp_left metFault_of_faulty

/-- A command that does not pass its checks is refused, and nothing is done for it. -/
theorem refused_of_check (hy : Reachable py A y) {e : Exc} {p : App Reply}
    (hi : y.procs i = .running (.createPayment command) p) (hc : command.check py = .error e) :
    p = .raise e ∧ ∀ op r, ¬ y.state.Did i op r := by
  have hkeeps : KeepsAlong (fun _ _ _ => True) (fun _ _ => False)
      (fun h r => h = [] ∧ r = .error e) i y := by
    refine hy.keeps_started (hy.running_started i _ _ hi) (fun s s' p hs => ?_)
      fun _ _ _ _ _ _ _ _ _ _ _ _ => trivial
    cases hs
    simp only [execute_of_check hc]
    exact ⟨rfl, rfl⟩
  have hp := hkeeps.along _ _ hi
  cases p with
  | ret reply => cases hp.2
  | raise e' =>
    obtain ⟨hnone, he⟩ := hp
    cases he
    refine ⟨rfl, fun op r hd => ?_⟩
    have hm := mem_history.2 hd
    rw [hnone] at hm
    cases hm
  | call op f => exact hp.1.elim

/-! ## Responses -/

/-- An amount that passes the schema and has at most two decimal places can be quantized. -/
theorem rescale_bounded {c : Nat} {x : Int} (hx : -2 ≤ x)
    (hv : (Decimal.finite false c x).value < 10 ^ 12) :
    Decimal.rescale c x quantExponent < 10 ^ Decimal.prec := by
  have hexp : (10 : ℚ) ^ (x + 2).toNat = 10 ^ x * 10 ^ (2 : Int) := by
    rw [← zpow_natCast, Int.toNat_of_nonneg (by omega), zpow_add₀ (by norm_num)]
  have hlt : ((c * 10 ^ (x + 2).toNat : Nat) : ℚ) < ((10 ^ Decimal.prec : Nat) : ℚ) := by
    calc ((c * 10 ^ (x + 2).toNat : Nat) : ℚ)
        = (Decimal.finite false c x).value * 10 ^ (2 : Int) := by
          push_cast
          rw [hexp, Decimal.value, if_neg Bool.false_ne_true, one_mul, mul_assoc]
          norm_num
      _ ≤ 10 ^ 12 * 10 ^ (2 : Int) := by gcongr
      _ < ((10 ^ Decimal.prec : Nat) : ℚ) := by norm_num [Decimal.prec]
  rw [Decimal.rescale, if_pos (show quantExponent ≤ x from hx)]
  exact_mod_cast hlt

/-- What is wrong with a request that its schema has passed is a `DomainError`. -/
theorem domainError_of_check {body : CreatePaymentRequest py} {key : String} {e : Exc}
    (hc : (body.toInput key).check py = .error e) : e.isDomainError = true := by
  obtain ⟨c, x, hamount, hpos, hbound⟩ := body.bounded
  rw [hamount] at hbound
  simp only [CreatePaymentInput.check, CreatePaymentRequest.toInput] at hc
  cases hm : Money.new body.amount (.inr body.currency.value) with
  | error e' =>
    rw [hm] at hc
    cases hc
    rw [hamount] at hm
    unfold Money.new at hm
    split at hm
    · cases hm; rfl
    · cases hm; rfl
    · rename_i neg c' x' heq
      cases heq
      split at hm
      · cases hm; rfl
      · split at hm
        · cases hm; rfl
        · rename_i hx
          rw [dif_pos (rescale_bounded (not_lt.1 hx) hbound)] at hm
          simp [Currency.parse] at hm
  | ok money =>
    rw [hm] at hc
    cases hk : IdempotencyKey.new key with
    | error e' =>
      rw [hk] at hc
      cases hc
      unfold IdempotencyKey.new at hk
      split at hk
      · cases hk; rfl
      · split at hk
        · cases hk; rfl
        · cases hk
    | ok key' =>
      rw [hk, body.isPublic] at hc
      cases hc

/-- What justifies the response to the request that process `i` executes. -/
inductive Justified (requestId : String) (i : Nat) (y : Config) :
    HttpRequest py → Option HttpResponse → Prop where
  | accepted (body : CreatePaymentRequest py) (key : String) (p : Payment) (now : Time)
      (event : .accept i p ∈ y.state.events) (requested : Requested (body.toInput key) p now) :
    Justified requestId i y (.createPayment body key)
      (some ⟨202, .created p.id p.status.value p.createdAt, requestId⟩)
  | replayed (body : CreatePaymentRequest py) (key : String) (p : Payment)
      (event : .seek i key (some p) ∈ y.state.events) (matching : Matches (body.toInput key) p true) :
    Justified requestId i y (.createPayment body key)
      (some ⟨202, .created p.id p.status.value p.createdAt, requestId⟩)
  | conflict (body : CreatePaymentRequest py) (key : String) (p : Payment)
      (event : .seek i key (some p) ∈ y.state.events) (matching : Matches (body.toInput key) p false)
      (nothing : ∀ ws, ¬ y.state.Logged (.committed i ws)) :
    Justified requestId i y (.createPayment body key)
      (some ⟨409, .detail "Idempotency key conflict", requestId⟩)
  | invalid (body : CreatePaymentRequest py) (key : String) (e : Exc)
      (wrong : (body.toInput key).check py = .error e) (nothing : ∀ op r, ¬ y.state.Did i op r) :
    Justified requestId i y (.createPayment body key)
      (some ⟨422, .detail e.domainText, requestId⟩)
  | found (id : UUID) (p : Payment) (event : .look i id (some p) ∈ y.state.events) :
    Justified requestId i y (.getPayment id)
      (some ⟨200, .payment (PaymentOutput.fromPayment p), requestId⟩)
  | missing (id : UUID) (event : .look i id none ∈ y.state.events) :
    Justified requestId i y (.getPayment id) (some ⟨404, .detail "Payment not found", requestId⟩)
  | failed (request : HttpRequest py) (e : Exc) (fault : y.state.MetFault i e)
      (exception : e.isException = true) :
    Justified requestId i y request (some ⟨500, .detail "Internal Server Error", requestId⟩)
  | cancelled (request : HttpRequest py) (fault : y.state.MetFault i .cancelled) :
    Justified requestId i y request none

theorem justified_fault {requestId : String} {request : HttpRequest py} {e : Exc}
    (hf : y.state.MetFault i e) :
    Justified requestId i y request (request.respond requestId (.error e)) := by
  obtain ⟨op, f, hd, rfl⟩ := hf
  cases f with
  | cancelled => exact .cancelled request ⟨op, .cancelled, hd, rfl⟩
  | timeout => exact .failed request _ ⟨op, .timeout, hd, rfl⟩ rfl
  | transport => exact .failed request _ ⟨op, .transport, hd, rfl⟩ rfl
  | external n => exact .failed request _ ⟨op, .external n, hd, rfl⟩ rfl

theorem respond_domainError {requestId : String} {request : HttpRequest py} {e : Exc}
    (he : e.isDomainError = true) :
    request.respond requestId (.error e) = some ⟨422, .detail e.domainText, requestId⟩ := by
  cases e <;> first | rfl | cases he

/-- **Every response is justified.** Whatever overlaps, fails or crashes, a request that has ended is
answered 202, 409, 422, 200 or 404 for the reason that the answer gives, and 500 or not at all only
after a fault; one that does not pass its checks is always answered 422 and has done nothing. The
id in the header is printable, whatever the client has sent. -/
theorem responses_justified (hy : Reachable py anyAction y) (request : HttpRequest py)
    (result : Except Exc PaymentOutput) (raw : Option String) (drawn : UUID)
    (hi : y.procs i = .running request.kind (Prog.ofExcept (result.map Reply.payment))) :
    Justified (RequestId.resolve raw drawn) i y request
      (request.respond (RequestId.resolve raw drawn) result) ∧
    isPrintable (RequestId.resolve raw drawn) = true ∧
    ∀ body key e, request = .createPayment body key → (body.toInput key).check py = .error e →
      request.respond (RequestId.resolve raw drawn) result =
        some ⟨422, .detail e.domainText, RequestId.resolve raw drawn⟩ := by
  refine ⟨?_, resolve_printable raw drawn, ?_⟩
  · cases request with
    | createPayment body key =>
      cases result with
      | ok output =>
        obtain ⟨event, hm, hd⟩ := hy.linearizes.returned i _ _ rfl hi
        cases hd with
        | created _ p now requested => exact .accepted body key p now hm requested
        | replayed _ p matching => exact .replayed body key p hm matching
      | error e =>
        rcases creation_raises hy hi with hfault | ⟨hnothing, hcheck | ⟨id, rfl⟩⟩
        · exact justified_fault hfault
        · rw [respond_domainError (domainError_of_check hcheck)]
          exact .invalid body key e hcheck (refused_of_check hy hi hcheck).2
        · obtain ⟨event, hm, hd⟩ := hy.linearizes.conflict i _ id hi
          cases hd with
          | conflict _ p matching => exact .conflict body key p hm matching hnothing
    | getPayment id =>
      cases result with
      | ok output =>
        obtain ⟨event, hm, hd⟩ := hy.linearizes.returned i _ _ rfl hi
        cases hd with
        | found _ p => exact .found id p hm
      | error e =>
        rcases reading_raises hy hi with hfault | rfl
        · exact justified_fault hfault
        · obtain ⟨event, hm, hd⟩ := hy.linearizes.missing i id id hi
          cases hd with
          | missing => exact .missing id hm
  · rintro body key e rfl hcheck
    have hraise := (refused_of_check hy hi hcheck).1
    cases result with
    | ok output => cases hraise
    | error e' =>
      cases hraise
      exact respond_domainError (domainError_of_check hcheck)

/-- The body of the sample request, with any amount of two decimal places. -/
def sampleBody (cents : Nat) (hpos : 0 < cents) (hlt : cents < 10 ^ 12) :
    CreatePaymentRequest samplePlatform where
  amount := .finite false cents (-2)
  currency := .eur
  description := sampleCommand.description
  metadata := sampleCommand.metadata
  webhookUrl := sampleCommand.webhookUrl
  bounded := by
    refine ⟨cents, -2, rfl, hpos, ?_⟩
    have hcents : (cents : ℚ) < 10 ^ 12 := by exact_mod_cast hlt
    have hsmall : (cents : ℚ) * (10 : ℚ) ^ (-2 : Int) ≤ cents :=
      mul_le_of_le_one_right (by positivity) (by norm_num)
    simp only [Decimal.value, Bool.false_eq_true, if_false, one_mul]
    exact hsmall.trans_lt hcents
  isPublic := by decide +kernel

/-- What process `i` has raised. -/
def Config.raised (i : Nat) (y : Config) : Option Exc :=
  match y.procs i with
  | .running _ (.raise e) => some e
  | _ => none

theorem raised_eq_some {e : Exc} (h : Config.raised i y = some e) :
    ∃ k, y.procs i = .running k (.raise e) := by
  unfold Config.raised at h
  split at h
  · rename_i k e' hi
    cases h
    exact ⟨k, hi⟩
  · cases h

/-- A process is of the kind that it was started with. -/
theorem kind_of_spawn {y₁ : Config} {k' : Kind} {p : App Reply} (hy : Reachable py A y)
    (hspawn : (machine py).step (.spawn i k) y = some y₁) (hA : A y (.spawn i k))
    (hs : (machine py).Steps A y₁ y') (hi : y'.procs i = .running k' p) : k' = k := by
  obtain ⟨-, -, -, hfresh, -⟩ := hy.spawned hspawn
  have hy₁ : Reachable py A y₁ := hy.steps (.step _ .refl hA hspawn)
  have hy' : Reachable py A y' := hy₁.steps hs
  have hstarted : y'.state.Logged (.started i k) := (hy₁.evolves hs).log.mem hfresh.started
  exact hy'.inv.started i k' k (hy'.running_started i k' p hi) hstarted

/-- After the sample payment, another one is requested with its key. -/
def conflictingRequest : HttpRequest samplePlatform :=
  .createPayment (sampleBody 2000 (by decide) (by decide)) sampleCommand.idempotencyKey

def conflictingRun : List (Action Choice Kind Env) :=
  .run 1 {} :: .run 1 { uuid := UUID.ofNat 3 } :: performs 1 5

theorem responses_justified_sample : ∃ y, Reachable samplePlatform anyAction y ∧
    conflictingRequest.respond "client-1" (.error (.idempotencyConflict (some (UUID.ofNat 1)))) =
      some ⟨409, .detail "Idempotency key conflict", "client-1"⟩ ∧
    Justified "client-1" 1 y conflictingRequest
      (some ⟨409, .detail "Idempotency key conflict", "client-1"⟩) := by
  have hrun : ((machine samplePlatform).runActions (creates 0 (UUID.ofNat 1) (UUID.ofNat 2) ++
      .spawn 1 conflictingRequest.kind :: conflictingRun) (Config.init 0)).any
      (fun y => Config.raised 1 y = some (.idempotencyConflict (some (UUID.ofNat 1)))) = true := by
    decide +kernel
  obtain ⟨y', hy', hraised⟩ := (Option.any_eq_true _ _).1 hrun
  obtain ⟨k, hi⟩ := raised_eq_some (of_decide_eq_true hraised)
  obtain ⟨y, hy, hrest⟩ := Option.bind_eq_some_iff.1 (Machine.runActions_append.symm.trans hy')
  obtain ⟨y₁, hspawn, hlast⟩ := Option.bind_eq_some_iff.1 hrest
  have hany : ∀ acts y, (machine samplePlatform).AllowedActions anyAction acts y :=
    Machine.AllowedActions.any fun _ _ => trivial
  have hr : Reachable samplePlatform anyAction y := reachable_of_run (hany ..) hy
  have hk : k = conflictingRequest.kind :=
    kind_of_spawn hr hspawn trivial (Machine.steps_of_runActions (hany ..) hlast) hi
  subst hk
  have hr' : Reachable samplePlatform anyAction y' := reachable_of_run (hany ..) hy'
  refine ⟨y', hr', rfl, ?_⟩
  have hid : RequestId.resolve (some "client-1") (UUID.ofNat 0) = "client-1" := by decide +kernel
  have hjust := (responses_justified hr' conflictingRequest
    (.error (.idempotencyConflict (some (UUID.ofNat 1)))) (some "client-1") (UUID.ofNat 0) hi).1
  rw [hid] at hjust
  exact hjust

end PaymentProcessing
