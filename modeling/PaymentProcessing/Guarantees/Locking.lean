import PaymentProcessing.Concurrency.Waiting
import PaymentProcessing.Protocol.Statements

/-!
# Locks are waited for without deadlock

A process waits when its next statement asks for a lock that another one holds. It holds no lock
then, so nobody waits for it, and the one it waits for gives up all its locks by itself. A statement
takes the locks it asks for all at once. Whoever calls the broker or the receiver of a webhook, or
sleeps, or has ended, has no transaction.
-/

namespace PaymentProcessing

open Python Relational Concurrency World

variable {py : Platform} {A : Allowed} {i j : Nat} {s s' : World} {y y' : Config} {h : History}
  {c : Choice} {op : Op}

/-! ## Asking for locks -/

/-- The locks that an operation of process `i` asks for. -/
def World.asks (s : World) (i : Nat) (c : Choice) : Op → List Lock
  | .selectPaymentForUpdate id =>
    if ((s.view i).payments.find? id).isSome then [.payment id] else []
  | .insertPayment row => [.payment row.id, .idempotencyKey row.idempotencyKey]
  | .updatePayment row => [.payment row.id]
  | .selectClaimable limit now staleBefore =>
    (s.claimable i c.skip limit now staleBefore).map fun row => .outbox row.id
  | .updateOutbox ids _ => (ids.filter fun id => ((s.view i).outbox.find? id).isSome).map .outbox
  | .deleteProcessed cutoff limit =>
    (s.purgeable i c.skip limit cutoff).map fun row => .outbox row.id
  | .insertInbox row => [.inbox row.messageId]
  | .insertCharge row => [.charge row.paymentId]
  | _ => []

/-- What `uuid4` draws has not been drawn before. -/
def DrawsFresh (op : Op) (c : Choice) (s : World) : Prop :=
  op = .uuid4 → s.issued.find? c.uuid = none

theorem isSome_lockAndStage {ls : List Lock} {ws : List Write} :
    (s.lockAndStage i ls ws).isSome = true ↔ ∀ l ∈ ls, s.locks.Free i l := by
  rw [lockAndStage, Option.isSome_map]
  constructor
  · intro hsome l hl
    obtain ⟨locks, hlocks⟩ := Option.isSome_iff_exists.1 hsome
    exact (Locks.acquireAll?_eq_some hlocks).1 l hl
  · intro hfree
    obtain ⟨locks, hlocks⟩ := Locks.acquireAll?_free hfree
    rw [hlocks]
    rfl

/-- **An operation has an effect** exactly if nobody else holds a lock it asks for. -/
theorem isSome_effect (hc : DrawsFresh op c s) :
    (s.effect i c op).isSome = true ↔ ∀ l ∈ s.asks i c op, s.locks.Free i l := by
  cases op with
  | selectPaymentForUpdate id =>
    cases hf : (s.view i).payments.find? id with
    | none => simp [effect, asks, hf]
    | some row => simp only [effect, asks, hf, Option.isSome_map, isSome_lockAndStage,
        Option.isSome_some, if_true]
  | uuid4 => simp [effect, asks, hc rfl]
  | insertPayment | updatePayment | selectClaimable | updateOutbox | deleteProcessed | insertInbox
  | insertCharge => simp only [effect, asks, Option.isSome_map, isSome_lockAndStage]
  | _ => simp [effect, asks]

/-- An operation proceeds if nobody else holds a lock it asks for. -/
theorem isSome_exec (hc : DrawsFresh op c s) (hfree : ∀ l ∈ s.asks i c op, s.locks.Free i l) :
    (World.exec i op c s).isSome = true := by
  have heffect := (isSome_effect hc).2 hfree
  simp only [World.exec]
  split
  · rw [Option.isSome_map, heffect]
  · rw [Option.isSome_map, heffect]
  · rfl

theorem free_of_claimable {skip : List UUID} {limit : Nat} {now staleBefore : Time}
    {row : OutboxModel} (h : row ∈ s.claimable i skip limit now staleBefore) :
    s.locks.Free i (.outbox row.id) := by
  have hrow := List.mem_filter.1 ((List.mem_insertionSort _).1 (List.mem_of_mem_take h))
  simp only [Bool.and_eq_true, decide_eq_true_eq] at hrow
  exact hrow.2.1.2

/-- Locks that are held already are free to take. -/
theorem free_of_holds {l : Lock} (h : s.locks.Holds i l) : s.locks.Free i l := by
  rintro ⟨l', j⟩ hj rfl
  exact s.locks.exclusive _ _ _ hj h

/-- Who asks for a lock either may have to wait, or skips the rows that are locked. -/
theorem asks_free (hop : op.mayWait = false) : ∀ l ∈ s.asks i c op, s.locks.Free i l := by
  cases op with
  | selectClaimable limit now staleBefore =>
    intro l hl
    obtain ⟨row, hrow, rfl⟩ := List.mem_map.1 hl
    exact free_of_claimable hrow
  | selectPaymentForUpdate | insertPayment | updatePayment | updateOutbox | deleteProcessed
  | insertInbox | insertCharge => cases hop
  | _ => exact fun l hl => by cases hl

theorem asks_relocks (hop : op.Relocks h) : ∀ l ∈ s.asks i c op, Locking h l := by
  cases op with
  | updatePayment row =>
    intro l hl
    cases List.mem_singleton.1 hl
    exact hop
  | updateOutbox ids patch =>
    intro l hl
    obtain ⟨id, hid, rfl⟩ := List.mem_map.1 hl
    exact hop id (List.mem_filter.1 hid).1
  | _ => cases hop

/-! ## Waiting -/

/-- The operation that process `i` performs next. -/
def Config.next (y : Config) (i : Nat) : Option Op :=
  match y.procs i with
  | .running _ (.call op _) => some op
  | _ => none

theorem next_eq_some (hn : y.next i = some op) : ∃ k f, y.procs i = .running k (.call op f) := by
  unfold Config.next at hn
  split at hn
  · rename_i k op' f hi
    cases hn
    exact ⟨k, f, hi⟩
  · cases hn

/-- Process `i` waits for `j`, which holds a lock that the next operation of `i` asks for. -/
def WaitsFor (y : Config) (i j : Nat) : Prop :=
  j ≠ i ∧ ∃ op c, y.next i = some op ∧ ∃ l ∈ y.state.asks i c op, y.state.locks.Holds j l

/-- **Who waits holds no lock.** -/
theorem WaitsFor.noTransaction (hw : WaitsFor y i j) (hy : Reachable py A y) :
    y.state.NoTransaction i := by
  obtain ⟨hne, op, c, hn, l, hl, hj⟩ := hw
  obtain ⟨k, f, hi⟩ := next_eq_some hn
  have hblocked : ¬ y.state.locks.Free i l := fun hfree => hne (hfree (l, j) hj rfl)
  have hwait : op.mayWait = true := by
    cases hwait : op.mayWait with
    | true => rfl
    | false => exact absurd (asks_free hwait l hl) hblocked
  refine hy.noTransaction hi (((hy.orderly hi).1.waits hwait).resolve_right fun hre => ?_)
  exact hblocked (free_of_holds (hy.locking i k _ hi l (asks_relocks hre l hl)))

/-- **Who has a transaction proceeds.** -/
theorem Reachable.proceeds (hy : Reachable py A y) {k : Kind} {p : App Reply}
    (hi : y.procs i = .running k p) :
    y.state.NoTransaction i ∨ (machine py).Proceeds DrawsFresh i y := by
  have horderly := hy.orderly hi
  cases p with
  | ret reply => exact .inl (hy.noTransaction hi horderly)
  | raise e => exact .inl (hy.noTransaction hi horderly)
  | call op f =>
    cases hwait : op.mayWait with
    | false => exact .inr ⟨k, op, f, hi, fun c hc => isSome_exec hc (asks_free hwait)⟩
    | true =>
      refine (horderly.1.waits hwait).imp (hy.noTransaction hi) ?_
      intro hre
      refine ⟨k, op, f, hi, fun c hc => isSome_exec hc fun l hl => ?_⟩
      exact free_of_holds (hy.locking i k _ hi l (asks_relocks hre l hl))

/-- **There is no deadlock.** No processes wait for each other in a cycle. A process that waits holds
no lock, so nobody waits for it, and the process it waits for comes to have no transaction by itself,
whatever it is answered, and each of its operations can proceed until then. -/
theorem no_deadlock (hy : Reachable py A y) : (∀ i, ¬ Relation.TransGen (WaitsFor y) i i) ∧
    ∀ i j, WaitsFor y i j → y.state.NoTransaction i ∧ (∀ m, ¬ WaitsFor y m i) ∧
      (machine py).Comes DrawsFresh j (World.NoTransaction j) y := by
  have hnobody : ∀ i j, WaitsFor y i j → ∀ m, ¬ WaitsFor y m i := by
    rintro i j hw m ⟨-, op, c, -, l, -, hi⟩
    exact (hw.noTransaction hy).locks l hi
  refine ⟨no_cycle hnobody, fun i j hw => ⟨hw.noTransaction hy, hnobody i j hw, ?_⟩⟩
  obtain ⟨-, op, c, -, l, -, hj⟩ := hw
  have hrunning : ∃ k p, y.procs j = .running k p := by
    by_contra hno
    exact (hy.noTransaction_of_not_running j fun k p he => hno ⟨k, p, he⟩).locks l hj
  obtain ⟨k, p, hp⟩ := hrunning
  refine Machine.comes_of_proceeds (R := Reachable py anyAction) (fun y c y' hy hs => ?_)
    (fun y k p hy hi => hy.proceeds hi) hy.any hp
  exact hy.steps (.step _ .refl trivial hs)

/-- Two requests with one key, the first of which has inserted its payment. -/
def contestedRun : List (Action Choice Kind Env) :=
  [.spawn 0 (.createPayment sampleCommand), .spawn 1 (.createPayment sampleCommand), .run 0 {},
    .run 0 { uuid := UUID.ofNat 1 }, .run 0 {}, .run 1 {}, .run 1 { uuid := UUID.ofNat 2 }]

theorem no_deadlock_sample : ∃ y, Reachable samplePlatform anyAction y ∧ WaitsFor y 1 0 ∧
    (∀ i, ¬ Relation.TransGen (WaitsFor y) i i) ∧ y.state.NoTransaction 1 ∧
    (∀ m, ¬ WaitsFor y m 1) ∧
      (machine samplePlatform).Comes DrawsFresh 0 (World.NoTransaction 0) y := by
  have hrun : ((machine samplePlatform).runActions contestedRun (Config.init 0)).any
      (fun y : Config => (y.next 1).any fun op => (y.state.asks 1 {} op).any fun l =>
        decide (y.state.locks.Holds 0 l)) = true := by
    decide +kernel
  obtain ⟨y, hy, hrest⟩ := (Option.any_eq_true _ _).1 hrun
  obtain ⟨op, hop, hrest⟩ := (Option.any_eq_true _ _).1 hrest
  obtain ⟨l, hl, hholds⟩ := List.any_eq_true.1 hrest
  have hr : Reachable samplePlatform anyAction y :=
    reachable_of_run (Machine.AllowedActions.any (fun _ _ => trivial) ..) hy
  have hw : WaitsFor y 1 0 := ⟨by decide, op, {}, hop, l, hl, of_decide_eq_true hholds⟩
  exact ⟨y, hr, hw, (no_deadlock hr).1, (no_deadlock hr).2 1 0 hw⟩

/-! ## Outside the database -/

/-- Process `i` is not at work on the database: it is about to leave it, or does not run. -/
inductive OutsideDatabase (i : Nat) (y : Config) : Prop where
  | idle (hi : y.procs i = .idle)
  | leaves (op : Op) (hn : y.next i = some op) (hop : op.leavesDatabase = true)
  | ended (k : Kind) (r : Except Exc Reply) (hi : y.procs i = .running k (.ofExcept r))
  | killed (k : Kind) (hi : y.procs i = .killed k)

/-- **No transaction is open across a call of the broker or of the receiver of a webhook**, during a
sleep, or when a process has ended, however that came about. -/
theorem no_transaction_outside (hy : Reachable py A y) (ho : OutsideDatabase i y) :
    y.state.NoTransaction i := by
  cases ho with
  | idle hi => exact hy.noTransaction_of_not_running i fun k p he => by rw [hi] at he; cases he
  | killed k hi => exact hy.noTransaction_of_not_running i fun k p he => by rw [hi] at he; cases he
  | leaves op hn hop =>
    obtain ⟨k, f, hi⟩ := next_eq_some hn
    exact hy.noTransaction hi ((hy.orderly hi).1.leaves hop)
  | ended k r hi =>
    refine hy.noTransaction hi ?_
    have horderly := hy.orderly hi
    cases r <;> exact horderly

/-- The operation is a sleep. -/
def Op.isSleep : Op → Bool
  | .sleep => true
  | _ => false

/-- A payment is about to be charged. -/
def chargingRun : List (Action Choice Kind Env) :=
  creates 0 (UUID.ofNat 1) (UUID.ofNat 2) ++
    .spawn 1 (.processPayment (UUID.ofNat 1) (some (UUID.ofNat 2))) :: performs 1 7

theorem no_transaction_outside_sample : ∃ y, Reachable samplePlatform anyAction y ∧
    y.next 1 = some .sleep ∧ y.state.NoTransaction 1 := by
  have hrun : ((machine samplePlatform).runActions chargingRun (Config.init 0)).any
      (fun y : Config => (y.next 1).any fun op => op.isSleep) = true := by
    decide +kernel
  obtain ⟨y, hy, hrest⟩ := (Option.any_eq_true _ _).1 hrun
  obtain ⟨op, hop, hsleep⟩ := (Option.any_eq_true _ _).1 hrest
  have hr : Reachable samplePlatform anyAction y :=
    reachable_of_run (Machine.AllowedActions.any (fun _ _ => trivial) ..) hy
  have hnext : y.next 1 = some .sleep := by
    cases op <;> first | exact hop | cases hsleep
  exact ⟨y, hr, hnext, no_transaction_outside hr (.leaves _ hnext rfl)⟩

end PaymentProcessing
