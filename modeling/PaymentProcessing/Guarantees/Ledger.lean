import PaymentProcessing.Protocol.Ledger

/-!
# The system is a ledger

Under every interleaving, failure and crash the committed tables are the book that the events of the
log lead to, each of them allowed when it happened. So what a webhook tells can be followed back on
the ledger: to the settlement, and from there to the acceptance and to the gateway's decision.
-/

namespace PaymentProcessing

open Python Relational Concurrency World

variable {py : Platform} {y : Config} {es : List LedgerEvent} {p : Payment}

/-- How a payment came to be what it is: accepted, or settled after it was accepted and decided. -/
inductive Accounted (es : List LedgerEvent) : Payment → Prop where
  | accepted (i : Nat) (p : Payment) (pending : p.status = .pending)
      (accept : .accept i p ∈ es) : Accounted es p
  | settled (i : Nat) (p : Payment) (isSuccessful : Bool) (now : Time) (older : List LedgerEvent)
      (settle : .settle (p.completed isSuccessful now) :: older <:+ es)
      (accept : .accept i p ∈ older) (decide : .decide p.id isSuccessful ∈ older) :
    Accounted es (p.completed isSuccessful now)

theorem Accounted.cons (h : Accounted es p) (e : LedgerEvent) : Accounted (e :: es) p := by
  cases h with
  | accepted i p pending accept => exact .accepted i p pending (List.mem_cons_of_mem _ accept)
  | settled i p isSuccessful now older settle accept decide =>
    exact .settled i p isSuccessful now older (settle.trans (List.suffix_cons ..)) accept decide

/-- **The book is accounted for** by the events that lead to it. -/
theorem ledger_accounts (hl : (ledger py).Legal es) :
    (∀ id p, ((ledger py).after es).payment id = some p → Accounted es p) ∧
    ∀ id isSuccessful, ((ledger py).after es).verdict id = some isSuccessful →
      .decide id isSuccessful ∈ es := by
  induction es with
  | nil => exact ⟨(fun _ _ hp => by cases hp), fun _ _ hv => by cases hv⟩
  | cons e es ih =>
    obtain ⟨hpayments, hverdicts⟩ := ih hl.2
    have hen : ((ledger py).after es).Enabled py e := hl.1
    have hkeep : ∀ id isSuccessful, ((ledger py).after es).verdict id = some isSuccessful →
        .decide id isSuccessful ∈ e :: es :=
      fun id isSuccessful hv => List.mem_cons_of_mem _ (hverdicts id isSuccessful hv)
    cases e with
    | accept i p =>
      refine ⟨fun id q hq => ?_, hkeep⟩
      have hq : (((ledger py).after es).apply (.accept i p)).payment id = some q := hq
      rw [Book.accept_payment] at hq
      split at hq
      · cases hq
        exact .accepted i p hen.1 (List.mem_cons_self ..)
      · exact (hpayments id q hq).cons _
    | settle p =>
      refine ⟨fun id q hq => ?_, hkeep⟩
      have hq : (((ledger py).after es).apply (.settle p)).payment id = some q := hq
      rw [Book.settle_payment] at hq
      split at hq
      · cases hq
        obtain ⟨r, isSuccessful, now, hr, hpend, hv, rfl⟩ := hen
        have hdecide := hverdicts _ _ hv
        cases hpayments _ r hr with
        | accepted i r pending accept =>
          exact .settled i r isSuccessful now es List.suffix_rfl accept hdecide
        | settled i r' isSuccessful' now' older settle accept decide =>
          cases isSuccessful' <;> cases hpend
      · exact (hpayments id q hq).cons _
    | decide paymentId isSuccessful =>
      refine ⟨fun id q hq => (hpayments id q hq).cons _, fun id b hv => ?_⟩
      have hv : Function.update ((ledger py).after es).verdict paymentId (some isSuccessful) id =
        some b := hv
      rw [Function.update_apply] at hv
      split at hv
      · rename_i hid
        cases hv
        rw [hid]
        exact List.mem_cons_self ..
      · exact hkeep id b hv
    | look | seek | tell => exact ⟨fun id q hq => (hpayments id q hq).cons _, hkeep⟩

/-- What kind of event it is. -/
def LedgerEvent.name : LedgerEvent → String
  | .accept .. => "accept"
  | .decide .. => "decide"
  | .settle _ => "settle"
  | .look .. => "look"
  | .seek .. => "seek"
  | .tell .. => "tell"

end PaymentProcessing
