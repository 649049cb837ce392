import PaymentProcessing.Guarantees.Payments
import PaymentProcessing.Protocol.Permissions

/-!
# Where webhooks go

The guard looks at a url when the payment is created and again when the webhook is sent. The first
look already decides: every stored payment has a url that passes, so a webhook is never refused by
the second, and no call of the program goes anywhere else.
-/

namespace PaymentProcessing

open Python Relational Concurrency World

variable {py : Platform} {A : Allowed} {i : Nat} {y y' : Config}

/-- The url passes the guard. -/
def Guarded (py : Platform) (url : String) : Prop := webhookUrl py url = .ok url

theorem guarded_of_ok {value url : String} (h : webhookUrl py value = .ok url) :
    Guarded py url := by
  obtain rfl := eq_of_webhookUrl h
  exact h

/-- A payment that is inserted has a url that passes. -/
def Op.insertsGuarded (py : Platform) : Op → Prop
  | .insertPayment row => Guarded py row.webhookUrl
  | _ => True

theorem given_newPayment (command : CreatePaymentInput) :
    (CreatePayment.newPayment py command).Given (fun _ _ => True) (Op.insertsGuarded py)
      fun r => ∀ new, r = .ok new → Guarded py new.1.webhookUrl := by
  have hraise : ∀ {α : Type} (r : Except Exc α) (Q : Except Exc α → Prop), (∀ a, r = .ok a → Q r) →
      (∀ e, r = .error e → Q r) → (orRaise r).Given (fun _ _ => True) (Op.insertsGuarded py) Q := by
    intro α r Q hok herr
    refine Prog.given_ofExcept ?_
    cases r with
    | ok a => exact hok a rfl
    | error e => exact herr e rfl
  refine .bind (hraise _ (fun _ => True) (fun _ _ => trivial) fun _ _ => trivial)
    (fun money _ => ?_) fun e _ _ he => by cases he
  refine .bind (hraise _ (fun _ => True) (fun _ _ => trivial) fun _ _ => trivial)
    (fun key _ => ?_) fun e _ _ he => by cases he
  refine .bind (hraise _ (fun r => ∀ url, r = .ok url → Guarded py url)
    (fun _ _ url hr => guarded_of_ok hr) fun e he url hr => ?_) (fun url hurl => ?_)
    fun e _ _ he => by cases he
  · rw [he] at hr
    cases hr
  · refine .bind (Prog.given_perform (Q := fun _ => True) trivial fun _ _ => trivial)
      (fun now _ => ?_) fun e _ _ he => by cases he
    refine .bind (Prog.given_perform (Q := fun _ => True) trivial fun _ _ => trivial)
      (fun id _ => ?_) fun e _ _ he => by cases he
    intro new he
    cases he
    exact hurl url rfl

/-- **A request inserts only payments whose url passes the guard.** -/
theorem given_createPayment (command : CreatePaymentInput) :
    (CreatePayment.execute py command).Given (fun _ _ => True) (Op.insertsGuarded py)
      fun _ => True := by
  have hstore : ∀ payment now, Guarded py payment.webhookUrl →
      (CreatePayment.store payment now).Only (Op.insertsGuarded py) := by
    intro payment now hurl
    refine only_withUow trivial trivial (.bind (.tryCatch (only_call hurl) fun e => ?_) fun _ => ?_)
    · split
      · split <;> trivial
      · trivial
    · exact .bind (.bind (only_call trivial) fun id => only_call trivial) fun _ => only_call trivial
  have hreplay : ∀ money key, (CreatePayment.replayExisting command money key).Only
      (Op.insertsGuarded py) := by
    intro money key
    refine .bind (only_withUow trivial trivial (.bind (only_call trivial) fun row =>
      only_toPayment row)) fun existing => ?_
    split
    · trivial
    · split <;> trivial
  refine .bind (given_newPayment command) (fun new hnew => ?_) fun _ _ => trivial
  refine .bind (Q := fun _ => True) (.tryCatch (Q := fun _ => True) ?_ (fun _ _ => trivial)
    fun e _ => ?_) (fun stored _ => ?_) fun _ _ => trivial
  · exact .bind (hstore new.1 new.2 (hnew new rfl)).given (fun _ _ => trivial) fun _ _ => trivial
  · split <;> trivial
  · split
    · trivial
    · exact (hreplay _ _).given

/-- Whoever inserts a payment has had its url checked. -/
theorem did_insert_guarded (h : Reachable py A y) {row : PaymentModel} {r : Except Exc Unit}
    (hd : y.state.Did i (.insertPayment row) r) : Guarded py row.webhookUrl := by
  obtain ⟨k, hk⟩ := h.inv.active _ hd
  have hkeeps : KeepsAlong (fun _ _ _ => True) (fun _ op => op.insertsGuarded py)
      (fun _ _ => True) i y := by
    refine h.keeps_started hk (fun s s' p hs => ?_) fun _ _ _ _ _ _ _ _ _ _ _ _ => trivial
    have hgiven : p.Given (fun _ _ => True) (Op.insertsGuarded py) fun _ => True := by
      cases k with
      | createPayment command =>
        cases hs
        exact .bind (given_createPayment command) (fun _ _ => trivial) fun _ _ => trivial
      | _ =>
        refine (Prog.Only.mono (fun op hop => ?_) (start_only hs)).given
        cases op with
        | insertPayment row => cases hop
        | _ => trivial
    exact (hgiven.along (I := fun _ => True) trivial (fun _ _ _ hop => hop)
      (fun _ _ _ _ _ _ => trivial) fun _ _ _ _ _ _ => trivial).mono fun _ _ _ => trivial
  obtain ⟨-, -, hguarded, -⟩ := hkeeps.obeyed.of_mem (mem_history.2 hd)
  exact hguarded

/-- The url of a stored payment passes the guard. -/
theorem stored_guarded (h : Reachable py A y) {p : Payment} (hp : y.state.Stored p) :
    Guarded py p.webhookUrl := by
  obtain ⟨row, ⟨i, ws, hw, hin⟩, -, -, hsame⟩ := row_inserted h _ _ hp
  obtain ⟨op, r, hd, hstages⟩ := (written h i _).2 ws hw hin
  have hurl : p.webhookUrl = row.webhookUrl := hsame.webhookUrl
  rw [hurl]
  cases op with
  | insertPayment row' =>
    cases hstages
    exact did_insert_guarded h hd
  | updateOutbox ids patch => obtain ⟨_, -, he⟩ := hstages; cases he
  | deleteProcessed cutoff limit => obtain ⟨_, he⟩ := hstages; cases he
  | _ => cases hstages

/-- **Webhooks go where the guard lets them.** Every stored payment has a url that passes the guard,
and whatever a process has called, with any failure, was the url of a stored payment, which passes
the guard. -/
theorem webhook_calls_guarded (h : Reachable py anyAction y) :
    (∀ p, y.state.Stored p → webhookUrl py p.webhookUrl = .ok p.webhookUrl) ∧
    ∀ i url payload key r, y.state.Did i (.post url payload key) r →
      webhookUrl py url = .ok url ∧ ∃ p, y.state.Stored p ∧ p.webhookUrl = url ∧ key = p.id.str := by
  refine ⟨fun p hp => stored_guarded h hp, ?_⟩
  refine h.invariant (P := fun y => ∀ i url payload key r, y.state.Did i (.post url payload key) r →
    webhookUrl py url = .ok url ∧ ∃ p, y.state.Stored p ∧ p.webhookUrl = url ∧ key = p.id.str)
    (fun _ _ _ _ _ _ hd => by cases hd) ?_
  intro y y' a hr _ hP _ hl i url payload key r hd
  have hlater : ∀ {p : Payment}, y.state.Stored p →
      ∃ q, y'.state.Stored q ∧ q.webhookUrl = p.webhookUrl ∧ q.id = p.id := by
    intro p hp
    obtain ⟨q, hq, hext⟩ := (hl.evolves (sound py) hr.inv).payments p hp
    exact ⟨q, hq, hext.webhookUrl, hext.id⟩
  rcases hl.did hd with hd | ⟨⟨-, -, hreq⟩, -⟩
  · obtain ⟨hok, p, hp, hurl, hkey⟩ := hP i url payload key r hd
    obtain ⟨q, hq, hqurl, hqid⟩ := hlater hp
    exact ⟨hok, q, hq, hqurl.trans hurl, by rw [hkey, hqid]⟩
  · cases hreq with
    | outcome p messageId executes stored terminal first =>
      obtain ⟨q, hq, hqurl, hqid⟩ := hlater stored
      exact ⟨stored_guarded hr stored, q, hq, hqurl, by rw [hqid]⟩

/-- The entry is a webhook. -/
def Entry.isPost : Entry → Bool
  | .did _ (.post ..) _ => true
  | _ => false

theorem webhook_calls_guarded_sample : ∃ y, sampleEnd = some y ∧
    ∃ i url payload key r, y.state.Did i (.post url payload key) r ∧
      webhookUrl samplePlatform url = .ok url := by
  obtain ⟨y, hy⟩ := Option.isSome_iff_exists.1 (by decide +kernel : sampleEnd.isSome = true)
  have hlog : (sampleEnd.map fun y => y.state.log.any (Entry.isPost)) = some true := by
    decide +kernel
  rw [hy, Option.map_some, Option.some.injEq, List.any_eq_true] at hlog
  obtain ⟨e, he, hpost⟩ := hlog
  have hcalls := (webhook_calls_guarded (reachable_sample hy)).2
  unfold Entry.isPost at hpost
  split at hpost
  · exact ⟨y, hy, _, _, _, _, _, he, (hcalls _ _ _ _ _ he).1⟩
  · cases hpost

end PaymentProcessing
