import PaymentProcessing.Application.Delays
import PaymentProcessing.Presentation.RetryChain

/-!
# Retries come to an end

A message that is dispatched, forwarded to the retry queue and dispatched again carries its count
of retries in a header. Each retry counts one more, so that a message is dispatched at most
`max(1, max_attempts - count)` times, and ends acknowledged after a success or once in the DLQ.
-/

namespace PaymentProcessing

open Python Concurrency InboundPaymentMessage FailureRouter

variable {Body : Type} {letter : Letter Body} {bits : Fin (2 ^ 53)} {maxAttempts count : Int}

/-! ## Headers -/

/-- The headers but for the count of retries. -/
def otherHeaders (headers : Headers) : Headers := headers.filter fun e => e.1 ≠ retryCountHeader

theorem otherHeaders_setHeader (headers : Headers) (value : Value) :
    otherHeaders (setHeader headers retryCountHeader value) = otherHeaders headers := by
  unfold otherHeaders setHeader
  split
  · rw [List.filter_map]
    have hcomp : ((fun e : String × Value => decide (e.1 ≠ retryCountHeader)) ∘
        fun e => if e.1 = retryCountHeader then (retryCountHeader, value) else e) =
          fun e => decide (e.1 ≠ retryCountHeader) := by
      funext e
      by_cases he : e.1 = retryCountHeader <;> simp [he]
    rw [hcomp]
    refine (List.map_congr_left fun e he => ?_).trans (List.map_id _)
    exact if_neg (of_decide_eq_true (List.mem_filter.1 he).2)
  · rw [List.filter_append]
    simp

/-! ## One dispatch -/

/-- The policy with another number of attempts. -/
def attemptsPolicy (maxAttempts : Int) : RetryPolicy :=
  { RetryPolicy.default with maxAttempts := maxAttempts }

/-- The message as it is forwarded to the retry queue when it has been retried `count` times. -/
def Letter.retried (letter : Letter Body) (count : Int) : Letter Body :=
  ⟨letter.body, setHeader letter.headers retryCountHeader (.int (count + 1))⟩

variable {policy : RetryPolicy} {s : Channel Body} {e : Exc}

theorem eval_dispatch_ok : (letter.delivery.dispatch policy (.ofExcept (.ok ()))).eval
    (Channel.answer bits) s =
      (.ok (), { s with unacked := [], performed := s.performed ++ [.ack] }) := rfl

theorem dispatch_failed (he : e.isException = true) :
    letter.delivery.dispatch policy (.ofExcept (.error e)) =
      letter.delivery.routeFailure policy e := by
  show ((if e.isException then _ else _ : Prog _ _ _)).bind _ = _
  rw [if_pos he]
  rfl

/-- The dispatch of a message whose route does what it does without raising. -/
theorem eval_dispatch_routed {route : Prog ChannelOp.Res Exc Unit} (s' : Channel Body)
    (hc : parseRetryCount letter.headers = .ok count) (he : e.isException = true)
    (hroute : letter.delivery.route policy count e = route)
    (heval : route.eval (Channel.answer bits) s = (.ok (), s')) :
    (letter.delivery.dispatch policy (.ofExcept (.error e))).eval (Channel.answer bits) s =
      (.ok (), { s' with unacked := [], performed := s'.performed ++ [.ack] }) := by
  have hparse : parseRetryCount letter.delivery.headers = .ok count := hc
  rw [dispatch_failed he, Delivery.routeFailure, hparse]
  show ((((letter.delivery.route policy count e).bind _).tryCatch _).bind _).eval _ _ = _
  rw [hroute, Prog.eval_bind, Prog.eval_tryCatch, Prog.eval_bind, heval]
  rfl

theorem eval_dispatch_dlq (hc : parseRetryCount letter.headers = .ok count)
    (he : e.isException = true) (ha : policy.decideAction count e = .dlq) :
    (letter.delivery.dispatch policy (.ofExcept (.error e))).eval (Channel.answer bits) s =
      (.ok (), { s with
        unacked := []
        dlq := s.dlq ++ [letter]
        performed := s.performed ++ [.publish .dlq letter none] ++ [.ack] }) :=
  eval_dispatch_routed { s with
    dlq := s.dlq ++ [letter]
    performed := s.performed ++ [.publish .dlq letter none] } hc he (by rw [Delivery.route, ha]) rfl

theorem eval_dispatch_retry {delay : Int} (hc : parseRetryCount letter.headers = .ok count)
    (he : e.isException = true) (ha : policy.decideAction count e = .retry)
    (hj : policy.delay.useJitter = false)
    (hd : policy.computeDelaySeconds count ExponentialDelay.noBits = .ok delay) :
    (letter.delivery.dispatch policy (.ofExcept (.error e))).eval (Channel.answer bits) s =
      (.ok (), { s with
        unacked := []
        retry := s.retry ++ [letter.retried count]
        performed :=
          s.performed ++ [.publish .retry (letter.retried count) (some delay)] ++ [.ack] }) := by
  refine eval_dispatch_routed { s with
    retry := s.retry ++ [letter.retried count]
    performed := s.performed ++ [.publish .retry (letter.retried count) (some delay)] } hc he
    (by rw [Delivery.route, ha]) ?_
  unfold Delivery.scheduleRetry
  rw [hj]
  show (((Prog.ofExcept (policy.computeDelaySeconds count ExponentialDelay.noBits)).bind
    _).eval _ _) = _
  rw [hd]
  rfl

theorem decideAction_eq_retry : policy.decideAction count e = .retry ↔
    RetryPolicy.isRetryable e = true ∧ count + 1 < policy.maxAttempts := by
  unfold RetryPolicy.decideAction
  split_ifs with hr hm
  · simp_all
  · simp_all
  · simp_all

/-! ## The chain -/

/-- The chain of one message that has been retried so often: it waits, or it has been dispatched,
succeeded, gone to the DLQ, or been forwarded and dispatched again. -/
inductive Chained (maxAttempts : Int) : Int → Letter Body → List (Except Exc Unit) →
    List (Link Body) → Channel Body → Prop where
  | waits (count : Int) (letter : Letter Body) (performed : List (ChannelOp Body)) :
      Chained maxAttempts count letter [] [] ⟨[letter], [], [], [], performed⟩
  | succeeds (count : Int) (letter : Letter Body) (outcomes : List (Except Exc Unit)) :
      Chained maxAttempts count letter (.ok () :: outcomes) [⟨letter, .ok (), [.ack]⟩]
        ⟨[], [], [], [], [.ack]⟩
  | dies (count : Int) (letter : Letter Body) (e : Exc) (outcomes : List (Except Exc Unit))
      (h : ¬ (RetryPolicy.isRetryable e = true ∧ count + 1 < maxAttempts)) :
      Chained maxAttempts count letter (.error e :: outcomes)
        [⟨letter, .error e, [.publish .dlq letter none, .ack]⟩]
        ⟨[], [], [], [letter], [.publish .dlq letter none, .ack]⟩
  | retries (count : Int) (letter : Letter Body) (e : Exc) (outcomes : List (Except Exc Unit))
      (links : List (Link Body)) (s : Channel Body) (h : RetryPolicy.isRetryable e = true)
      (hlt : count + 1 < maxAttempts)
      (hrest : Chained maxAttempts (count + 1) (letter.retried count) outcomes links s) :
      Chained maxAttempts count letter (.error e :: outcomes)
        (⟨letter, .error e, [.publish .retry (letter.retried count)
          (some (2 ^ (count ⊔ 0).toNat ⊓ 4)), .ack]⟩ :: links) s

/-- Nothing is ready: the chain is over. -/
theorem chain_over {outcomes : List (Except Exc Unit)} (h : s.ready = []) :
    s.chain policy bits outcomes = ([], s) := by
  cases outcomes with
  | nil => rfl
  | cons outcome outcomes =>
    unfold Channel.chain Channel.dispatchNext
    rw [h]

/-- **What the queues do with one message** is a chain. -/
theorem chained (hmax : maxAttempts ≤ 1024) (bits : Fin (2 ^ 53)) {outcomes : List (Except Exc Unit)}
    (hexc : ∀ e, .error e ∈ outcomes → e.isException = true) :
    ∀ (count : Int) (letter : Letter Body) (performed : List (ChannelOp Body)),
      parseRetryCount letter.headers = .ok count →
      Chained maxAttempts count letter outcomes
        (Channel.chain (attemptsPolicy maxAttempts) bits outcomes
          ⟨[letter], [], [], [], performed⟩).1
        (Channel.chain (attemptsPolicy maxAttempts) bits outcomes
          ⟨[letter], [], [], [], performed⟩).2 := by
  induction outcomes with
  | nil => exact fun count letter performed _ => .waits count letter performed
  | cons outcome outcomes ih =>
    intro count letter performed hc
    have hrest := ih fun e he => hexc e (List.mem_cons_of_mem _ he)
    unfold Channel.chain Channel.dispatchNext
    cases outcome with
    | ok a =>
      dsimp only
      rw [eval_dispatch_ok]
      dsimp only
      rw [chain_over rfl]
      exact .succeeds count letter outcomes
    | error e =>
      have he := hexc e (List.mem_cons_self ..)
      dsimp only
      cases ha : (attemptsPolicy maxAttempts).decideAction count e with
      | dlq =>
        rw [eval_dispatch_dlq hc he ha]
        dsimp only
        rw [chain_over rfl]
        refine .dies count letter e outcomes ?_
        intro h
        rw [decideAction_eq_retry.2 h] at ha
        cases ha
      | retry =>
        obtain ⟨hr, hlt⟩ := decideAction_eq_retry.1 ha
        have hlt' : count + 1 < maxAttempts := hlt
        rw [eval_dispatch_retry hc he ha rfl (computeDelaySeconds_default (by omega) _)]
        exact .retries count letter e outcomes _ _ hr hlt
          (hrest (count + 1) (letter.retried count) _ (parseRetryCount_setHeader _ _))

namespace Chained

variable {outcomes : List (Except Exc Unit)} {links : List (Link Body)}

/-- **At most `max(1, max_attempts - count)` dispatches.** -/
theorem bounded (h : Chained maxAttempts count letter outcomes links s) :
    (links.length : Int) ≤ 1 ⊔ (maxAttempts - count) := by
  induction h with
  | waits count letter performed =>
    rw [List.length_nil]
    omega
  | succeeds count letter outcomes =>
    rw [List.length_singleton]
    omega
  | dies count letter e outcomes h =>
    rw [List.length_singleton]
    omega
  | retries count letter e outcomes links s h hlt hrest ih =>
    rw [List.length_cons]
    push_cast
    omega

/-- **It ends** when enough outcomes are given. -/
theorem ends (h : Chained maxAttempts count letter outcomes links s)
    (hlong : 1 ⊔ (maxAttempts - count) ≤ outcomes.length) :
    s.ready = [] ∧ s.unacked = [] ∧ s.retry = [] ∧ ∃ link, links.getLast? = some link ∧
      ((link.outcome = .ok () ∧ s.dlq = []) ∨
        ∃ e, link.outcome = .error e ∧ s.dlq = [link.letter]) := by
  induction h with
  | waits count letter performed =>
    rw [List.length_nil] at hlong
    push_cast at hlong
    omega
  | succeeds count letter outcomes => exact ⟨rfl, rfl, rfl, _, rfl, .inl ⟨rfl, rfl⟩⟩
  | dies count letter e outcomes h => exact ⟨rfl, rfl, rfl, _, rfl, .inr ⟨e, rfl, rfl⟩⟩
  | retries count letter e outcomes links s h hlt hrest ih =>
    rw [List.length_cons] at hlong
    push_cast at hlong
    obtain ⟨hready, hunacked, hretry, link, hlink, hend⟩ := ih (by omega)
    refine ⟨hready, hunacked, hretry, link, ?_, hend⟩
    rw [List.getLast?_cons, hlink]
    rfl

/-- **The copies** differ in the count of retries alone. -/
theorem copies (h : Chained maxAttempts count letter outcomes links s)
    (hc : parseRetryCount letter.headers = .ok count) {k : Nat} {link : Link Body}
    (hlink : links[k]? = some link) : outcomes[k]? = some link.outcome ∧
      link.letter.body = letter.body ∧
      otherHeaders link.letter.headers = otherHeaders letter.headers ∧
      parseRetryCount link.letter.headers = .ok (count + k) := by
  have hzero : parseRetryCount letter.headers = .ok (count + ((0 : Nat) : Int)) := by
    rw [hc]
    exact congrArg Except.ok (Int.add_zero _).symm
  induction h generalizing k with
  | waits count letter performed => cases hlink
  | succeeds count letter outcomes | dies count letter e outcomes h =>
    cases k with
    | zero =>
      cases hlink
      exact ⟨rfl, rfl, rfl, hzero⟩
    | succ k => cases hlink
  | retries count letter e outcomes links s h hlt hrest ih =>
    cases k with
    | zero =>
      cases hlink
      exact ⟨rfl, rfl, rfl, hzero⟩
    | succ k =>
      have hnext : parseRetryCount (letter.retried count).headers = .ok (count + 1) :=
        parseRetryCount_setHeader _ _
      obtain ⟨houtcome, hbody, hothers, hcount⟩ := ih hnext hlink
        (hnext.trans (congrArg Except.ok (Int.add_zero _).symm))
      refine ⟨houtcome, hbody, hothers.trans (otherHeaders_setHeader _ _), hcount.trans ?_⟩
      refine congrArg Except.ok ?_
      push_cast
      omega

/-- What a dispatch does with its delivery: settle it once, and forward it by its outcome. -/
theorem dispatched (h : Chained maxAttempts count letter outcomes links s) {k : Nat}
    {link : Link Body} (hlink : links[k]? = some link) : link.settled = 1 ∧
      (link.outcome = .ok () → link.forwarded = [] ∧ links.length = k + 1) ∧
      ∀ e, link.outcome = .error e →
        (¬ (RetryPolicy.isRetryable e = true ∧ count + k + 1 < maxAttempts) →
          link.forwarded = [(.dlq, link.letter, none)] ∧ links.length = k + 1) ∧
        (RetryPolicy.isRetryable e = true → count + k + 1 < maxAttempts →
          link.forwarded = [(.retry, link.letter.retried (count + k),
            some (2 ^ ((count + k) ⊔ 0).toNat ⊓ 4))]) := by
  induction h generalizing k with
  | waits count letter performed => cases hlink
  | succeeds count letter outcomes =>
    cases k with
    | zero =>
      cases hlink
      exact ⟨rfl, fun _ => ⟨rfl, rfl⟩, fun e he => by cases he⟩
    | succ k => cases hlink
  | dies count letter e outcomes h =>
    cases k with
    | zero =>
      cases hlink
      refine ⟨rfl, (fun he => by cases he), fun e' he => ?_⟩
      cases he
      refine ⟨fun _ => ⟨rfl, rfl⟩, fun hr hlt => absurd ⟨hr, ?_⟩ h⟩
      push_cast at hlt
      omega
    | succ k => cases hlink
  | retries count letter e outcomes links s h hlt hrest ih =>
    cases k with
    | zero =>
      cases hlink
      refine ⟨rfl, (fun he => by cases he), fun e' he => ?_⟩
      cases he
      have hzero : count + ((0 : Nat) : Int) = count := Int.add_zero _
      rw [hzero]
      exact ⟨fun hn => absurd ⟨h, hlt⟩ hn, fun _ _ => rfl⟩
    | succ k =>
      have hcount : count + 1 + (k : Int) = count + ((k + 1 : Nat) : Int) := by
        push_cast
        omega
      obtain ⟨hsettled, hok, herr⟩ := ih hlink
      rw [hcount] at herr
      refine ⟨hsettled, fun he => ⟨(hok he).1, ?_⟩, fun e' he => ⟨fun hn => ?_, (herr e' he).2⟩⟩
      · rw [List.length_cons, (hok he).2]
      · rw [List.length_cons, ((herr e' he).1 hn).2]
        exact ⟨((herr e' he).1 hn).1, rfl⟩

/-- **The expirations** are whole seconds from one to four, and never get shorter. -/
theorem expirations (h : Chained maxAttempts count letter outcomes links s) :
    (∀ t ∈ links.flatMap Link.expirations, 2 ^ (count ⊔ 0).toNat ⊓ 4 ≤ t ∧ t ≤ 4) ∧
    (links.flatMap Link.expirations).Pairwise (· ≤ ·) := by
  induction h with
  | waits count letter performed => exact ⟨(fun t ht => by cases ht), .nil⟩
  | succeeds count letter outcomes | dies count letter e outcomes h =>
    exact ⟨(fun t ht => by cases ht), .nil⟩
  | retries count letter e outcomes links s h hlt hrest ih =>
    obtain ⟨hbetween, hsorted⟩ := ih
    have hgrow : (2 ^ (count ⊔ 0).toNat ⊓ 4 : Int) ≤ 2 ^ ((count + 1) ⊔ 0).toNat ⊓ 4 :=
      min_le_min_right 4 (pow_le_pow_right₀ (by norm_num) (by omega))
    rw [List.flatMap_cons]
    refine ⟨fun t ht => ?_, ?_⟩
    · rcases List.mem_append.1 ht with ht | ht
      · obtain rfl := List.mem_singleton.1 ht
        exact ⟨le_refl _, min_le_right _ _⟩
      · exact ⟨hgrow.trans (hbetween t ht).1, (hbetween t ht).2⟩
    · refine List.pairwise_append.2 ⟨List.pairwise_singleton _ _, hsorted, fun a ha b hb => ?_⟩
      obtain rfl := List.mem_singleton.1 ha
      exact hgrow.trans (hbetween b hb).1

end Chained

/-- What the dispatches of one message come to that has been retried `count` times. -/
structure RetryChain (maxAttempts count : Int) (letter : Letter Body)
    (outcomes : List (Except Exc Unit)) (links : List (Link Body)) (s : Channel Body) : Prop where
  bounded : (links.length : Int) ≤ 1 ⊔ (maxAttempts - count)
  /-- With enough outcomes given nothing waits any more, and the last dispatch succeeded or left
  the one copy in the DLQ. -/
  ends : 1 ⊔ (maxAttempts - count) ≤ outcomes.length →
    s.ready = [] ∧ s.unacked = [] ∧ s.retry = [] ∧ ∃ link, links.getLast? = some link ∧
      ((link.outcome = .ok () ∧ s.dlq = []) ∨
        ∃ e, link.outcome = .error e ∧ s.dlq = [link.letter])
  copies : ∀ (k : Nat) link, links[k]? = some link → outcomes[k]? = some link.outcome ∧
    link.letter.body = letter.body ∧
    otherHeaders link.letter.headers = otherHeaders letter.headers ∧
    parseRetryCount link.letter.headers = .ok (count + k)
  settled : ∀ link ∈ links, link.settled = 1
  succeeded : ∀ (k : Nat) link, links[k]? = some link → link.outcome = .ok () →
    link.forwarded = [] ∧ links.length = k + 1
  /-- On a permanent error, or when no attempts remain, the message goes to the DLQ at once. -/
  died : ∀ (k : Nat) link e, links[k]? = some link → link.outcome = .error e →
    ¬ (RetryPolicy.isRetryable e = true ∧ count + k + 1 < maxAttempts) →
      link.forwarded = [(.dlq, link.letter, none)] ∧ links.length = k + 1
  /-- On a retryable error a copy goes to the retry queue while attempts remain. -/
  retried : ∀ (k : Nat) link e, links[k]? = some link → link.outcome = .error e →
    RetryPolicy.isRetryable e = true → count + k + 1 < maxAttempts →
      ∃ copy seconds, link.forwarded = [(.retry, copy, some seconds)] ∧
        copy.body = link.letter.body ∧
        otherHeaders copy.headers = otherHeaders link.letter.headers ∧
        parseRetryCount link.letter.headers = .ok (count + k) ∧
        parseRetryCount copy.headers = .ok (count + k + 1)
  expirations : ∀ t ∈ links.flatMap Link.expirations, 1 ≤ t ∧ t ≤ 4
  sorted : (links.flatMap Link.expirations).Pairwise (· ≤ ·)

theorem retryChain_of_chained {outcomes : List (Except Exc Unit)} {links : List (Link Body)}
    (hc : parseRetryCount letter.headers = .ok count)
    (h : Chained maxAttempts count letter outcomes links s) :
    RetryChain maxAttempts count letter outcomes links s where
  bounded := h.bounded
  ends := h.ends
  copies _ _ hlink := h.copies hc hlink
  settled link hlink := by
    obtain ⟨k, hk⟩ := List.mem_iff_getElem?.1 hlink
    exact (h.dispatched hk).1
  succeeded _ _ hlink hok := (h.dispatched hlink).2.1 hok
  died _ _ e hlink herr hn := ((h.dispatched hlink).2.2 e herr).1 hn
  retried _ link e hlink herr hr hlt := ⟨_, _, ((h.dispatched hlink).2.2 e herr).2 hr hlt, rfl,
    otherHeaders_setHeader _ _, (h.copies hc hlink).2.2.2, parseRetryCount_setHeader _ _⟩
  expirations t ht := by
    obtain ⟨hlo, hhi⟩ := h.expirations.1 t ht
    have hone : (1 : Int) ≤ 2 ^ (count ⊔ 0).toNat ⊓ 4 :=
      le_min (one_le_pow₀ (by norm_num)) (by norm_num)
    exact ⟨hone.trans hlo, hhi⟩
  sorted := h.expirations.2

/-- **Retries come to an end**: for any body, any headers from which a count is parsed, and any
outcomes of the handler; a message from a relay is dispatched three times at most. -/
theorem retry_chain_ends (hmax : maxAttempts ≤ 1024) (letter : Letter Body)
    (hc : parseRetryCount letter.headers = .ok count)
    (bits : Fin (2 ^ 53)) {outcomes : List (Except Exc Unit)}
    (hexc : ∀ e, .error e ∈ outcomes → e.isException = true) :
    RetryChain maxAttempts count letter outcomes
      ((Channel.arrived letter).chain (attemptsPolicy maxAttempts) bits outcomes).1
      ((Channel.arrived letter).chain (attemptsPolicy maxAttempts) bits outcomes).2 ∧
    ∀ (py : Platform) record document,
      OutboxEventCodec.encode py record = .ok (document, letter.headers) →
      ((Channel.arrived letter).chain RetryPolicy.default bits outcomes).1.length ≤ 3 := by
  refine ⟨retryChain_of_chained hc (chained hmax bits hexc count letter [] hc),
    fun py record document henc => ?_⟩
  have hthree := (chained (by norm_num : (3 : Int) ≤ 1024) bits hexc 0 letter []
    (parseRetryCount_encoded henc)).bounded
  have hmax3 : (1 : Int) ⊔ (3 - 0) = 3 := by norm_num
  rw [hmax3] at hthree
  exact Int.ofNat_le.1 hthree

theorem retry_chain_ends_sample :
    RetryChain 3 0 (⟨0, []⟩ : Letter Nat)
      [.error (.transientDependency "gateway"), .error (.permanentProcessing "declined"), .ok ()]
      ((Channel.arrived ⟨0, []⟩).chain (attemptsPolicy 3) ExponentialDelay.noBits
        [.error (.transientDependency "gateway"), .error (.permanentProcessing "declined"),
          .ok ()]).1
      ((Channel.arrived ⟨0, []⟩).chain (attemptsPolicy 3) ExponentialDelay.noBits
        [.error (.transientDependency "gateway"), .error (.permanentProcessing "declined"),
          .ok ()]).2 ∧
    ((Channel.arrived (⟨0, []⟩ : Letter Nat)).chain (attemptsPolicy 3) ExponentialDelay.noBits
      [.error (.transientDependency "gateway"), .error (.permanentProcessing "declined"),
        .ok ()]).1.length = 2 :=
  ⟨(retry_chain_ends (by norm_num) ⟨0, []⟩ rfl ExponentialDelay.noBits (by
    intro e he
    simp only [List.mem_cons, Except.error.injEq, reduceCtorEq, List.not_mem_nil, or_false] at he
    rcases he with rfl | rfl <;> rfl)).1, by decide +kernel⟩

end PaymentProcessing
