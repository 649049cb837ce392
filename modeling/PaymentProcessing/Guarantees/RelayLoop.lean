import PaymentProcessing.Application.Delays
import PaymentProcessing.Presentation.OutboxRelay

/-!
# The relay loop in an outage

The failures in a row are counted without a bound, and the power of two is computed before the
cap is applied. So the loop survives 1024 failed executions in a row, and not 1025.
-/

namespace PaymentProcessing

open Python Float64 ExponentialBackoff

variable {interval : Float64} {n : ℕ}

/-! ## The delays -/

/-- The exponential delay after `n` failures in a row, capped. -/
def exponential (interval : Float64) (n : ℕ) : ℚ :=
  match interval with
  | .finite q => (q ⊔ 1) * 2 ^ (n - 1) ⊓ 30
  | _ => 30

/-- A delay after `n` failures in a row: positive, at most the cap, and at least half of the
exponential one. -/
def Suits (interval : Float64) (n : ℕ) (delay : Float64) : Prop :=
  ∃ d, delay = .finite d ∧ 0 < d ∧ d ≤ 30 ∧ exponential interval n / 2 ≤ d

theorem one_le_exponential (interval : Float64) (n : ℕ) : 1 ≤ exponential interval n := by
  unfold exponential
  split
  · have hpow : (1 : ℚ) ≤ 2 ^ (n - 1) := one_le_pow₀ (by norm_num)
    exact le_min (one_le_mul_of_one_le_of_one_le (le_max_right _ _) hpow) (by norm_num)
  · norm_num

theorem max_errorBackoffMin (h : Positive interval) :
    interval = .inf false ∧ interval.max errorBackoffMin = .inf false ∨
      ∃ q, interval = .finite q ∧ interval.max errorBackoffMin = .finite (q ⊔ 1) ∧
        Exact (q ⊔ 1) := by
  rcases h with rfl | ⟨q, rfl, hexact, -⟩
  · exact .inl ⟨rfl, rfl⟩
  · refine .inr ⟨q, rfl, ?_⟩
    rw [Float64.max, errorBackoffMin, Float64.lt]
    by_cases hq : q < 1
    · rw [if_pos (decide_eq_true hq), max_eq_right hq.le]
      exact ⟨rfl, exact_one⟩
    · rw [if_neg (by simpa using hq), max_eq_left (not_lt.1 hq)]
      exact ⟨rfl, hexact⟩

theorem timedeltaSeconds_thirty : timedeltaSeconds (.finite 30) = .ok 30000000 := by decide +kernel

theorem forInterval_proper (h : Positive interval) :
    (forInterval interval).schedule.Proper 30000000 where
  initial := by
    rcases max_errorBackoffMin h with ⟨-, hinf⟩ | ⟨q, -, hq, hexact⟩
    · exact .inl hinf
    · exact .inr ⟨q ⊔ 1, hq, hexact, le_trans (by norm_num) (le_max_right q 1)⟩
  cap := .inr ⟨30, rfl, exact_thirty, by norm_num⟩
  top := timedeltaSeconds_thirty

/-- **The capped delay of a failure**, up to the 1024th in a row. -/
theorem capped_forInterval (h : Positive interval) (h₁ : 1 ≤ n) (hn : n ≤ 1024) :
    (forInterval interval).schedule.capped n = .ok (.finite (exponential interval n)) := by
  have hk : ((n : ℤ) - 1).toNat = n - 1 := by omega
  rw [ExponentialDelay.capped, Float64.mulInt?, hk, ExponentialDelay.ofInt?_two_pow (by omega),
    Option.map_some]
  refine congrArg Except.ok ?_
  show ((interval.max errorBackoffMin).mul (.finite (2 ^ (n - 1)))).min (.finite 30) = _
  rcases max_errorBackoffMin h with ⟨hinf, hmax⟩ | ⟨q, hq, hmax, hexact⟩
  · have hpos : (0 : ℚ) < 2 ^ (n - 1) := by positivity
    have hmul : (Float64.inf false).mul (.finite (2 ^ (n - 1))) = .inf false := by
      simp only [Float64.mul, if_neg hpos.ne', decide_eq_false (not_lt.2 hpos.le), Bool.xor_false]
    rw [hmax, hmul, hinf]
    rfl
  · rw [hmax, hq]
    exact ExponentialDelay.min_mul_two_pow hexact (le_max_right q 1) exact_thirty (n - 1)

/-- **The delay of a failure**, up to the 1024th in a row. -/
theorem delayFor_forInterval (h : Positive interval) (h₁ : 1 ≤ n) (hn : n ≤ 1024)
    (bits : Fin (2 ^ 53)) : ∃ delay, (forInterval interval).schedule.delayFor n bits = .ok delay ∧
      Suits interval n delay := by
  obtain ⟨c, top, half, d, hc, htop, hle, hhalf, -, hd, hlo, hhi⟩ :=
    (forInterval_proper h).delayFor (by omega : 1 ≤ (n : ℤ)) (by omega) bits
  rw [capped_forInterval h h₁ hn] at hc
  cases hc
  cases htop
  obtain ⟨c', -, hc', hexact, -, -, -⟩ := (forInterval_proper h).capped (by omega : (n : ℤ) ≤ 1024)
  rw [capped_forInterval h h₁ hn] at hc'
  cases hc'
  -- half of the capped delay is a float
  have hone := one_le_exponential interval n
  have hlog := log_two_nonneg hone
  have hhalf' : Exact (exponential interval n * 2 ^ (-1 : ℤ)) := by
    refine hexact.mul_two_zpow (by linarith) (by omega) (by omega) ?_
    refine lt_of_le_of_lt ?_ (hexact.lt_overflow (by linarith))
    rw [zpow_neg_one]
    linarith
  have heq : half = exponential interval n / 2 := by
    have hmul : (Float64.finite (exponential interval n)).mul (.finite (1 / 2)) =
        .finite (exponential interval n / 2) := by
      rw [zpow_neg_one, ← div_eq_mul_inv] at hhalf'
      rw [Float64.mul, ← mul_div_assoc, mul_one]
      exact hhalf'
    rw [hmul] at hhalf
    cases hhalf
    rfl
  subst heq
  exact ⟨.finite d, hd, d, rfl, by linarith, by linarith, hlo⟩

/-! ## The loop -/

namespace OutboxRelay

/-- An execution of the relay that is not cancelled, with the random bits for the backoff. -/
structure Poll where
  outcome : Except Exc Nat
  bits : Fin (2 ^ 53)
  isException : ∀ e, outcome = .error e → e.isException = true

/-- The execution raised. -/
def Poll.failed (p : Poll) : Bool :=
  match p.outcome with
  | .ok _ => false
  | .error _ => true

/-- **The loop survives these executions**, after `n` failures in a row and without a stop: it neither
raises nor returns, waits after every failure as long as it should, and begins the next execution. -/
def Survives (self : OutboxRelay) (n : ℕ) (b : ExponentialBackoff) : List Poll → Prop
  | [] => True
  | p :: ps => ∃ at' b',
      self.resume b false (some .publishing) (.polled p.outcome p.bits) =
        some (.suspended at', b') ∧
      (p.failed = true → ∃ delay, at' = .waiting delay ∧ Suits self.interval (n + 1) delay) ∧
      self.resume b' false (some at') (.ended (.ok ())) = some (.suspended .publishing, b') ∧
      self.Survives (if p.failed then n + 1 else 0) b' ps

/-- No failure is the 1025th in a row, if there were `n` before. -/
def Bearable (n : ℕ) : List Poll → Prop
  | [] => True
  | p :: ps => if p.failed then n + 1 ≤ 1024 ∧ Bearable (n + 1) ps else Bearable 0 ps

variable {relay : OutboxRelay} {b : ExponentialBackoff} {p : Poll} {ps : List Poll}

theorem resume_failed {b' : ExponentialBackoff} {delay : Float64} (hp : p.failed = true)
    (hnext : b.nextDelay p.bits = (.ok delay, b')) :
    relay.resume b false (some .publishing) (.polled p.outcome p.bits) =
      some (.suspended (.waiting delay), b') := by
  obtain ⟨outcome, bits, hexc⟩ := p
  cases outcome with
  | ok count => cases hp
  | error e =>
    have hiso : WorkerLoop.isolate (.error e : Except Exc Nat) = .ok none := if_pos (hexc e rfl)
    simp only [resume, afterPoll, hiso, hnext]

theorem resume_failed_error {b' : ExponentialBackoff} {raised : Exc} (hp : p.failed = true)
    (hnext : b.nextDelay p.bits = (.error raised, b')) :
    relay.resume b false (some .publishing) (.polled p.outcome p.bits) =
      some (.raised raised, b') := by
  obtain ⟨outcome, bits, hexc⟩ := p
  cases outcome with
  | ok count => cases hp
  | error e =>
    have hiso : WorkerLoop.isolate (.error e : Except Exc Nat) = .ok none := if_pos (hexc e rfl)
    simp only [resume, afterPoll, hiso, hnext]

theorem resume_published (relay : OutboxRelay) (b : ExponentialBackoff) (hp : p.failed = false) :
    ∃ at', relay.resume b false (some .publishing) (.polled p.outcome p.bits) =
      some (.suspended at', b.reset) ∧
    relay.resume b.reset false (some at') (.ended (.ok ())) = some (.suspended .publishing, b.reset)
    := by
  obtain ⟨outcome, bits, hexc⟩ := p
  cases outcome with
  | error e => cases hp
  | ok count =>
    by_cases hcount : count < relay.batchSize
    · exact ⟨.waiting relay.interval, by simp [resume, afterPoll, WorkerLoop.isolate, hcount], rfl⟩
    · exact ⟨.yielding, by simp [resume, afterPoll, WorkerLoop.isolate, hcount], rfl⟩

/-- The loop after a failure that is not the 1025th in a row. -/
theorem resume_failed_waits (h : Positive relay.interval)
    (hb : b = { forInterval relay.interval with failures := n }) (hn : n + 1 ≤ 1024)
    (hp : p.failed = true) : ∃ delay,
      relay.resume b false (some .publishing) (.polled p.outcome p.bits) =
        some (.suspended (.waiting delay), { forInterval relay.interval with failures := n + 1 }) ∧
      Suits relay.interval (n + 1) delay := by
  obtain ⟨delay, hdelay, hsuits⟩ := delayFor_forInterval h (by omega) hn p.bits
  subst hb
  exact ⟨delay, resume_failed hp (Prod.ext hdelay rfl), hsuits⟩

/-- **The 1025th failure in a row ends the loop.** -/
theorem resume_failed_raises (relay : OutboxRelay) (hn : 1024 ≤ b.failures)
    (hp : p.failed = true) :
    ∃ b', relay.resume b false (some .publishing) (.polled p.outcome p.bits) =
      some (.raised (.overflowError "int too large to convert to float"), b') := by
  have hnext : b.nextDelay p.bits = (.error (.overflowError "int too large to convert to float"),
      { b with failures := b.failures + 1 }) := by
    refine Prod.ext ?_ rfl
    show b.schedule.delayFor ((b.failures + 1 : ℕ) : ℤ) p.bits = _
    rw [ExponentialDelay.delayFor, if_neg (by omega), ExponentialDelay.capped_overflow _ (by omega)]
    rfl
  exact ⟨_, resume_failed_error hp hnext⟩

theorem survives_iff_bearable (h : Positive relay.interval)
    (hb : b = { forInterval relay.interval with failures := n }) :
    relay.Survives n b ps ↔ Bearable n ps := by
  induction ps generalizing n b with
  | nil => exact Iff.rfl
  | cons p ps ih =>
    cases hp : p.failed with
    | true =>
      simp only [Survives, Bearable, hp, if_true]
      by_cases hn : n + 1 ≤ 1024
      · obtain ⟨delay, hresume, hsuits⟩ := resume_failed_waits h hb hn hp
        constructor
        · rintro ⟨at', b', hresume', -, -, hrest⟩
          cases hresume.symm.trans hresume'
          exact ⟨hn, (ih rfl).1 hrest⟩
        · rintro ⟨-, hrest⟩
          exact ⟨_, _, hresume, fun _ => ⟨delay, rfl, hsuits⟩, rfl, (ih rfl).2 hrest⟩
      · have hfailures : 1024 ≤ b.failures := by
          rw [hb]
          show 1024 ≤ n
          omega
        obtain ⟨b'', hresume⟩ := resume_failed_raises relay hfailures hp
        refine iff_of_false ?_ fun hbear => hn hbear.1
        rintro ⟨at', b', hresume', -⟩
        cases hresume.symm.trans hresume'
    | false =>
      simp only [Survives, Bearable, hp]
      obtain ⟨at', hresume, hnext⟩ := resume_published relay b hp
      have hreset : b.reset = { forInterval relay.interval with failures := 0 } := by
        rw [hb]
        rfl
      constructor
      · rintro ⟨at'', b', hresume', -, -, hrest⟩
        cases hresume.symm.trans hresume'
        exact (ih hreset).1 hrest
      · intro hrest
        exact ⟨at', _, hresume, (fun hf => by cases hf), hnext, (ih hreset).2 hrest⟩

/-- No stretch of failures is longer than 1024, the one that has begun with `n` included. -/
def Bounded (n : ℕ) (ps : List Poll) : Prop :=
  (∀ fs, fs <+: ps → (∀ p ∈ fs, p.failed = true) → n + fs.length ≤ 1024) ∧
  ∀ fs, fs <:+: ps → (∀ p ∈ fs, p.failed = true) → fs.length ≤ 1024

theorem bounded_nil (hn : n ≤ 1024) : Bounded n [] := by
  refine ⟨fun fs hfs _ => ?_, fun fs hfs _ => ?_⟩
  · rw [List.prefix_nil.1 hfs]
    exact hn
  · rw [List.infix_nil.1 hfs]
    exact Nat.zero_le _

theorem bounded_failed (hn : n ≤ 1024) (hp : p.failed = true) :
    Bounded n (p :: ps) ↔ n + 1 ≤ 1024 ∧ Bounded (n + 1) ps := by
  constructor
  · rintro ⟨hpre, hinf⟩
    have hcons : ∀ fs, fs <+: ps → (∀ p ∈ fs, p.failed = true) → n + 1 + fs.length ≤ 1024 := by
      intro fs hfs hall
      have := hpre (p :: fs) ((List.prefix_cons_inj p).2 hfs) (List.forall_mem_cons.2 ⟨hp, hall⟩)
      rw [List.length_cons] at this
      omega
    exact ⟨hcons [] List.nil_prefix (fun q hq => by cases hq), hcons,
      fun fs hfs => hinf fs (List.infix_cons hfs)⟩
  · rintro ⟨-, hpre, hinf⟩
    have hpre' : ∀ fs, fs <+: p :: ps → (∀ p ∈ fs, p.failed = true) → n + fs.length ≤ 1024 := by
      intro fs hfs hall
      rcases List.prefix_cons_iff.1 hfs with rfl | ⟨fs, rfl, hfs'⟩
      · exact hn
      · have := hpre fs hfs' fun q hq => hall q (List.mem_cons_of_mem p hq)
        rw [List.length_cons]
        omega
    refine ⟨hpre', fun fs hfs hall => ?_⟩
    rcases List.infix_cons_iff.1 hfs with hfs | hfs
    · have := hpre' fs hfs hall
      omega
    · exact hinf fs hfs hall

theorem bounded_published (hn : n ≤ 1024) (hp : p.failed = false) :
    Bounded n (p :: ps) ↔ Bounded 0 ps := by
  constructor
  · rintro ⟨-, hinf⟩
    have hinf' : ∀ fs, fs <:+: ps → (∀ p ∈ fs, p.failed = true) → fs.length ≤ 1024 :=
      fun fs hfs => hinf fs (List.infix_cons hfs)
    refine ⟨fun fs hfs hall => ?_, hinf'⟩
    rw [Nat.zero_add]
    exact hinf' fs hfs.isInfix hall
  · rintro ⟨-, hinf⟩
    have hnil : ∀ fs, fs <+: p :: ps → (∀ p ∈ fs, p.failed = true) → fs = [] := by
      intro fs hfs hall
      rcases List.prefix_cons_iff.1 hfs with rfl | ⟨fs, rfl, -⟩
      · rfl
      · cases hp.symm.trans (hall p (List.mem_cons_self))
    refine ⟨fun fs hfs hall => ?_, fun fs hfs hall => ?_⟩
    · rw [hnil fs hfs hall]
      exact hn
    · rcases List.infix_cons_iff.1 hfs with hfs | hfs
      · rw [hnil fs hfs hall]
        exact Nat.zero_le _
      · exact hinf fs hfs hall

/-- Counting the failures is looking at the stretches of failures. -/
theorem bearable_iff (hn : n ≤ 1024) : Bearable n ps ↔ Bounded n ps := by
  induction ps generalizing n with
  | nil => exact iff_of_true trivial (bounded_nil hn)
  | cons p ps ih =>
    cases hp : p.failed with
    | true =>
      rw [bounded_failed hn hp, Bearable, if_pos hp]
      exact and_congr_right fun hn' => ih hn'
    | false =>
      rw [bounded_published hn hp, Bearable, if_neg (by simp [hp])]
      exact ih (Nat.zero_le 1024)

/-- **The relay loop survives exactly the outages of at most 1024 executions**: it neither raises nor
returns, waits after every failure as it should and begins the next execution, if and only if no
more than that many executions in a row fail. -/
theorem survives_iff (relay : OutboxRelay) (h : Positive relay.interval) (polls : List Poll) :
    relay.Survives 0 (forInterval relay.interval) polls ↔
      ∀ fs, fs <:+: polls → (∀ p ∈ fs, p.failed = true) → fs.length ≤ 1024 := by
  have hb : forInterval relay.interval = { forInterval relay.interval with failures := 0 } := rfl
  rw [survives_iff_bearable h hb, bearable_iff (Nat.zero_le 1024)]
  refine ⟨fun hb => hb.2, fun hb => ⟨fun fs hfs hall => ?_, hb⟩⟩
  rw [Nat.zero_add]
  exact hb fs hfs.isInfix hall

/-- A relay that polls every five seconds. -/
def sample : OutboxRelay := { interval := .finite 5 }

theorem sample_positive : Positive sample.interval := .inr ⟨5, rfl, exact_five, by norm_num⟩

/-- An execution that fails. -/
def failing : Poll where
  outcome := .error (.external 0)
  bits := ExponentialDelay.noBits
  isException := by
    intro e h
    cases h
    rfl

theorem survives_iff_sample : sample.Survives 0 (forInterval sample.interval)
    (List.replicate 1024 failing) := by
  refine (survives_iff sample sample_positive _).2 ?_
  intro fs hfs _
  have hlen := hfs.length_le
  rwa [List.length_replicate] at hlen

/-- **The loop dies of the 1025th failure in a row.** -/
theorem outage_ends_loop :
    (¬ ∀ (relay : OutboxRelay) (polls : List Poll), Positive relay.interval →
      relay.Survives 0 (forInterval relay.interval) polls) ∧
    ¬ sample.Survives 0 (forInterval sample.interval) (List.replicate 1025 failing) ∧
    ∃ b', sample.resume { forInterval sample.interval with failures := 1024 } false
      (some .publishing) (.polled failing.outcome failing.bits) =
        some (.raised (.overflowError "int too large to convert to float"), b') := by
  have hdead : ¬ sample.Survives 0 (forInterval sample.interval) (List.replicate 1025 failing) := by
    intro hs
    have hbear := (survives_iff_bearable sample_positive rfl).1 hs
    have hle := ((bearable_iff (Nat.zero_le 1024)).1 hbear).2 _ List.infix_rfl
      fun p hp => by rw [List.eq_of_mem_replicate hp]; rfl
    rw [List.length_replicate] at hle
    exact absurd hle (by decide)
  exact ⟨fun hall => hdead (hall sample _ sample_positive), hdead,
    resume_failed_raises sample (le_refl 1024) rfl⟩

end OutboxRelay

end PaymentProcessing
