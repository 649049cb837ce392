import PaymentProcessing.Application.Retry
import PaymentProcessing.Python.Rounding

/-!
# How long a retry waits

The delays of a schedule with a start and a cap that are not negative: the power of two fits a
float for 1024 attempts, jitter takes away at most half, and what comes out is a duration no longer
than the cap's.
-/

namespace PaymentProcessing

open Python Float64

/-! ## Durations -/

/-- `0 <= x` for a float. -/
def NonNegative (x : Float64) : Prop := x = .inf false ∨ ∃ q, x = .finite q ∧ Exact q ∧ 0 ≤ q

/-- `0 < x` for a float. -/
def Positive (x : Float64) : Prop := x = .inf false ∨ ∃ q, x = .finite q ∧ Exact q ∧ 0 < q

theorem exact_million : Exact 1000000 := exact_natCast (n := 1000000) (by norm_num)

theorem exact_four : Exact 4 := exact_natCast (n := 4) (by norm_num)

theorem exact_five : Exact 5 := exact_natCast (n := 5) (by norm_num)

theorem exact_thirty : Exact 30 := exact_natCast (n := 30) (by norm_num)

theorem timedeltaMicroseconds_eq_ok {micros a : Int} (h : timedeltaMicroseconds micros = .ok a) :
    a = micros := by
  unfold timedeltaMicroseconds at h
  dsimp only at h
  split_ifs at h
  cases h
  rfl

theorem timedeltaMicroseconds_between {micros b : Int} (h₀ : 0 ≤ micros) (h : micros ≤ b)
    (hb : timedeltaMicroseconds b = .ok b) : timedeltaMicroseconds micros = .ok micros := by
  unfold timedeltaMicroseconds at hb ⊢
  dsimp only at hb ⊢
  split_ifs at hb with hdays
  rw [if_pos]
  omega

theorem round64_fraction {q : ℚ} (h : 0 ≤ q) (h' : q ≤ 1) :
    ∃ a, round64 (q * 1000000) = .finite a ∧ 0 ≤ a ∧ a ≤ 1000000 :=
  round64_finite (by positivity) (by linarith) exact_million

/-- What `timedelta(seconds=x)` is made of. -/
theorem timedeltaSeconds_finite {q : ℚ} (h : 0 ≤ q) : ∃ micros, 0 ≤ micros ∧ micros ≤ 1000000 ∧
    round64 ((q - ⌊q⌋) * 1000000) = .finite micros ∧
    timedeltaSeconds (.finite q) =
      timedeltaMicroseconds (⌊q⌋ * 1000000 + roundHalfEven micros) := by
  obtain ⟨micros, hmicros, hlo, hhi⟩ := round64_fraction (sub_nonneg.2 (Int.floor_le q))
    (by linarith [Int.lt_floor_add_one q])
  refine ⟨micros, hlo, hhi, hmicros, ?_⟩
  simp only [timedeltaSeconds, if_pos h, hmicros]

/-- **Longer delays are longer durations.** -/
theorem timedeltaSeconds_mono {x y : ℚ} {b : Int} (h₀ : 0 ≤ x) (h : x ≤ y)
    (hb : timedeltaSeconds (.finite y) = .ok b) :
    ∃ a, timedeltaSeconds (.finite x) = .ok a ∧ 0 ≤ a ∧ a ≤ b := by
  obtain ⟨mx, hmx0, hmx1, hx, htx⟩ := timedeltaSeconds_finite h₀
  obtain ⟨my, hmy0, hmy1, hy, hty⟩ := timedeltaSeconds_finite (h₀.trans h)
  rw [hty] at hb
  obtain rfl := timedeltaMicroseconds_eq_ok hb
  have hrx : roundHalfEven mx ≤ 1000000 := roundHalfEven_le_of_le (by exact_mod_cast hmx1)
  have hrx0 : 0 ≤ roundHalfEven mx := roundHalfEven_nonneg hmx0
  have hry0 : 0 ≤ roundHalfEven my := roundHalfEven_nonneg hmy0
  have hfx : 0 ≤ ⌊x⌋ := Int.floor_nonneg.2 h₀
  have hle : ⌊x⌋ * 1000000 + roundHalfEven mx ≤ ⌊y⌋ * 1000000 + roundHalfEven my := by
    rcases (Int.floor_mono h).lt_or_eq with hlt | heq
    · omega
    · -- the same second
      have hfrac : mx ≤ my := by
        refine round64_mono ?_ hx hy
        rw [heq]
        linarith
      have := roundHalfEven_mono hfrac
      omega
  refine ⟨_, htx.trans (timedeltaMicroseconds_between (by omega) hle hb), by omega, hle⟩

theorem timedeltaSeconds_nonpos {x : ℚ} {a : Int} (h : x ≤ 0)
    (ha : timedeltaSeconds (.finite x) = .ok a) : a ≤ 0 := by
  rcases h.lt_or_eq with hneg | rfl
  · simp only [timedeltaSeconds, if_neg (not_le.2 hneg)] at ha
    split at ha
    · rename_i micros hmicros
      obtain rfl := timedeltaMicroseconds_eq_ok ha
      have hfloor : 0 ≤ ⌊-x⌋ := Int.floor_nonneg.2 (by linarith)
      have hle : micros ≤ 0 := by
        refine round64_nonpos ?_ hmicros
        have := Int.floor_le (-x)
        push_cast
        nlinarith
      have hround : roundHalfEven micros ≤ 0 := roundHalfEven_le_of_le (by exact_mod_cast hle)
      omega
    · cases ha
  · obtain ⟨b, hb, -, hle⟩ := timedeltaSeconds_mono (le_refl 0) (le_refl 0) ha
    rw [hb] at ha
    obtain ⟨micros, -, -, hm, ht⟩ := timedeltaSeconds_finite (le_refl (0 : ℚ))
    have hzero : micros = 0 := by
      simp only [Int.floor_zero, Int.cast_zero, sub_zero, zero_mul] at hm
      exact eq_zero hm
    rw [ht, hzero] at hb
    obtain rfl := timedeltaMicroseconds_eq_ok hb
    cases ha
    have hround : roundHalfEven 0 = 0 := by exact_mod_cast roundHalfEven_intCast 0
    rw [hround, Int.floor_zero]
    omega

/-- The longest duration. -/
def maxDuration : Int := 86399999999999999999

/-- The longest duration of at most `cap` seconds, for a cap that is not negative. -/
def longest (cap : Float64) : Int :=
  match timedeltaSeconds cap with
  | .ok top => top
  | .error _ => maxDuration

theorem le_maxDuration {x : Float64} {micros : Int} (h : timedeltaSeconds x = .ok micros) :
    micros ≤ maxDuration := by
  have hdays : ∀ n, timedeltaMicroseconds n = .ok micros → micros ≤ maxDuration := by
    intro n hn
    obtain rfl := timedeltaMicroseconds_eq_ok hn
    unfold timedeltaMicroseconds at hn
    dsimp only at hn
    unfold maxDuration
    split_ifs at hn with hrange
    omega
  unfold timedeltaSeconds at h
  split at h
  · dsimp only at h
    split at h
    · exact hdays _ h
    · cases h
  · cases h
  · cases h

theorem longest_nonneg {cap : Float64} (h : NonNegative cap) : 0 ≤ longest cap := by
  unfold longest
  split
  · rename_i top htop
    rcases h with rfl | ⟨q, rfl, -, hq⟩
    · cases htop
    · obtain ⟨a, -, h₀, hle⟩ := timedeltaSeconds_mono (le_refl 0) hq htop
      exact h₀.trans hle
  · unfold maxDuration
    omega

theorem duration_le_longest {cap : Float64} {q : ℚ} {micros : Int} (h : NonNegative cap)
    (hle : ∀ top, cap = .finite top → q ≤ top)
    (hm : timedeltaSeconds (.finite q) = .ok micros) : micros ≤ longest cap := by
  by_cases hq : 0 ≤ q
  · unfold longest
    split
    · rename_i top htop
      rcases h with rfl | ⟨c, rfl, -, hc⟩
      · cases htop
      · obtain ⟨a, ha, -, hmono⟩ := timedeltaSeconds_mono hq (hle c rfl) htop
        rw [hm] at ha
        cases ha
        exact hmono
    · exact le_maxDuration hm
  · exact (timedeltaSeconds_nonpos (not_le.1 hq).le hm).trans (longest_nonneg h)

/-! ## Delays -/

namespace ExponentialDelay

/-- A duration that the schedule waits after so many attempts. -/
def Waits (d : ExponentialDelay) (attempts : Int) (micros : Int) : Prop :=
  ∃ bits delay, d.delayFor attempts bits = .ok delay ∧ timedeltaSeconds delay = .ok micros

/-- The start and the cap are not negative, and the cap is a duration of `top` microseconds. -/
structure Proper (d : ExponentialDelay) (top : Int) : Prop where
  initial : NonNegative d.initial
  cap : NonNegative d.cap
  top : timedeltaSeconds d.cap = .ok top

theorem Proper.cap_finite {d : ExponentialDelay} {top : Int} (h : d.Proper top) :
    ∃ q, d.cap = .finite q ∧ Exact q ∧ 0 ≤ q := by
  rcases h.cap with hinf | hfin
  · have htop := h.top
    rw [hinf] at htop
    cases htop
  · exact hfin

theorem ofInt?_two_pow {k : ℕ} (h : k ≤ 1023) : ofInt? (2 ^ k) = some (.finite (2 ^ k)) := by
  have hexact : round64 ((2 ^ k : ℤ) : ℚ) = .finite (2 ^ k) := by
    push_cast
    exact exact_two_pow h
  rw [ofInt?, hexact]

/-- From `2 ^ 1024` on the conversion overflows. -/
theorem ofInt?_two_pow_overflow {k : ℕ} (h : 1024 ≤ k) : ofInt? (2 ^ k) = none := by
  have hover : round64 ((2 ^ k : ℤ) : ℚ) = .inf false := by
    refine round64_of_overflow ?_
    push_cast
    exact pow_le_pow_right₀ (by norm_num) h
  rw [ofInt?, hover]

theorem mul_two_pow {x : Float64} (h : NonNegative x) (k : ℕ) :
    NonNegative (x.mul (.finite (2 ^ k))) := by
  rcases h with rfl | ⟨q, rfl, -, hq⟩
  · refine .inl ?_
    have hpos : (0 : ℚ) < 2 ^ k := by positivity
    simp only [Float64.mul, if_neg hpos.ne', decide_eq_false (not_lt.2 hpos.le), Bool.xor_false]
  · have hprod : 0 ≤ q * 2 ^ k := by positivity
    show NonNegative (round64 (q * 2 ^ k))
    cases hr : round64 (q * 2 ^ k) with
    | finite a => exact .inr ⟨a, rfl, round64_exact hr, round64_nonneg hprod hr⟩
    | inf neg =>
      unfold round64 at hr
      split_ifs at hr with h₀ hpos
      · cases hr
        exact .inl rfl
      · exact absurd (lt_of_le_of_ne hprod (Ne.symm h₀)) hpos
    | nan =>
      unfold round64 at hr
      split_ifs at hr

/-- **The capped value**, for a start of one second or more: no rounding shows. -/
theorem min_mul_two_pow {m top : ℚ} (hm : Exact m) (h : 1 ≤ m) (htop : Exact top) (k : ℕ) :
    ((Float64.finite m).mul (.finite (2 ^ k))).min (.finite top) = .finite (m * 2 ^ k ⊓ top) := by
  have hpow : (1 : ℚ) ≤ 2 ^ k := one_le_pow₀ (by norm_num)
  have hone : 1 ≤ m * 2 ^ k := one_le_mul_of_one_le_of_one_le h hpow
  by_cases hle : m * 2 ^ k ≤ top
  · have hexact : Exact (m * 2 ^ k) := by
      rw [← zpow_natCast]
      refine hm.mul_two_zpow (by linarith) ?_ ?_ ?_
      · have := log_two_nonneg h
        omega
      · have := log_two_nonneg h
        omega
      · rw [zpow_natCast]
        exact hle.trans_lt (htop.lt_overflow (by linarith))
    have hmul : (Float64.finite m).mul (.finite (2 ^ k)) = .finite (m * 2 ^ k) := hexact
    rw [hmul, Float64.min, Float64.lt, if_neg (by simpa using hle), min_eq_left hle]
  · have hlt := not_le.1 hle
    rw [min_eq_right hlt.le]
    have hnonneg : NonNegative (.finite m) := .inr ⟨m, rfl, hm, by linarith⟩
    rcases mul_two_pow hnonneg k with hinf | ⟨p, hp, -, -⟩
    · rw [hinf]
      rfl
    · have hge : top ≤ p := round64_mono hlt.le htop hp
      rw [hp, Float64.min, Float64.lt]
      rcases hge.lt_or_eq with hlt | heq
      · rw [if_pos (by simpa using hlt)]
      · rw [if_neg (by simp [heq]), heq]

/-- **The capped delay** is a float between zero and the cap. -/
theorem Proper.capped {d : ExponentialDelay} {top : Int} (h : d.Proper top) {attempts : Int}
    (ha : attempts ≤ 1024) : ∃ c cap, d.capped attempts = .ok (.finite c) ∧ Exact c ∧ 0 ≤ c ∧
      d.cap = .finite cap ∧ c ≤ cap := by
  obtain ⟨cap, hcap, hexact, hcap0⟩ := h.cap_finite
  have hk : (attempts - 1).toNat ≤ 1023 := by omega
  rw [ExponentialDelay.capped, Float64.mulInt?, ofInt?_two_pow hk, Option.map_some, hcap]
  rcases mul_two_pow h.initial (attempts - 1).toNat with hinf | ⟨p, hp, hpe, hp0⟩
  · rw [hinf]
    exact ⟨cap, cap, rfl, hexact, hcap0, rfl, le_refl _⟩
  · rw [hp]
    by_cases hlt : cap < p
    · refine ⟨cap, cap, ?_, hexact, hcap0, rfl, le_refl _⟩
      simp [Float64.min, Float64.lt, hlt]
    · refine ⟨p, cap, ?_, hpe, hp0, rfl, not_lt.1 hlt⟩
      simp [Float64.min, Float64.lt, hlt]

/-- From the 1025th attempt on the power of two overflows. -/
theorem capped_overflow (d : ExponentialDelay) {attempts : Int} (h : 1025 ≤ attempts) :
    d.capped attempts = .error (.overflowError "int too large to convert to float") := by
  rw [capped, mulInt?, ofInt?_two_pow_overflow (by omega), Option.map_none]

theorem jitter_between (r : Fin (2 ^ 53)) : ∃ j, jitter r = .finite j ∧ 1 / 2 ≤ j ∧ j ≤ 1 := by
  have hr0 : (0 : ℚ) ≤ (r.val : ℚ) / 2 ^ 53 := by positivity
  have hr1 : (r.val : ℚ) / 2 ^ 53 ≤ 1 := by
    rw [div_le_one (by positivity)]
    exact_mod_cast r.isLt.le
  obtain ⟨a, ha, ha0, ha1⟩ := round64_finite (q := (r.val : ℚ) / 2 ^ 53 * (1 / 2))
    (by positivity) (by linarith) exact_half
  obtain ⟨j, hj, -, hj1⟩ := round64_finite (q := 1 / 2 + a) (by linarith) (by linarith) exact_one
  refine ⟨j, ?_, round64_mono (by linarith) exact_half hj, hj1⟩
  show (Float64.finite (1 / 2)).add (round64 ((r.val : ℚ) / 2 ^ 53 * (1 / 2))) = .finite j
  rw [ha]
  exact hj

/-- **A delay** lies between half of the capped delay and all of it. -/
theorem Proper.delayFor {d : ExponentialDelay} {top : Int} (h : d.Proper top) {attempts : Int}
    (h₁ : 1 ≤ attempts) (ha : attempts ≤ 1024) (r : Fin (2 ^ 53)) :
    ∃ c cap half e, d.capped attempts = .ok (.finite c) ∧ d.cap = .finite cap ∧ c ≤ cap ∧
      Float64.mul (.finite c) (.finite (1 / 2)) = .finite half ∧ 0 ≤ half ∧
      d.delayFor attempts r = .ok (.finite e) ∧ half ≤ e ∧ e ≤ c := by
  obtain ⟨c, cap, hc, hexact, hc0, hcap, hle⟩ := h.capped ha
  obtain ⟨half, hhalf, hhalf0, hhalf1⟩ := round64_finite (q := c * (1 / 2)) (by positivity)
    (by linarith) hexact
  refine ⟨c, cap, half, ?_⟩
  rw [ExponentialDelay.delayFor, if_neg (not_lt.2 h₁), hc]
  by_cases hj : d.useJitter = true
  · obtain ⟨j, hjit, hj0, hj1⟩ := jitter_between r
    obtain ⟨e, he, -, he1⟩ := round64_finite (q := c * j) (by nlinarith) (by nlinarith) hexact
    refine ⟨e, rfl, hcap, hle, hhalf, hhalf0, ?_, ?_, he1⟩
    · rw [hj, hjit]
      exact congrArg Except.ok he
    · exact round64_mono (by nlinarith) hhalf he
  · refine ⟨c, rfl, hcap, hle, hhalf, hhalf0, ?_, hhalf1, le_refl _⟩
    rw [Bool.not_eq_true] at hj
    rw [hj]
    rfl

theorem min_le {x y : Float64} {q top : ℚ} (h : x.min y = .finite q) (hy : y = .finite top) :
    q ≤ top := by
  subst hy
  unfold Float64.min at h
  split at h
  · cases h
    exact le_refl _
  · rename_i hlt
    subst h
    simpa [Float64.lt] using hlt

theorem mul_jitter_le {c : Float64} {e top : ℚ} (bits : Fin (2 ^ 53))
    (h : c.mul (jitter bits) = .finite e) (htop : Exact top) (h₀ : 0 ≤ top)
    (hc : ∀ q, c = .finite q → q ≤ top) : e ≤ top := by
  obtain ⟨j, hj, hlo, hhi⟩ := jitter_between bits
  rw [hj] at h
  cases c with
  | finite q =>
    have hq := hc q rfl
    have hprod : q * j ≤ top := by
      by_cases hneg : q < 0
      · nlinarith
      · nlinarith
    exact round64_mono hprod h htop
  | inf neg =>
    have hj0 : j ≠ 0 := by linarith
    simp only [Float64.mul, if_neg hj0] at h
    cases h
  | nan => cases h

/-- **A delay is never longer than the cap**, whatever it starts from. -/
theorem Waits.le_longest {d : ExponentialDelay} {attempts micros : Int}
    (h : d.Waits attempts micros) (hcap : NonNegative d.cap) : micros ≤ longest d.cap := by
  obtain ⟨bits, delay, hdelay, hmicros⟩ := h
  have hfinite : ∃ q, delay = .finite q := by
    cases delay with
    | finite q => exact ⟨q, rfl⟩
    | inf neg => cases hmicros
    | nan => cases hmicros
  obtain ⟨q, rfl⟩ := hfinite
  refine duration_le_longest hcap (fun top htop => ?_) hmicros
  obtain ⟨hexact, h₀⟩ : Exact top ∧ 0 ≤ top := by
    rcases hcap with hinf | ⟨c, hc, hexact, h₀⟩
    · rw [hinf] at htop
      cases htop
    · rw [hc] at htop
      cases htop
      exact ⟨hexact, h₀⟩
  unfold ExponentialDelay.delayFor at hdelay
  split at hdelay
  · cases hdelay
    exact h₀
  · cases hc : d.capped attempts with
    | error e =>
      rw [hc] at hdelay
      cases hdelay
    | ok c =>
      have hle : ∀ q, c = .finite q → q ≤ top := by
        rintro q rfl
        unfold ExponentialDelay.capped at hc
        split at hc
        · exact min_le (Except.ok.inj hc) htop
        · cases hc
      have hrest :
          (if !d.useJitter then (.ok c : Except Exc Float64) else .ok (c.mul (jitter bits))) =
          .ok (.finite q) := by
        rw [hc] at hdelay
        exact hdelay
      split at hrest
      · exact hle q (Except.ok.inj hrest)
      · exact mul_jitter_le bits (Except.ok.inj hrest) hexact h₀ hle

end ExponentialDelay

/-! ## The retries of a message -/

/-- One second, doubled up to four. -/
theorem capped_default {attempts : Int} (ha : attempts ≤ 1024) :
    RetryPolicy.default.delay.capped attempts =
      .ok (.finite ((2 ^ (attempts - 1).toNat : ℚ) ⊓ 4)) := by
  have hk : (attempts - 1).toNat ≤ 1023 := by omega
  have hmin := ExponentialDelay.min_mul_two_pow exact_one (le_refl 1) exact_four (attempts - 1).toNat
  rw [one_mul] at hmin
  rw [ExponentialDelay.capped, Float64.mulInt?, ExponentialDelay.ofInt?_two_pow hk,
    Option.map_some]
  exact congrArg Except.ok hmin

/-- **The delay of a retry** in whole seconds. -/
theorem computeDelaySeconds_default {maxAttempts count : Int} (h : count ≤ 1022)
    (bits : Fin (2 ^ 53)) :
    RetryPolicy.computeDelaySeconds { RetryPolicy.default with maxAttempts := maxAttempts } count
      bits = .ok (2 ^ (count ⊔ 0).toNat ⊓ 4) := by
  have hk : (count ⊔ 0 + 1 - 1).toNat = (count ⊔ 0).toNat := by omega
  have hdelay : RetryPolicy.default.delay.delayFor (count ⊔ 0 + 1) bits =
      .ok (.finite ((2 ^ (count ⊔ 0).toNat : ℚ) ⊓ 4)) := by
    rw [ExponentialDelay.delayFor, if_neg (by omega), capped_default (by omega), hk]
    rfl
  have hpos : (0 : ℚ) ≤ 2 ^ (count ⊔ 0).toNat ⊓ 4 := le_min (by positivity) (by norm_num)
  have hfloor : ⌊(2 ^ (count ⊔ 0).toNat ⊓ 4 : ℚ)⌋ = 2 ^ (count ⊔ 0).toNat ⊓ 4 := by
    have hcast : (2 ^ (count ⊔ 0).toNat ⊓ 4 : ℚ) = ((2 ^ (count ⊔ 0).toNat ⊓ 4 : ℤ) : ℚ) := by
      push_cast
      rfl
    rw [hcast, Int.floor_intCast]
  have hone : (1 : ℤ) ≤ 2 ^ (count ⊔ 0).toNat ⊓ 4 :=
    le_min (one_le_pow₀ (by norm_num)) (by norm_num)
  show (RetryPolicy.default.delay.delayFor (count ⊔ 0 + 1) bits >>= fun delay =>
    RetryPolicy.intOfFloat delay >>= fun seconds => .ok (1 ⊔ seconds)) = _
  rw [hdelay]
  show Except.ok (1 ⊔ _) = _
  rw [if_pos hpos, hfloor, max_eq_right hone]

end PaymentProcessing
