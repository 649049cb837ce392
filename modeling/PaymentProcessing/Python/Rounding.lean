import Mathlib.Algebra.Order.Floor.Ring
import Mathlib.Tactic.Positivity
import Mathlib.Tactic.Linarith
import PaymentProcessing.Python.Float64

/-!
# Rounding is monotone

`roundHalfEven` and `round64` keep the order, and what is a float stays as it is. So a result is
compared with a float by comparing before rounding: no bound here says anything about the error.
-/

namespace Python

/-! ## To integers -/

theorem floor_le_roundHalfEven (q : ℚ) : ⌊q⌋ ≤ roundHalfEven q := by
  unfold roundHalfEven
  dsimp only
  split_ifs <;> omega

theorem roundHalfEven_le (q : ℚ) : roundHalfEven q ≤ ⌊q⌋ + 1 := by
  unfold roundHalfEven
  dsimp only
  split_ifs <;> omega

@[simp] theorem roundHalfEven_intCast (n : ℤ) : roundHalfEven n = n := by
  simp [roundHalfEven]

theorem roundHalfEven_mono {x y : ℚ} (h : x ≤ y) : roundHalfEven x ≤ roundHalfEven y := by
  rcases (Int.floor_mono h).lt_or_eq with hlt | heq
  · calc roundHalfEven x ≤ ⌊x⌋ + 1 := roundHalfEven_le x
      _ ≤ ⌊y⌋ := hlt
      _ ≤ roundHalfEven y := floor_le_roundHalfEven y
  · -- between the same two integers
    have hd : x - ⌊x⌋ ≤ y - ⌊y⌋ := by
      rw [heq]
      linarith
    unfold roundHalfEven
    rw [heq] at hd ⊢
    dsimp only
    split_ifs
    all_goals first | omega | (exfalso; linarith)

theorem roundHalfEven_le_of_le {q : ℚ} {n : ℤ} (h : q ≤ n) : roundHalfEven q ≤ n := by
  rw [← roundHalfEven_intCast n]
  exact roundHalfEven_mono h

theorem roundHalfEven_nonneg {q : ℚ} (h : 0 ≤ q) : 0 ≤ roundHalfEven q :=
  le_trans (Int.floor_nonneg.2 h) (floor_le_roundHalfEven q)

namespace Float64

/-! ## To multiples of the spacing -/

theorem ulp_pos (q : ℚ) : 0 < ulp q := zpow_pos (by norm_num) _

theorem nearest_nonneg {q : ℚ} (h : 0 ≤ q) : 0 ≤ nearest q :=
  mul_nonneg (by exact_mod_cast roundHalfEven_nonneg (div_nonneg h (ulp_pos q).le)) (ulp_pos q).le

theorem nearest_of_multiple {q : ℚ} {n : ℤ} (h : q = n * ulp q) : nearest q = q := by
  have hdiv : q / ulp q = n := by
    rw [div_eq_iff (ulp_pos q).ne']
    exact h
  rw [nearest, hdiv, roundHalfEven_intCast, ← h]

theorem nearest_le {q b : ℚ} {n : ℤ} (hb : b = n * ulp q) (h : q ≤ b) : nearest q ≤ b := by
  have hle : roundHalfEven (q / ulp q) ≤ n := by
    rw [← roundHalfEven_intCast n]
    refine roundHalfEven_mono ?_
    rw [div_le_iff₀ (ulp_pos q), ← hb]
    exact h
  rw [hb, nearest]
  exact mul_le_mul_of_nonneg_right (by exact_mod_cast hle) (ulp_pos q).le

theorem le_nearest {q b : ℚ} {n : ℤ} (hb : b = n * ulp q) (h : b ≤ q) : b ≤ nearest q := by
  have hle : n ≤ roundHalfEven (q / ulp q) := by
    rw [← roundHalfEven_intCast n]
    refine roundHalfEven_mono ?_
    rw [le_div_iff₀ (ulp_pos q), ← hb]
    exact h
  rw [hb, nearest]
  exact mul_le_mul_of_nonneg_right (by exact_mod_cast hle) (ulp_pos q).le

theorem two_zpow_multiple {e k : ℤ} (h : k ≤ e) : ∃ n : ℤ, (2 : ℚ) ^ e = n * 2 ^ k := by
  refine ⟨2 ^ (e - k).toNat, ?_⟩
  have hcast : ((2 ^ (e - k).toNat : ℤ) : ℚ) = 2 ^ (e - k) := by
    rw [Int.cast_pow, Int.cast_ofNat, ← zpow_natCast, Int.toNat_of_nonneg (by omega)]
  rw [hcast, ← zpow_add₀ (by norm_num)]
  congr 1
  omega

theorem nearest_mono {x y : ℚ} (hx : 0 < x) (h : x ≤ y) : nearest x ≤ nearest y := by
  have hlog : Int.log 2 x ≤ Int.log 2 y := Int.log_mono_right hx h
  by_cases hulp : ulp x = ulp y
  · rw [nearest, nearest, hulp]
    refine mul_le_mul_of_nonneg_right ?_ (ulp_pos y).le
    exact_mod_cast roundHalfEven_mono (div_le_div_of_nonneg_right h (ulp_pos y).le)
  · -- the power of two at the lower end of the binade of `y` lies between
    have hexp : (Int.log 2 x - 52) ⊔ (-1074) ≠ (Int.log 2 y - 52) ⊔ (-1074) := by
      intro he
      exact hulp (by rw [ulp, ulp, he])
    have hy : 0 < y := lt_of_lt_of_le hx h
    have hxe : x ≤ 2 ^ Int.log 2 y := by
      refine (Int.lt_zpow_succ_log_self (by norm_num : 1 < 2) x).le.trans ?_
      exact zpow_le_zpow_right₀ (by norm_num) (by omega)
    have hye : (2 : ℚ) ^ Int.log 2 y ≤ y := by
      exact_mod_cast Int.zpow_log_le_self (by norm_num : 1 < 2) hy
    obtain ⟨n, hn⟩ := two_zpow_multiple (e := Int.log 2 y)
      (k := (Int.log 2 x - 52) ⊔ (-1074)) (by omega)
    obtain ⟨m, hm⟩ := two_zpow_multiple (e := Int.log 2 y)
      (k := (Int.log 2 y - 52) ⊔ (-1074)) (by omega)
    exact (nearest_le hn hxe).trans (le_nearest hm hye)

/-! ## To floats -/

/-- The rational number is the value of a float. -/
def Exact (q : ℚ) : Prop := round64 q = .finite q

theorem exact_zero : Exact 0 := by simp [Exact, round64]

/-- A positive multiple of its spacing that does not overflow is a float. -/
theorem exact_of_multiple {q : ℚ} {n : ℤ} (hpos : 0 < q) (h : q = n * ulp q) (hlt : q < overflow) :
    Exact q := by
  rw [Exact, round64, if_neg hpos.ne', if_pos hpos, nearest_of_multiple h, if_pos hlt]

theorem log_two_zpow (e : ℤ) : Int.log 2 ((2 : ℚ) ^ e) = e := by
  exact_mod_cast Int.log_zpow (R := ℚ) (by norm_num : 1 < 2) e

theorem exact_two_zpow {e : ℤ} (h : -1074 ≤ e) (h' : e ≤ 1023) : Exact ((2 : ℚ) ^ e) := by
  obtain ⟨n, hn⟩ := two_zpow_multiple (e := e) (k := (e - 52) ⊔ (-1074)) (by omega)
  refine exact_of_multiple (n := n) (zpow_pos (by norm_num) e) ?_ ?_
  · rw [ulp, log_two_zpow]
    exact hn
  · have hlt : (2 : ℚ) ^ e < 2 ^ (1024 : ℤ) := zpow_lt_zpow_right₀ (by norm_num) (by omega)
    exact hlt.trans_eq (zpow_natCast 2 1024)

theorem exact_two_pow {k : ℕ} (h : k ≤ 1023) : Exact (2 ^ k) := by
  rw [← zpow_natCast]
  exact exact_two_zpow (by omega) (by omega)

theorem exact_one : Exact 1 := exact_two_pow (k := 0) (by norm_num)

theorem exact_half : Exact (1 / 2) := by
  have h := exact_two_zpow (e := -1) (by norm_num) (by norm_num)
  rwa [zpow_neg_one, ← one_div] at h

/-- Integers of at most 53 bits are floats. -/
theorem exact_natCast {n : ℕ} (h : n < 2 ^ 53) : Exact n := by
  rcases Nat.eq_zero_or_pos n with rfl | hpos
  · exact_mod_cast exact_zero
  have hlog : Int.log 2 (n : ℚ) = Nat.log 2 n := by exact_mod_cast Int.log_natCast (R := ℚ) 2 n
  have hbits : Nat.log 2 n < 53 := Nat.log_lt_of_lt_pow hpos.ne' h
  have hulp : ulp n = 2 ^ ((Nat.log 2 n : ℤ) - 52) := by
    rw [ulp, hlog, max_eq_left (by omega)]
  refine exact_of_multiple (n := n * 2 ^ (52 - Nat.log 2 n)) (by exact_mod_cast hpos) ?_ ?_
  · rw [hulp]
    push_cast
    rw [mul_assoc, ← zpow_natCast, ← zpow_add₀ (by norm_num), Nat.cast_sub (by omega)]
    simp
  · calc (n : ℚ) < 2 ^ 53 := by exact_mod_cast h
      _ ≤ overflow := pow_le_pow_right₀ (by norm_num) (by norm_num)

theorem round64_of_overflow {q : ℚ} (h : overflow ≤ q) : round64 q = .inf false := by
  have hover : (0 : ℚ) < overflow := by
    unfold overflow
    positivity
  have hpos : 0 < q := lt_of_lt_of_le hover h
  have hfix : nearest overflow = overflow := by
    obtain ⟨n, hn⟩ := two_zpow_multiple (e := 1024) (k := ((1024 : ℤ) - 52) ⊔ (-1074)) (by norm_num)
    refine nearest_of_multiple (n := n) ?_
    have hz : overflow = (2 : ℚ) ^ (1024 : ℤ) := by
      rw [overflow]
      exact (zpow_natCast 2 1024).symm
    rw [ulp, hz, log_two_zpow]
    exact hn
  have hle : overflow ≤ nearest q := hfix ▸ nearest_mono hover h
  rw [round64, if_neg hpos.ne', if_pos hpos, if_neg (not_lt.2 hle)]

theorem eq_nearest {q a : ℚ} (h : 0 < q) (ha : round64 q = .finite a) : a = nearest q := by
  rw [round64, if_neg h.ne', if_pos h] at ha
  split_ifs at ha
  cases ha
  rfl

theorem eq_neg_nearest {q a : ℚ} (h : q < 0) (ha : round64 q = .finite a) : a = -nearest (-q) := by
  rw [round64, if_neg h.ne, if_neg (not_lt.2 h.le)] at ha
  split_ifs at ha
  cases ha
  rfl

theorem eq_zero {a : ℚ} (ha : round64 0 = .finite a) : a = 0 := by
  rw [exact_zero] at ha
  cases ha
  rfl

theorem round64_nonneg {q a : ℚ} (h : 0 ≤ q) (ha : round64 q = .finite a) : 0 ≤ a := by
  rcases h.eq_or_lt with rfl | hpos
  · rw [eq_zero ha]
  · rw [eq_nearest hpos ha]
    exact nearest_nonneg h

theorem round64_nonpos {q a : ℚ} (h : q ≤ 0) (ha : round64 q = .finite a) : a ≤ 0 := by
  rcases h.eq_or_lt with rfl | hneg
  · rw [eq_zero ha]
  · rw [eq_neg_nearest hneg ha]
    exact neg_nonpos.2 (nearest_nonneg (neg_nonneg.2 h))

/-- **Rounding to floats keeps the order.** -/
theorem round64_mono {x y a b : ℚ} (h : x ≤ y) (ha : round64 x = .finite a)
    (hb : round64 y = .finite b) : a ≤ b := by
  by_cases hx : 0 < x
  · rw [eq_nearest hx ha, eq_nearest (hx.trans_le h) hb]
    exact nearest_mono hx h
  · by_cases hy : y < 0
    · rw [eq_neg_nearest (h.trans_lt hy) ha, eq_neg_nearest hy hb]
      exact neg_le_neg (nearest_mono (neg_pos.2 hy) (neg_le_neg h))
    · exact (round64_nonpos (not_lt.1 hx) ha).trans (round64_nonneg (not_lt.1 hy) hb)

/-- The nearest multiple is a multiple of its own spacing. -/
theorem nearest_nearest {q : ℚ} (h : 0 < q) : nearest (nearest q) = nearest q := by
  have hlo : (2 : ℚ) ^ Int.log 2 q ≤ q := by
    exact_mod_cast Int.zpow_log_le_self (by norm_num : 1 < 2) h
  have hhi : q ≤ 2 ^ (Int.log 2 q + 1) := by
    exact_mod_cast (Int.lt_zpow_succ_log_self (by norm_num : 1 < 2) q).le
  have hmul : nearest q = (roundHalfEven (q / ulp q) : ℚ) * ulp q := rfl
  rcases (nearest_nonneg h.le).eq_or_lt with hzero | hpos
  · have hround : roundHalfEven 0 = 0 := by exact_mod_cast roundHalfEven_intCast 0
    rw [← hzero, nearest, zero_div, hround, Int.cast_zero, zero_mul]
  by_cases hsub : Int.log 2 q + 1 ≤ -1023
  · -- the spacing is the smallest one
    have hle : nearest q ≤ 2 ^ (-1023 : ℤ) := by
      obtain ⟨n, hn⟩ := two_zpow_multiple (e := -1023) (k := (Int.log 2 q - 52) ⊔ (-1074)) (by omega)
      exact nearest_le hn (hhi.trans (zpow_le_zpow_right₀ (by norm_num) hsub))
    have hlog : Int.log 2 (nearest q) ≤ -1023 := by
      have hmono := Int.log_mono_right (b := 2) hpos hle
      rwa [log_two_zpow] at hmono
    refine nearest_of_multiple (n := roundHalfEven (q / ulp q)) ?_
    have hulp : ulp (nearest q) = ulp q := by
      rw [ulp, ulp]
      congr 1
      omega
    rw [hulp]
    exact hmul
  · -- the nearest lies in the same binade or is its upper end
    have hge : (2 : ℚ) ^ (Int.log 2 q) ≤ nearest q := by
      obtain ⟨n, hn⟩ := two_zpow_multiple (e := Int.log 2 q)
        (k := (Int.log 2 q - 52) ⊔ (-1074)) (by omega)
      exact le_nearest hn hlo
    have hle : nearest q ≤ 2 ^ (Int.log 2 q + 1) := by
      obtain ⟨n, hn⟩ := two_zpow_multiple (e := Int.log 2 q + 1)
        (k := (Int.log 2 q - 52) ⊔ (-1074)) (by omega)
      exact nearest_le hn hhi
    have hlogge : Int.log 2 q ≤ Int.log 2 (nearest q) := by
      have hmono := Int.log_mono_right (b := 2) (zpow_pos (by norm_num) _) hge
      rwa [log_two_zpow] at hmono
    rcases hle.lt_or_eq with hlt | heq
    · have hlog : Int.log 2 (nearest q) < Int.log 2 q + 1 := by
        refine (Int.lt_zpow_iff_log_lt (by norm_num : 1 < 2) hpos).1 ?_
        exact_mod_cast hlt
      refine nearest_of_multiple (n := roundHalfEven (q / ulp q)) ?_
      have hulp : ulp (nearest q) = ulp q := by
        rw [ulp, ulp]
        congr 1
        omega
      rw [hulp]
      exact hmul
    · obtain ⟨n, hn⟩ := two_zpow_multiple (e := Int.log 2 q + 1)
        (k := (Int.log 2 q + 1 - 52) ⊔ (-1074)) (by omega)
      refine nearest_of_multiple (n := n) ?_
      rw [heq, ulp, log_two_zpow]
      exact hn

theorem round64_exact {q a : ℚ} (h : round64 q = .finite a) : Exact a := by
  unfold round64 at h
  split_ifs at h with h₀ hpos hlt hlt
  · cases h
    exact exact_zero
  · cases h
    rcases (nearest_nonneg hpos.le).eq_or_lt with hzero | hn
    · rw [← hzero]
      exact exact_zero
    · rw [Exact, round64, if_neg hn.ne', if_pos hn, nearest_nearest hpos, if_pos hlt]
  · cases h
    have hq : 0 < -q := neg_pos.2 (lt_of_le_of_ne (not_lt.1 hpos) h₀)
    rcases (nearest_nonneg hq.le).eq_or_lt with hzero | hn
    · rw [← hzero, neg_zero]
      exact exact_zero
    · rw [Exact, round64, if_neg (neg_ne_zero.2 hn.ne'), if_neg (by linarith), neg_neg,
        nearest_nearest hq, if_pos hlt]

theorem log_mul_two_zpow {q : ℚ} (h : 0 < q) (e : ℤ) : Int.log 2 (q * 2 ^ e) = Int.log 2 q + e := by
  have hlo : (2 : ℚ) ^ Int.log 2 q ≤ q := by
    exact_mod_cast Int.zpow_log_le_self (by norm_num : 1 < 2) h
  have hhi : q < 2 ^ (Int.log 2 q + 1) := by
    exact_mod_cast Int.lt_zpow_succ_log_self (by norm_num : 1 < 2) q
  have hpow : (0 : ℚ) < 2 ^ e := zpow_pos (by norm_num) e
  have hpos : 0 < q * 2 ^ e := mul_pos h hpow
  have hle : Int.log 2 q + e ≤ Int.log 2 (q * 2 ^ e) := by
    refine (Int.zpow_le_iff_le_log (by norm_num : 1 < 2) hpos).1 ?_
    rw [Nat.cast_ofNat, zpow_add₀ (by norm_num)]
    exact mul_le_mul_of_nonneg_right hlo hpow.le
  have hlt : Int.log 2 (q * 2 ^ e) < Int.log 2 q + 1 + e := by
    refine (Int.lt_zpow_iff_log_lt (by norm_num : 1 < 2) hpos).1 ?_
    rw [Nat.cast_ofNat, zpow_add₀ (by norm_num)]
    exact mul_lt_mul_of_pos_right hhi hpow
  omega

theorem log_two_nonneg {q : ℚ} (h : 1 ≤ q) : 0 ≤ Int.log 2 q := by
  have hlog : (2 : ℚ) ^ (0 : ℤ) ≤ q := by simpa using h
  exact (Int.zpow_le_iff_le_log (by norm_num : 1 < 2) (by linarith)).1 (by exact_mod_cast hlog)

/-- A float times a power of two is a float, if neither is subnormal and it does not overflow. -/
theorem Exact.mul_two_zpow {q : ℚ} {e : ℤ} (h : Exact q) (hpos : 0 < q)
    (hq : -1022 ≤ Int.log 2 q) (he : -1022 ≤ Int.log 2 q + e) (hlt : q * 2 ^ e < overflow) :
    Exact (q * 2 ^ e) := by
  have hmul : q = roundHalfEven (q / ulp q) * ulp q := eq_nearest hpos h
  have hulp : ulp (q * 2 ^ e) = ulp q * 2 ^ e := by
    rw [ulp, ulp, log_mul_two_zpow hpos, max_eq_left (by omega), max_eq_left (by omega),
      ← zpow_add₀ (by norm_num)]
    congr 1
    omega
  refine exact_of_multiple (n := roundHalfEven (q / ulp q)) (mul_pos hpos (zpow_pos (by norm_num) e))
    ?_ hlt
  rw [hulp, ← mul_assoc, ← hmul]

theorem Exact.lt_overflow {q : ℚ} (h : Exact q) (hpos : 0 < q) : q < overflow := by
  have heq : q = nearest q := eq_nearest hpos h
  rw [Exact, round64, if_neg hpos.ne', if_pos hpos] at h
  split_ifs at h with hlt
  rw [heq]
  exact hlt

/-- What lies between floats rounds to a float. -/
theorem round64_finite {q b : ℚ} (h₀ : 0 ≤ q) (h : q ≤ b) (hb : Exact b) :
    ∃ a, round64 q = .finite a ∧ 0 ≤ a ∧ a ≤ b := by
  rcases h₀.eq_or_lt with rfl | hpos
  · exact ⟨0, exact_zero, le_refl _, h⟩
  · have hbpos : 0 < b := lt_of_lt_of_le hpos h
    have hnear : nearest b < overflow := by
      by_contra hlt
      rw [Exact, round64, if_neg hbpos.ne', if_pos hbpos, if_neg hlt] at hb
      cases hb
    have hq : round64 q = .finite (nearest q) := by
      rw [round64, if_neg hpos.ne', if_pos hpos,
        if_pos (lt_of_le_of_lt (nearest_mono hpos h) hnear)]
    exact ⟨_, hq, nearest_nonneg h₀, round64_mono h hq hb⟩

end Float64

end Python
