import Mathlib.Tactic.Linarith
import Mathlib.Tactic.NormNum
import Mathlib.Tactic.Ring
import Mathlib.Algebra.Order.Field.Power
import PaymentProcessing.Infrastructure.Models

/-!
# The limits on amounts agree

The request schema limits the digits of an amount, `Money` its exponent, `quantize` its precision
and the column its precision and scale. An amount the schema admits passes the other three
unchanged, unless it is written with more than two decimal places.
-/

namespace PaymentProcessing

open Python

/-- What `Field(gt=0, max_digits=12, decimal_places=2)` admits: a positive number with at most ten
integer digits and no third decimal place, however it is written. -/
structure Admitted (d : Decimal) : Prop where
  positive : 0 < d.value
  integerDigits : d.value < 10 ^ 10
  places : ∃ n : ℕ, d.value * 100 = n

/-- `amount.as_tuple().exponent` of a finite decimal. -/
def exponentOf : Decimal → Int
  | .finite _ _ x => x
  | _ => 0

/-- What a column `Numeric(precision, scale)` stores: rounded half away from zero to the scale;
`none` where the database rejects it. -/
def numericColumn (precision scale : Nat) : Decimal → Option Decimal
  | .finite neg c x =>
    let k := (-scale - x).toNat
    let c' := if -(scale : Int) ≤ x then c * 10 ^ (x + scale).toNat
      else (2 * c + 10 ^ k) / (2 * 10 ^ k)
    if c' < 10 ^ precision then some (.finite neg c' (-scale)) else none
  | _ => none

/-- The tuple whose hash is the hash of the money. -/
def Money.hashed (m : Money) : Decimal × Currency := (m.amount, m.currency)

theorem Admitted.finite {d : Decimal} (h : Admitted d) :
    ∃ c x, d = .finite false c x ∧ c ≠ 0 ∧ (c : ℚ) * 10 ^ x = d.value := by
  have hpos := h.positive
  cases d with
  | infinite neg => exact absurd hpos (lt_irrefl _)
  | nan => exact absurd hpos (lt_irrefl _)
  | finite neg c x =>
    have hten : (0 : ℚ) < 10 ^ x := zpow_pos (by norm_num) x
    have hc : (0 : ℚ) ≤ c := Nat.cast_nonneg c
    cases neg with
    | true =>
      simp only [Decimal.value, if_true] at hpos
      nlinarith [mul_nonneg hc hten.le]
    | false =>
      refine ⟨c, x, rfl, ?_, ?_⟩
      · rintro rfl
        simp [Decimal.value] at hpos
      · simp [Decimal.value]

theorem value_hundredths (c : ℕ) : (Decimal.finite false c (-2)).value * 100 = c := by
  simp only [Decimal.value, Bool.false_eq_true, if_false, one_mul]
  rw [zpow_neg]
  norm_num
  ring

/-- The coefficient at two decimal places, where none are lost. -/
theorem rescale_value {c : ℕ} {x : ℤ} (hx : -2 ≤ x) :
    ((Decimal.rescale c x (-2) : ℕ) : ℚ) = (Decimal.finite false c x).value * 100 := by
  obtain ⟨k, hk⟩ := Int.eq_ofNat_of_zero_le (show 0 ≤ x - -2 by omega)
  have hx' : x = (k : ℤ) + -2 := by omega
  unfold Decimal.rescale
  rw [if_pos hx, hk, Int.toNat_natCast]
  push_cast
  simp only [Decimal.value, Bool.false_eq_true, if_false, one_mul]
  rw [hx', zpow_add₀ (by norm_num : (10 : ℚ) ≠ 0), zpow_natCast, zpow_neg]
  norm_num
  ring

theorem Admitted.rescale_lt {c : ℕ} {x : ℤ} (h : Admitted (.finite false c x)) (hx : -2 ≤ x) :
    Decimal.rescale c x (-2) < 10 ^ 12 := by
  have hv := rescale_value (c := c) hx
  have hlt := h.integerDigits
  have hq : ((Decimal.rescale c x (-2) : ℕ) : ℚ) < ((10 ^ 12 : ℕ) : ℚ) := by
    rw [hv]
    push_cast
    linarith
  exact_mod_cast hq

theorem new_admitted {d : Decimal} (h : Admitted d) {currency : Currency ⊕ String} {cur : Currency}
    (hcur : Currency.parse currency = .ok cur) :
    (exponentOf d < -2 ∧ Money.new d currency =
      .error (.invalidMoney "amount scale must be at most 2")) ∨
    (-2 ≤ exponentOf d ∧ ∃ m c, Money.new d currency = .ok m ∧ m.currency = cur ∧
      m.amount = .finite false c (-2) ∧ c < 10 ^ 12 ∧ m.amount.value = d.value ∧
      Decimal.quantize d quantExponent = some m.amount) := by
  obtain ⟨c, x, rfl, hc, -⟩ := h.finite
  by_cases hx : x < -2
  · refine .inl ⟨hx, ?_⟩
    simp [Money.new, hc, hx]
  · have hx' : -2 ≤ x := by omega
    have hlt := h.rescale_lt hx'
    have hprec : Decimal.rescale c x quantExponent < 10 ^ Decimal.prec :=
      lt_trans hlt (by decide)
    refine .inr ⟨hx', ⟨_, _, _, Decimal.rescale_pos (Nat.pos_of_ne_zero hc) hx', hprec, rfl⟩,
      Decimal.rescale c x (-2), ?_, rfl, rfl, hlt, ?_, ?_⟩
    · simp only [Money.new, hc, or_self, hx, hprec, hcur, dif_pos, dif_neg, not_false_eq_true,
        Bool.false_eq_true]
      rfl
    · have h₁ := value_hundredths (Decimal.rescale c x (-2))
      rw [rescale_value hx'] at h₁
      have h₂ : (100 : ℚ) ≠ 0 := by norm_num
      exact mul_right_cancel₀ h₂ h₁
    · rw [Decimal.quantize, if_pos hprec]
      rfl

theorem numericColumn_self {c : ℕ} (hc : c < 10 ^ 12) :
    numericColumn 12 2 (.finite false c (-2)) = some (.finite false c (-2)) := by
  simpa [numericColumn] using hc

/-- **The limits on amounts agree.** `Money` rejects an admitted amount exactly when it is written
with more than two decimal places; otherwise it is that amount at two places, unrounded, it is
stored and read back as it is, and it depends on the value alone. -/
theorem amount_limits_agree {d : Decimal} (hd : Admitted d) {currency : Currency ⊕ String}
    {cur : Currency} (hcur : Currency.parse currency = .ok cur) :
    ((∃ message, Money.new d currency = .error (.invalidMoney message)) ∨
      ∃ m, Money.new d currency = .ok m) ∧
    ((∃ message, Money.new d currency = .error (.invalidMoney message)) ↔ exponentOf d < -2) ∧
    ∀ m, Money.new d currency = .ok m →
      m.currency = cur ∧ exponentOf m.amount = -2 ∧ m.amount.value = d.value ∧
      Decimal.quantize d quantExponent = some m.amount ∧
      numericColumn 12 2 m.amount = some m.amount ∧
      (∀ p : Payment, p.money = m → ∀ stored,
        numericColumn 12 2 (PaymentMapper.toModel p).amount = some stored →
          PaymentMapper.toDomain { PaymentMapper.toModel p with amount := stored } = .ok p ∧
          stored.str = m.amount.str) ∧
      ∀ d', Admitted d' → d'.value = d.value → ∀ m', Money.new d' currency = .ok m' →
        m'.eq m = true ∧ m'.hashed = m.hashed := by
  have hcases := new_admitted hd hcur
  refine ⟨?_, ⟨?_, ?_⟩, ?_⟩
  · rcases hcases with ⟨-, h⟩ | ⟨-, m, c, h, -⟩
    · exact .inl ⟨_, h⟩
    · exact .inr ⟨m, h⟩
  · rintro ⟨message, herr⟩
    rcases hcases with ⟨hx, -⟩ | ⟨-, m, c, h, -⟩
    · exact hx
    · rw [h] at herr
      cases herr
  · intro hx
    rcases hcases with ⟨-, h⟩ | ⟨hx', -⟩
    · exact ⟨_, h⟩
    · omega
  · intro m hm
    rcases hcases with ⟨-, h⟩ | ⟨hx, m₁, c, h, hmc, hamount, hc, hval, hquant⟩
    · rw [h] at hm
      cases hm
    · rw [h] at hm
      cases hm
      have hcol : numericColumn 12 2 m.amount = some m.amount := by
        rw [hamount]
        exact numericColumn_self hc
      refine ⟨hmc, by rw [hamount]; rfl, hval, hquant, hcol, ?_, ?_⟩
      · intro p hp stored hstored
        have hst : stored = m.amount := by
          have hrow : (PaymentMapper.toModel p).amount = m.amount := by
            rw [PaymentMapper.toModel, hp]
          rw [hrow, hcol] at hstored
          exact (Option.some.inj hstored).symm
        subst hst
        refine ⟨?_, rfl⟩
        have hsame : { PaymentMapper.toModel p with amount := m.amount } =
            PaymentMapper.toModel p := by
          rw [PaymentMapper.toModel, hp]
        rw [hsame, PaymentMapper.toDomain_toModel]
      · intro d' hd' hvalue m' hm'
        rcases new_admitted hd' hcur with ⟨-, h'⟩ | ⟨-, m₂, c', h', hmc', hamount', -, hval', -⟩
        · rw [h'] at hm'
          cases hm'
        · rw [h'] at hm'
          cases hm'
          have hcc : c' = c := by
            have h₁ := value_hundredths c
            have h₂ := value_hundredths c'
            rw [← hamount, hval, ← hvalue, ← hval', hamount', h₂] at h₁
            exact_mod_cast h₁
          have hmm : m' = m := Money.ext (by rw [hamount, hamount', hcc]) (hmc'.trans hmc.symm)
          rw [hmm]
          exact ⟨Money.eq_self m, rfl⟩

/-- `1E+1` is an admitted spelling of ten. -/
theorem amount_limits_agree_sample : ∃ m, Money.new (.finite false 1 1) (.inr "EUR") = .ok m ∧
    exponentOf m.amount = -2 ∧ m.amount.value = 10 := by
  have hd : Admitted (.finite false 1 1) := by
    have hv : (Decimal.finite false 1 1).value = 10 := by norm_num [Decimal.value]
    refine ⟨by rw [hv]; norm_num, by rw [hv]; norm_num, 1000, by rw [hv]; norm_num⟩
  have h := amount_limits_agree hd (rfl : Currency.parse (.inr "EUR") = .ok .eur)
  rcases h.1 with ⟨message, herr⟩ | ⟨m, hm⟩
  · exact absurd (h.2.1.1 ⟨message, herr⟩) (by decide)
  · refine ⟨m, hm, (h.2.2 m hm).2.1, ?_⟩
    rw [(h.2.2 m hm).2.2.1]
    norm_num [Decimal.value]

end PaymentProcessing
