import PaymentProcessing.Domain.Exceptions
import PaymentProcessing.Python.Decimal

/-!
# Money (`domain/money.py`)

An amount of money is positive, has exactly two decimal places and fits the decimal context; the
structure carries this, so `Money.new` is the only way to one, as in the source.
-/

namespace PaymentProcessing

open Python

/-- `Currency`. -/
inductive Currency where
  | rub
  | usd
  | eur
deriving DecidableEq, Repr

namespace Currency

/-- `currency.value`. -/
def value : Currency → String
  | .rub => "RUB"
  | .usd => "USD"
  | .eur => "EUR"

/-- `Currency(text)`, which raises `ValueError`. -/
def ofValue (text : String) : Except Exc Currency :=
  if text = "RUB" then .ok .rub
  else if text = "USD" then .ok .usd
  else if text = "EUR" then .ok .eur
  else .error (.valueError (strRepr text ++ " is not a valid Currency"))

/-- `Currency.parse`. -/
def parse : Currency ⊕ String → Except Exc Currency
  | .inl currency => .ok currency
  | .inr text =>
    match ofValue text with
    | .ok currency => .ok currency
    | .error _ => .error (.invalidCurrency ("unsupported currency: " ++ text))

@[simp] theorem ofValue_value (c : Currency) : ofValue c.value = .ok c := by
  cases c <;> decide

@[simp] theorem parse_inl (c : Currency) : parse (.inl c) = .ok c := rfl

end Currency

/-- `_QUANT`, the exponent of `Decimal("0.01")`. -/
def quantExponent : Int := -2

/-- `Money`. -/
structure Money where
  amount : Decimal
  currency : Currency
  wf : ∃ c, 0 < c ∧ c < 10 ^ Decimal.prec ∧ amount = .finite false c quantExponent

namespace Money

/-- `Money.__init__`, for an amount that is a `Decimal`. -/
def new (amount : Decimal) (currency : Currency ⊕ String) : Except Exc Money :=
  match amount with
  | .infinite _ | .nan => .error (.invalidMoney "amount must be finite")
  | .finite neg c x =>
    if h0 : neg = true ∨ c = 0 then .error (.invalidMoney "amount must be greater than zero")
    else if hx : x < -2 then .error (.invalidMoney "amount scale must be at most 2")
    else if hq : Decimal.rescale c x quantExponent < 10 ^ Decimal.prec then
      match Currency.parse currency with
      | .error e => .error e
      | .ok parsed =>
        .ok ⟨.finite false (Decimal.rescale c x quantExponent) quantExponent, parsed, _,
          Decimal.rescale_pos (by omega) (by unfold quantExponent; omega), hq, rfl⟩
    else .error .invalidOperation

/-- `a == b`. -/
def eq (a b : Money) : Bool := a.amount.eq b.amount && a.currency = b.currency

@[ext] theorem ext {a b : Money} (h₁ : a.amount = b.amount) (h₂ : a.currency = b.currency) :
    a = b := by
  cases a
  cases b
  cases h₁
  cases h₂
  rfl

@[simp] theorem eq_self (a : Money) : a.eq a = true := by
  obtain ⟨amount, currency, c, -, -, rfl⟩ := a
  simp [eq]

/-- **An amount of money read back gives the same money**: quantizing again changes nothing. -/
@[simp] theorem new_amount (a : Money) : new a.amount (.inl a.currency) = .ok a := by
  obtain ⟨amount, currency, c, hc, hlt, rfl⟩ := a
  have hx : ¬ quantExponent < -2 := by decide
  simp [new, hc.ne', hx, hlt]

end Money

end PaymentProcessing
