import Mathlib.Data.Rat.Defs
import Mathlib.Data.Nat.Digits.Defs
import Mathlib.Tactic.Common

/-!
# `decimal.Decimal`

A decimal is a sign, a coefficient and an exponent, or one of the special values; the same number
has many representations (`10`, `10.0`, `1E+1`). `quantize` gives the representation with a fixed
exponent, rounding half to even, and fails when the coefficient would not fit the precision of the
default context, 28 digits. `str` is the text of a decimal.
-/

namespace Python

/-- A decimal number or a special value. -/
inductive Decimal where
  | finite (negative : Bool) (coefficient : Nat) (exponent : Int)
  | infinite (negative : Bool)
  | nan
deriving DecidableEq, Repr

namespace Decimal

/-- The precision of the default context. -/
def prec : Nat := 28

/-- `int(decimal)` of a number: what is after the point is dropped. -/
def truncate (negative : Bool) (coefficient : Nat) (exponent : Int) : Int :=
  let n : Nat :=
    if 0 ≤ exponent then coefficient * 10 ^ exponent.toNat
    else coefficient / 10 ^ (-exponent).toNat
  if negative then -(n : Int) else n

/-- `n / d` rounded to an integer, ties to even. -/
def divHalfEven (n d : Nat) : Nat :=
  let q := n / d
  let r := n % d
  if 2 * r < d then q else if d < 2 * r then q + 1 else if q % 2 = 0 then q else q + 1

/-- The coefficient that `coefficient * 10 ^ exponent` has at the exponent `e`, rounded half to
even. -/
def rescale (coefficient : Nat) (exponent e : Int) : Nat :=
  if e ≤ exponent then coefficient * 10 ^ (exponent - e).toNat
  else divHalfEven coefficient (10 ^ (e - exponent).toNat)

theorem rescale_pos {c : Nat} {x e : Int} (hc : 0 < c) (hx : e ≤ x) : 0 < rescale c x e := by
  unfold rescale
  rw [if_pos hx]
  exact Nat.mul_pos hc (Nat.pow_pos (by decide))

@[simp] theorem rescale_self (c : Nat) (e : Int) : rescale c e e = c := by
  simp [rescale]

/-- `decimal.quantize` to the exponent `e`; `none` where it raises `InvalidOperation`. -/
def quantize (d : Decimal) (e : Int) : Option Decimal :=
  match d with
  | .finite neg c x =>
    if rescale c x e < 10 ^ prec then some (.finite neg (rescale c x e) e) else none
  | _ => none

/-- The numeric value of a finite decimal. -/
def value : Decimal → ℚ
  | .finite neg c x => (if neg then -1 else 1) * c * (10 : ℚ) ^ x
  | _ => 0

/-- `a == b`: finite decimals compare by value. -/
def eq (a b : Decimal) : Bool :=
  match a, b with
  | .finite .., .finite .. => a.value = b.value
  | .infinite s, .infinite t => s = t
  | _, _ => false

@[simp] theorem eq_self_finite (neg : Bool) (c : Nat) (x : Int) :
    eq (.finite neg c x) (.finite neg c x) = true := by
  simp [eq]

/-- `str(decimal)`. -/
def str : Decimal → String
  | .finite neg c x =>
    let digits := Nat.toDigits 10 c
    let n : Int := digits.length
    let left := x + n
    let sign := if neg then ['-'] else []
    if x ≤ 0 ∧ -6 < left then
      String.ofList (sign ++ place digits left)
    else
      String.ofList (sign ++ place digits 1 ++ exponent (left - 1))
  | .infinite neg => if neg then "-Infinity" else "Infinity"
  | .nan => "NaN"
where
  /-- The digits with the decimal point after the first `dot` of them. -/
  place (digits : List Char) (dot : Int) : List Char :=
    if dot ≤ 0 then '0' :: '.' :: (List.replicate (-dot).toNat '0' ++ digits)
    else if (digits.length : Int) ≤ dot then
      digits ++ List.replicate (dot - digits.length).toNat '0'
    else digits.take dot.toNat ++ '.' :: digits.drop dot.toNat
  /-- The exponent of the scientific notation; none for zero. -/
  exponent (e : Int) : List Char :=
    if e = 0 then []
    else 'E' :: (if e < 0 then '-' else '+') :: Nat.toDigits 10 e.natAbs

end Decimal

end Python
