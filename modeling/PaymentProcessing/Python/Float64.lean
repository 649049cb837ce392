import Mathlib.Data.Int.Log
import Mathlib.Data.Rat.Floor
import Mathlib.Algebra.Order.Field.Power

/-!
# Python floats

A Python float is an IEEE 754 binary64 number: a finite value, an infinity or NaN (the sign of zero
is not modelled, no operation here depends on it). A finite value is its rational number; `round64`
is round-to-nearest, ties to even, with 53 bits of precision, gradual underflow and overflow to an
infinity. Arithmetic is exact arithmetic followed by `round64`.

Converting an integer to a float rounds too, but where the result would overflow Python raises
`OverflowError` (`ofInt?`).
-/

namespace Python

/-- `q` rounded to an integer, ties to even. -/
def roundHalfEven (q : ℚ) : ℤ :=
  let f := ⌊q⌋
  let d := q - f
  if d < 1 / 2 then f else if 1 / 2 < d then f + 1 else if f % 2 = 0 then f else f + 1

/-- A Python float. -/
inductive Float64 where
  | finite (q : ℚ)
  | inf (negative : Bool)
  | nan
deriving DecidableEq

namespace Float64

/-- The spacing of the floats around the positive number `q`. -/
def ulp (q : ℚ) : ℚ := (2 : ℚ) ^ max (Int.log 2 q - 52) (-1074)

/-- The positive number `q` rounded to a multiple of its spacing. -/
def nearest (q : ℚ) : ℚ := roundHalfEven (q / ulp q) * ulp q

/-- The first power of two that is not a float. -/
def overflow : ℚ := 2 ^ 1024

/-- `q` rounded to a float. -/
def round64 (q : ℚ) : Float64 :=
  if q = 0 then .finite 0
  else if 0 < q then if nearest q < overflow then .finite (nearest q) else .inf false
  else if nearest (-q) < overflow then .finite (-nearest (-q)) else .inf true

/-- `float(n)`; `none` where it raises `OverflowError`. -/
def ofInt? (n : ℤ) : Option Float64 :=
  match round64 n with
  | .finite q => some (.finite q)
  | _ => none

/-- `x < y`. -/
def lt : Float64 → Float64 → Bool
  | .finite x, .finite y => x < y
  | .finite _, .inf neg => !neg
  | .inf neg, .finite _ => neg
  | .inf a, .inf b => a && !b
  | _, _ => false

/-- `min(x, y)`: `y` if it is smaller, else `x`. -/
def min (x y : Float64) : Float64 := if y.lt x then y else x

/-- `max(x, y)`: `y` if it is larger, else `x`. -/
def max (x y : Float64) : Float64 := if x.lt y then y else x

/-- `x + y`. -/
def add : Float64 → Float64 → Float64
  | .finite x, .finite y => round64 (x + y)
  | .inf a, .inf b => if a = b then .inf a else .nan
  | .inf a, .finite _ => .inf a
  | .finite _, .inf b => .inf b
  | _, _ => .nan

/-- `x * y`. -/
def mul : Float64 → Float64 → Float64
  | .finite x, .finite y => round64 (x * y)
  | .inf a, .inf b => .inf (a ^^ b)
  | .inf a, .finite y => if y = 0 then .nan else .inf (a ^^ decide (y < 0))
  | .finite x, .inf b => if x = 0 then .nan else .inf (b ^^ decide (x < 0))
  | _, _ => .nan

/-- `x * n` for an integer `n`, which is first converted; `none` where that raises
`OverflowError`. -/
def mulInt? (x : Float64) (n : ℤ) : Option Float64 := (ofInt? n).map x.mul

end Float64

end Python
