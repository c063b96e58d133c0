import FormatCode.Decimal.Basic
import FormatCode.Fault
import FormatCode.Power
import FormatCode.Rounding

/-!
# Decimal arithmetic in a context

Operations on decimals have results of at most 28 digits, rounded half to even, with the exponent of
the leading digit between -999999 and 999999. A result above that range is a fault, one below it
loses digits and may become zero.

## Main definitions

* `Decimal.fit` — a coefficient and exponent brought into the context.
* `Decimal.abs`, `Decimal.mul` — absolute value and product.
* `Decimal.shift` — the product with a power of ten.
* `Decimal.normalize` — the same value with no trailing zeros in the coefficient.
-/

namespace FormatCode.Decimal

open scoped Power

def precision : Nat := 28

def maxExponent : Int := 999999

/-- The smallest exponent of a leading digit at full precision. -/
def minExponent : Int := -999999

/-- The smallest exponent of a last digit. -/
def tiny : Int := minExponent - (precision - 1)

/-- `c / 10 ^ k` rounded. When `c` has fewer than `k` digits the quotient is below one tenth. -/
def roundOff (c k : Nat) : Nat :=
  if Numeral.digitCount c < k then 0 else roundHalfEven c (10 ^ k)

/-- The exponent that the last digit of a result has to have at least. -/
def lastPlace (c : Nat) (e : Int) : Int := max (e + Numeral.digitCount c - precision) tiny

/-- A coefficient and exponent with the digits that do not fit rounded away. A carry into one digit
too many leaves a zero at the end, which is dropped. -/
def roundToContext (c : Nat) (e : Int) : Nat × Int :=
  if e < lastPlace c e then
    let rounded := roundOff c (lastPlace c e - e).toNat
    if rounded = 10 ^ precision then (10 ^ (precision - 1), lastPlace c e + 1)
    else (rounded, lastPlace c e)
  else (c, e)

def fit (c : Nat) (e : Int) : Except Fault (Nat × Int) :=
  if c = 0 then .ok (0, min (max e tiny) maxExponent)
  else if maxExponent < adjusted c e then .error .decimalOverflow
  else
    let (c, e) := roundToContext c e
    if c ≠ 0 ∧ maxExponent < adjusted c e then .error .decimalOverflow else .ok (c, e)

/-- What an operation makes of a NaN: a signaling one is a fault, and a payload is cut to the
precision. -/
def quiet (negative signaling : Bool) (payload : Nat) : Except Fault Decimal :=
  if signaling then .error .decimalInvalid
  else .ok (.nan negative false (payload % 10 ^ precision))

def abs : Decimal → Except Fault Decimal
  | .finite _ c e => (fit c e).map fun (c, e) => .finite false c e
  | .infinity _ => .ok (.infinity false)
  | .nan n s p => quiet n s p

def shift (places : Nat) : Decimal → Except Fault Decimal
  | .finite n c e => (fit c (e + places)).map fun (c, e) => .finite n c e
  | .infinity n => .ok (.infinity n)
  | .nan n s p => quiet n s p

/-- The product. Of two NaNs the first is kept, unless one of them is signaling. -/
def mul : Decimal → Decimal → Except Fault Decimal
  | .nan n s p, b => quiet n (s || b.isSignaling) p
  | _, .nan n s p => quiet n s p
  | .finite n c e, .finite m d f => (fit (c * d) (e + f)).map fun (c, e) => .finite (n != m) c e
  | .infinity n, .finite m d _ | .finite m d _, .infinity n =>
    if d = 0 then .error .decimalInvalid else .ok (.infinity (n != m))
  | .infinity n, .infinity m => .ok (.infinity (n != m))

def trailingZeros (c : Nat) : Nat := ((Numeral.digits c).reverse.takeWhile (· == '0')).length

/-- The same value, rounded to the context and with no zeros at the end of the coefficient. Zero
gets the exponent zero and keeps its sign. -/
def normalize : Decimal → Except Fault Decimal
  | .finite n c e => (fit c e).map fun (c, e) =>
    if c = 0 then .finite n 0 0
    else .finite n (c / 10 ^ trailingZeros c) (e + trailingZeros c)
  | .infinity n => .ok (.infinity n)
  | .nan n s p => quiet n s p

example : normalize (.finite true 1200 (-3)) = .ok (.finite true 12 (-1)) := rfl
example : normalize (.finite false (10 ^ 29 - 1) 0) = .ok (.finite false 1 29) := rfl
example : fit 1 1000000 = .error .decimalOverflow := rfl
example : mul (.finite true 15 (-1)) (.finite false 2 1) = .ok (.finite true 30 0) := rfl

end FormatCode.Decimal
