import FormatCode.Numeral
import FormatCode.Power

/-!
# Decimal floating-point numbers

A finite decimal is a sign, a coefficient and an exponent of ten, so `1.50` and `1.5` are different
decimals of equal value, and so are the two zeros. Beside the finite decimals stand two infinities
and the results that are not numbers, quiet or signaling.

## Main definitions

* `Decimal` — the numbers.
* `Decimal.adjusted` — the exponent of the leading digit.
* `Decimal.compare?` — the exact order of values; what is not a number has none.
* `Decimal.timesWhole` — the exact product with a natural number.
-/

namespace FormatCode

open scoped Power

inductive Decimal
  /-- The coefficient times ten to the exponent. -/
  | finite (negative : Bool) (coefficient : Nat) (exponent : Int)
  | infinity (negative : Bool)
  /-- Not a number; the payload is carried along and shown. -/
  | nan (negative signaling : Bool) (payload : Nat)
deriving DecidableEq, Repr

namespace Decimal

def ofInt (i : Int) : Decimal := .finite (decide (i < 0)) i.natAbs 0

def isFinite : Decimal → Bool
  | .finite .. => true
  | _ => false

/-- Whether a decimal is a NaN that no operation may meet. -/
def isSignaling : Decimal → Bool
  | .nan _ signaling _ => signaling
  | _ => false

def adjusted (coefficient : Nat) (exponent : Int) : Int :=
  exponent + Numeral.digitCount coefficient - 1

/-- The order of `c · 10 ^ e` and `d · 10 ^ f`. Leading digits at different places decide; otherwise
the exponents lie no further apart than the lengths of the coefficients, and the longer exponent is
written out. -/
def compareMagnitude (c : Nat) (e : Int) (d : Nat) (f : Int) : Ordering :=
  if c = 0 ∨ d = 0 then compare c d
  else match compare (adjusted c e) (adjusted d f) with
    | .eq => compare (c * 10 ^ (e - f).toNat) (d * 10 ^ (f - e).toNat)
    | decided => decided

/-- The order of two values, if both are numbers. The two zeros are equal. -/
def compare? : Decimal → Decimal → Option Ordering
  | .nan .., _ => none
  | _, .nan .. => none
  | .infinity n, .infinity m => some (compare m n)
  | .infinity n, .finite .. => some (if n then .lt else .gt)
  | .finite .., .infinity m => some (if m then .gt else .lt)
  | .finite n c e, .finite m d f =>
    some <| match n && c != 0, m && d != 0 with
      | false, false => compareMagnitude c e d f
      | true, true => compareMagnitude d f c e
      | true, false => .lt
      | false, true => .gt

def timesWhole (m : Nat) : Decimal → Decimal
  | .finite n c e => .finite n (c * m) e
  | d => d

example : compare? (.finite false 150 (-2)) (.finite false 15 (-1)) = some .eq := by decide
example : compare? (.finite false 1 999999999) (.finite true 1 0) = some .gt := by decide

end Decimal

end FormatCode
