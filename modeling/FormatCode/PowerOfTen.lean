import FormatCode.Power

/-!
# Powers of ten

A power of ten with a broken exponent is a whole power times one whose exponent lies between zero
and one. The latter is computed from the exponential series in units of `10 ^ -60`, which is many
more digits than any kind of number keeps.

## Main definitions

* `PowerOfTen.one` — how many units make up one.
* `PowerOfTen.logTen` — the natural logarithm of ten.
* `PowerOfTen.broken` — ten to the power of a fraction below one.
-/

namespace FormatCode.PowerOfTen

open scoped Power

def places : Nat := 60

def one : Nat := 10 ^ places

def logTen : Nat := 2302585092994045684017991454684364207601101488628772976033328

/-- The sum of `terms` terms of the exponential series at `y`, from the given term number `k` on. -/
def series (y : Nat) : (terms k term : Nat) → Nat
  | 0, _, _ => 0
  | terms + 1, k, term => term + series y terms (k + 1) (term * y / (one * (k + 1)))

def broken (n d : Nat) : Nat := series (logTen * n / d) 80 0 one

example : broken 0 1 = one := by decide +kernel
example : broken 1 2 / 10 ^ 40 = 316227766016837933199 := by decide +kernel

end FormatCode.PowerOfTen
