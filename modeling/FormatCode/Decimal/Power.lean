import FormatCode.Decimal.Context
import FormatCode.Power
import FormatCode.PowerOfTen

/-!
# Decimal powers of a hundred

A hundred to a decimal power, rounded to the context. Exponents whose result lies far beyond the
range of the context, or too close to one to be told from it, are settled by their size.

## Main definitions

* `Decimal.hundredTo` — the power.
-/

namespace FormatCode.Decimal

open scoped Power

def hundredToRatio (n : Int) (d : Nat) : Except Fault Decimal :=
  (fit (PowerOfTen.broken (2 * n % d).toNat d) (2 * n / d - PowerOfTen.places)).map
    fun (c, e) => .finite false c e

def hundredTo : Decimal → Except Fault Decimal
  | .finite negative c e =>
    if c = 0 ∨ adjusted c e < -40 then .ok (.ofInt 1)
    else if 8 < adjusted c e then
      if negative then .ok (.finite false 0 tiny) else .error .decimalOverflow
    else
      let n : Int := c * 10 ^ e.toNat
      hundredToRatio (if negative then -n else n) (10 ^ (-e).toNat)
  | .infinity negative => .ok (if negative then .finite false 0 tiny else .infinity false)
  | .nan n s p => quiet n s p

example :
    ((hundredTo (.finite false 15 (-1))).bind normalize).toOption = some (.finite false 1 3) := by
  decide +kernel

end FormatCode.Decimal
