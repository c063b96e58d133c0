import FormatCode.Binary64.Basic
import FormatCode.Power
import FormatCode.PowerOfTen

/-!
# Binary powers of a hundred

A hundred to the power of a binary number or of a quotient, as the nearest binary number.

## Main definitions

* `Binary64.hundredToRatio` — the power for a quotient.
* `Binary64.hundredTo` — the power for a binary number.
-/

namespace FormatCode.Binary64

open scoped Power

def hundredToRatio (n : Int) (d : Nat) : Binary64 :=
  ofDecimal false (PowerOfTen.broken (2 * n % d).toNat d) (2 * n / d - PowerOfTen.places)

/-- A hundred to the power of a binary number, if it is not infinite by overflow. -/
def hundredTo (x : Binary64) : Except Fault Binary64 :=
  match x.toDecimal with
  | .finite negative c e =>
    let n : Int := c * 10 ^ e.toNat
    match hundredToRatio (if negative then -n else n) (10 ^ (-e).toNat) with
    | .infinity _ => .error .powerTooLarge
    | power => .ok power
  | .infinity negative => .ok (if negative then zero false else .infinity false)
  | .nan .. => .ok .nan

example : (hundredTo (ofRatio false 1 2)).toOption = some (ofRatio false 10 1) := by decide +kernel
example : (hundredTo (ofRatio false 155 1)).toOption = none := by decide +kernel

end FormatCode.Binary64
