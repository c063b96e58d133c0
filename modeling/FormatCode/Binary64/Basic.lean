import FormatCode.Decimal.Basic
import FormatCode.Fault
import FormatCode.Power
import FormatCode.Rounding

/-!
# Binary floating-point numbers of 64 bits

The finite magnitudes are numbered from zero: the number of a magnitude is its bit pattern without
the sign, so larger magnitudes have larger numbers and neighbours have neighbouring ones. Every
operation is the exact one followed by rounding to the nearest number, half to even; what rounds
beyond the last magnitude is infinite.

## Main definitions

* `Binary64` — the numbers.
* `Binary64.significand`, `Binary64.exponent` — a magnitude as `significand · 2 ^ exponent`.
* `Binary64.ofRatio` — the number nearest to a quotient.
* `Binary64.toDecimal` — the same number as a decimal, exactly.
* `Binary64.mul` — the product.
-/

namespace FormatCode

open scoped Power

/-- A binary floating-point number: a sign and the bits of a finite magnitude, an infinity, or no
number. The last field of exponents is not among the magnitudes. -/
inductive Binary64
  | finite (negative : Bool) (bits : Fin (2047 * 2 ^ (52 : Nat)))
  | infinity (negative : Bool)
  | nan
deriving DecidableEq, Repr

namespace Binary64

def significand (bits : Nat) : Nat :=
  if bits < 2 ^ (52 : Nat) then bits else 2 ^ (52 : Nat) + bits % 2 ^ (52 : Nat)

def exponent (bits : Nat) : Int := (max (bits / 2 ^ (52 : Nat)) 1 : Nat) - 1075

def zero (negative : Bool) : Binary64 := .finite negative ⟨0, by decide⟩

def isFinite : Binary64 → Bool
  | .finite .. => true
  | _ => false

/-- The magnitude with a given number, or infinity past the last one. -/
def ofBits (negative : Bool) (bits : Nat) : Binary64 :=
  if h : bits < 2047 * 2 ^ (52 : Nat) then .finite negative ⟨bits, h⟩ else .infinity negative

/-! ## Rounding -/

/-- The exponent `k` with `2 ^ k ≤ n / d < 2 ^ (k + 1)`. The difference of the logarithms is that or
one more. -/
def leadingExponent (n d : Nat) : Int :=
  let k : Int := (n.log2 : Int) - d.log2
  if d * 2 ^ k.toNat ≤ n * 2 ^ (-k).toNat then k else k - 1

def unitExponent (n d : Nat) : Int := max (leadingExponent n d - 52) (-1074)

/-- The number nearest to `n / d`. A significand that is rounded up to the next power of two carries
into the exponent by itself. -/
def ofRatio (negative : Bool) (n d : Nat) : Binary64 :=
  if n = 0 then zero negative
  else
    let e := unitExponent n d
    ofBits negative
      ((e + 1074).toNat * 2 ^ (52 : Nat) + roundHalfEven (n * 2 ^ (-e).toNat) (d * 2 ^ e.toNat))

def ofScaled (negative : Bool) (m : Nat) (e : Int) : Binary64 :=
  ofRatio negative (m * 2 ^ e.toNat) (2 ^ (-e).toNat)

/-- The number nearest to `c · 10 ^ e`. Powers beyond the range of either side are not computed. -/
def ofDecimal (negative : Bool) (c : Nat) (e : Int) : Binary64 :=
  if c = 0 ∨ Decimal.adjusted c e < -400 then zero negative
  else if 400 < Decimal.adjusted c e then .infinity negative
  else ofRatio negative (c * 10 ^ e.toNat) (10 ^ (-e).toNat)

def ofInt (i : Int) : Except Fault Binary64 :=
  match ofRatio (decide (i < 0)) i.natAbs 1 with
  | .infinity _ => .error .wholeTooLarge
  | x => .ok x

def ofFraction (numerator : Int) (denominator : Nat) : Except Fault Binary64 :=
  match ofRatio (decide (numerator < 0)) numerator.natAbs denominator with
  | .infinity _ => .error .quotientTooLarge
  | x => .ok x

/-! ## Arithmetic -/

def abs : Binary64 → Binary64
  | .finite _ bits => .finite false bits
  | .infinity _ => .infinity false
  | .nan => .nan

def mul : Binary64 → Binary64 → Binary64
  | .finite n a, .finite m b =>
    ofScaled (n != m) (significand a * significand b) (exponent a + exponent b)
  | .infinity n, .infinity m => .infinity (n != m)
  | .infinity n, .finite m b => if b.val = 0 then .nan else .infinity (n != m)
  | .finite n a, .infinity m => if a.val = 0 then .nan else .infinity (n != m)
  | .nan, _ => .nan
  | _, .nan => .nan

/-- The same number as a decimal. A negative power of two is a power of five over one of ten. -/
def toDecimal : Binary64 → Decimal
  | .finite n bits =>
    match exponent bits with
    | .ofNat e => .finite n (significand bits * 2 ^ e) 0
    | .negSucc e => .finite n (significand bits * 5 ^ (e + 1)) (.negSucc e)
  | .infinity n => .infinity n
  | .nan => .nan false false 0

example : ofRatio false 1 2 = .finite false 4602678819172646912 := rfl

end Binary64

end FormatCode
