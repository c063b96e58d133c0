import FormatCode.Binary64.Power
import FormatCode.Decimal.Power
import FormatCode.Power
import FormatCode.Value.Basic

/-!
# Percent counts of any kind

A section made by hand may hold anything as the number of its percent signs. A number is multiplied
by a hundred to that power as far as the arithmetics of the two kinds meet: whole powers suit every
number, powers of binary numbers suit integers and binary numbers, and decimal powers suit integers
and decimals.

## Main definitions

* `Number.timesBinary`, `Number.timesDecimal` — the products with a power.
* `Number.scaleBy` — a number times a hundred to the power of a value.
-/

namespace FormatCode.Number

open scoped Power

def toValue (n : Number) : Value := (CellValue.number n).toValue

def noProduct (n : Number) (other : String) : Fault :=
  .undefined (.operands "*" n.toValue.qualifiedName other)

def timesBinary (factor : Binary64) : Number → Except Fault Number
  | .int i => (Binary64.ofInt i).map fun x => .float (x.mul factor)
  | .float x => .ok (.float (x.mul factor))
  | n => .error (n.noProduct "float")

def timesDecimal (factor : Decimal) : Number → Except Fault Number
  | .int i => ((Decimal.ofInt i).mul factor).map .decimal
  | .decimal d => (d.mul factor).map .decimal
  | n => .error (n.noProduct "decimal.Decimal")

def scaleByInverse (percents : Nat) (n : Number) : Except Fault Number := do
  let _ ← Binary64.ofInt percents
  n.timesBinary (Binary64.hundredToRatio (-percents) 1)

/-- A number times a hundred to the power of a fraction. A power that is itself a fraction is
written out for no number, but multiplies a binary one. -/
def scaleByFraction (numerator : Int) (denominator : Nat) (n : Number) : Except Fault Number :=
  if denominator = 1 then
    match numerator with
    | .ofNat percents => n.scaleByPercent percents
    | .negSucc percents =>
      match n with
      | .float x =>
        (Binary64.ofFraction 1 (100 ^ (percents + 1))).map fun factor => .float (x.mul factor)
      | .int _ => .error (.noAttribute "Fraction" "normalize")
      | .decimal _ => .error (n.noProduct "Fraction")
  else do
    n.timesBinary (← (← Binary64.ofFraction numerator denominator).hundredTo)

/-- A number times a hundred to the power of a complex number. The product has no text, if there is
one. -/
def scaleByComplex (re im : Binary64) (n : Number) : Except Fault Number :=
  match re.hundredTo, im.isFinite with
  | .error _, true => .error .complexPowerTooLarge
  | _, _ =>
    match n with
    | .int i => do
      let _ ← Binary64.ofInt i
      .error (.noAttribute "complex" "normalize")
    | .float _ => .error (.noAttribute "complex" "normalize")
    | .decimal _ => .error (n.noProduct "complex")

def scaleBy (percents : Value) (n : Number) : Except Fault Number :=
  match percents with
  | .bool b => n.scaleByPercent b.toNat
  | .int (.ofNat percents) => n.scaleByPercent percents
  | .int (.negSucc percents) => n.scaleByInverse (percents + 1)
  | .float x => x.hundredTo.bind n.timesBinary
  | .decimal d => d.hundredTo.bind n.timesDecimal
  | .fraction numerator denominator => n.scaleByFraction numerator denominator
  | .complex re im => n.scaleByComplex re im
  | v => .error (.undefined (.operands "** or pow()" "int" v.qualifiedName))

end FormatCode.Number
