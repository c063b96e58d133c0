import FormatCode.Binary64.Printer
import FormatCode.Comparison
import FormatCode.Decimal.Context
import FormatCode.Decimal.Printer
import FormatCode.Power

/-!
# Numbers to show

The numbers that formats apply to come in three representations. Each is written out without
exponent, with as many digits as tell it from its neighbours.

## Main definitions

* `Number` — an integer, a binary number or a decimal.
* `Number.magnitude`, `Number.scaleByPercent` — what becomes of a number before it is laid out.
* `Number.positional` — a number written out.
* `Number.text`, `Number.plainText` — its own text, and its text where no format applies.
-/

namespace FormatCode

open scoped Power

inductive Number
  | int (i : Int)
  | float (x : Binary64)
  | decimal (d : Decimal)
deriving DecidableEq, Repr

namespace Number

def operand : Number → Operand
  | .int i => .ofInt i
  | .float x => .ofFloat x
  | .decimal d => .ofDecimal d

def isFinite : Number → Bool
  | .int _ => true
  | .float x => x.isFinite
  | .decimal d => d.isFinite

def compareZero (c : Comparison) (n : Number) : Except Fault Bool :=
  n.operand.compare c (.ofInt 0)

/-- The absolute value. That of a decimal is rounded to the context. -/
def magnitude : Number → Except Fault Number
  | .int i => .ok (.int i.natAbs)
  | .float x => .ok (.float x.abs)
  | .decimal d => d.abs.map .decimal

/-- A number times a hundred for each of `percents` percent signs, in its own arithmetic: the power
is computed exactly and then brought into the representation of the number. A decimal only changes
its exponent. -/
def scaleByPercent (percents : Nat) : Number → Except Fault Number
  | .int i => .ok (.int (i * (100 ^ percents : Nat)))
  | .float x => (Binary64.ofInt (100 ^ percents : Nat)).map fun factor => .float (x.mul factor)
  | .decimal d => (d.shift (2 * percents)).map .decimal

def writeInt (i : Int) : Except Fault (List Char) :=
  if Numeral.fits i.natAbs then .ok (Numeral.signed i) else .error .tooLongToWrite

/-- A number written out: every digit of an integer, the shortest decimal of a binary number, and a
decimal rounded to the context, without zeros at the end of the fraction. -/
def positional : Number → Except Fault Positional
  | .int i => (writeInt i.natAbs).map fun ds => ⟨decide (i < 0), ds, []⟩
  | .float x => .ok x.shortestDecimal.positional
  | .decimal d => d.normalize.map (·.positional)

def text : Number → Except Fault (List Char)
  | .int i => writeInt i
  | .float x => .ok x.text
  | .decimal d => .ok d.scientific

def plainText (n : Number) : Except Fault (List Char) :=
  if n.isFinite then do
    let negative ← n.compareZero .less
    let written ← (← n.magnitude).positional
    pure ((if negative then ['-'] else []) ++ written.text)
  else n.text

end Number

end FormatCode
