import FormatCode.Binary64.Basic
import FormatCode.Decimal.Basic
import FormatCode.Fault

/-!
# Comparing real numbers

Real numbers of every representation are compared by their exact values. A comparison with what is
not a number is false, except that it is unequal to everything; where a decimal takes part, an order
of it is a fault, and so is any comparison of a signaling one.

## Main definitions

* `Comparison` — the six relations, with their symbols.
* `Comparison.holds` — whether a relation holds in a given order.
* `Operand` — a real number as it is compared.
* `Operand.compare` — whether a relation holds between two real numbers.
-/

namespace FormatCode

inductive Comparison
  | greater | less | atLeast | atMost | equal | unequal
deriving DecidableEq, Repr

namespace Comparison

def all : List Comparison := [.greater, .less, .atLeast, .atMost, .equal, .unequal]

def symbol : Comparison → String
  | greater => ">"
  | less => "<"
  | atLeast => ">="
  | atMost => "<="
  | equal => "="
  | unequal => "<>"

def ofSymbol? (s : String) : Option Comparison := all.find? (·.symbol == s)

def holds : Comparison → Ordering → Bool
  | greater, o => o == .gt
  | less, o => o == .lt
  | atLeast, o => o != .lt
  | atMost, o => o != .gt
  | equal, o => o == .eq
  | unequal, o => o != .eq

def isOrder : Comparison → Bool
  | equal | unequal => false
  | _ => true

@[simp] theorem ofSymbol?_symbol (c : Comparison) : ofSymbol? c.symbol = some c := by
  cases c <;> decide

end Comparison

/-- A real number as it is compared: a decimal divided by a positive whole number. Whether it was
given as a decimal decides how a NaN is treated. -/
structure Operand where
  value : Decimal
  divisor : Nat
  isDecimal : Bool
deriving DecidableEq, Repr

namespace Operand

def ofInt (i : Int) : Operand := ⟨.ofInt i, 1, false⟩

def ofFloat (x : Binary64) : Operand := ⟨x.toDecimal, 1, false⟩

def ofDecimal (d : Decimal) : Operand := ⟨d, 1, true⟩

def ofFraction (numerator : Int) (denominator : Nat) : Operand :=
  ⟨.ofInt numerator, denominator, false⟩

def order? (a b : Operand) : Option Ordering :=
  (a.value.timesWhole b.divisor).compare? (b.value.timesWhole a.divisor)

def compare (c : Comparison) (a b : Operand) : Except Fault Bool :=
  match order? a b with
  | some o => .ok (c.holds o)
  | none =>
    if (a.isDecimal || b.isDecimal) &&
        (c.isOrder || a.value.isSignaling || b.value.isSignaling) then .error .decimalInvalid
    else .ok (c == .unequal)

end Operand

end FormatCode
