import FormatCode.Binary64.Basic
import FormatCode.Power

/-!
# The shortest decimal of a binary number

Among the decimals that round to a given magnitude there is a shortest, and of the shortest ones a
nearest. The numbers that round to the magnitude lie between the points halfway to its neighbours,
the end points included if the significand is even. On the grid of the multiples of a power of ten,
only the two neighbours of the magnitude have to be tried: if any point of the grid rounds to it,
one of them does. So the grids are tried from the coarsest on, and the first that has such a point
decides.

## Main definitions

* `Binary64.gridPoint?` — the point of one grid that rounds to a magnitude.
* `Binary64.shortest` — the shortest decimal, as a coefficient and an exponent.
* `Binary64.shortestDecimal` — a number as its shortest decimal.
-/

namespace FormatCode.Binary64

open scoped Power

/-- Four times the significand less the distance to the lower end point, in quarters of a unit.
Below a power of two the neighbour is only half a unit away. -/
def lowerEnd (bits : Nat) : Nat :=
  4 * significand bits - if bits % 2 ^ (52 : Nat) = 0 ∧ 2 ^ (52 : Nat) < bits then 1 else 2

def upperEnd (bits : Nat) : Nat := 4 * significand bits + 2

/-- What a quarter of a unit `2 ^ e` amounts to on the grid of `10 ^ k`, as a quotient. -/
def quarter (e k : Int) : Nat × Nat :=
  (2 ^ (e - 2).toNat * 10 ^ (-k).toNat, 2 ^ (2 - e).toNat * 10 ^ k.toNat)

/-- The multiple of `10 ^ k` that rounds to a magnitude, if there is one; of two the nearer. -/
def gridPoint? (bits : Nat) (k : Int) : Option Nat :=
  let (a, b) := quarter (exponent bits) k
  let value := 4 * significand bits * a
  let below := value / b
  let inside (x : Nat) : Bool :=
    if significand bits % 2 = 0 then lowerEnd bits * a ≤ x * b && x * b ≤ upperEnd bits * a
    else lowerEnd bits * a < x * b && x * b < upperEnd bits * a
  match inside below, inside (below + 1) with
  | true, true => some (roundHalfEven value b)
  | true, false => some below
  | false, true => some (below + 1)
  | false, false => none

/-- The first grid with a point that rounds to a magnitude, from `10 ^ k` on to finer ones. -/
def search (bits : Nat) : (grids : Nat) → (k : Int) → Nat × Int
  | 0, k => ((gridPoint? bits k).getD 0, k)
  | grids + 1, k =>
    match gridPoint? bits k with
    | some n => (n, k)
    | none => search bits grids (k - 1)

def leadingDigit (bits : Nat) : Int :=
  match exponent bits with
  | .ofNat e => Decimal.adjusted (significand bits * 2 ^ e) 0
  | .negSucc e => Decimal.adjusted (significand bits * 5 ^ (e + 1)) (.negSucc e)

/-- The coefficient and exponent of the shortest decimal that rounds to a magnitude. No magnitude
needs more than seventeen digits. -/
def shortest (bits : Nat) : Nat × Int :=
  if bits = 0 then (0, 0) else search bits 18 (leadingDigit bits + 1)

def shortestDecimal : Binary64 → Decimal
  | .finite negative bits => .finite negative (shortest bits).1 (shortest bits).2
  | .infinity negative => .infinity negative
  | .nan => .nan false false 0

example : shortest 1 = (5, -324) := by decide +kernel
example : shortest 4591870180066957722 = (1, -1) := by decide +kernel

end FormatCode.Binary64
