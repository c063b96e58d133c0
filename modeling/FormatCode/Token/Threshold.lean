import FormatCode.Binary64.Basic
import FormatCode.Comparison
import FormatCode.Decimal.Reader
import FormatCode.Value.Basic

/-!
# Conditions as they are written

A condition is a relation and a numeral: an optional sign, decimal digits of any script, and an
optional fraction. The threshold of a condition is an integer if the numeral has no point, and
otherwise the nearest binary number.

## Main definitions

* `Threshold` — the numeral of a condition.
* `Threshold.read?` — the numeral that a text is.
* `Threshold.exact`, `Threshold.value` — the number written, and the value that conditions use for
  it.
* `readCondition?` — the relation and numeral that a text is.
-/

namespace FormatCode

structure Threshold where
  negative : Bool
  whole : List Char
  fraction : Option (List Char)
deriving DecidableEq, Repr

namespace Threshold

def read? (s : List Char) : Option Threshold :=
  let (negative, body) := Numeral.splitSign s
  let whole := body.takeWhile Unicode.isDigit
  if whole.isEmpty then none
  else match body.dropWhile Unicode.isDigit with
    | [] => some ⟨negative, whole, none⟩
    | '.' :: fraction =>
      if !fraction.isEmpty && fraction.all Unicode.isDigit then
        some ⟨negative, whole, some fraction⟩
      else none
    | _ => none

def digits (t : Threshold) : List Char := t.whole ++ t.fraction.getD []

def exact (t : Threshold) : Decimal :=
  .finite t.negative (Numeral.value t.digits) (-((t.fraction.getD []).length : Int))

def value (t : Threshold) : Except Fault Value :=
  match t.fraction with
  | some fraction =>
    .ok (.float (.ofDecimal t.negative (Numeral.value t.digits) (-(fraction.length : Int))))
  | none =>
    if t.whole.length ≤ Numeral.maxDigits then
      let n := Numeral.value t.whole
      .ok (.int (if t.negative then -n else n))
    else .error (.tooLongToRead t.whole.length)

end Threshold

/-- The relation that a text begins with, the longest there is, and what follows it. -/
def readComparison? : List Char → Option (Comparison × List Char)
  | '<' :: '=' :: rest => some (.atMost, rest)
  | '>' :: '=' :: rest => some (.atLeast, rest)
  | '<' :: '>' :: rest => some (.unequal, rest)
  | '<' :: rest => some (.less, rest)
  | '>' :: rest => some (.greater, rest)
  | '=' :: rest => some (.equal, rest)
  | _ => none

def readCondition? (s : List Char) : Option (Comparison × Threshold) := do
  let (c, rest) ← readComparison? s
  pure (c, ← Threshold.read? rest)

end FormatCode
