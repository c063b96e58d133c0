import FormatCode.Binary64.Basic
import FormatCode.Decimal.Reader

/-!
# Reading binary numbers

The text of a binary number is that of a decimal, and stands for the number nearest to it.

## Main definitions

* `Binary64.ofText?` — the number that a text stands for.
-/

namespace FormatCode.Binary64

def ofText? (s : String) : Option Binary64 :=
  (Decimal.ofText? s).map fun
    | .finite negative c e => ofDecimal negative c e
    | .infinity negative => .infinity negative
    | .nan .. => .nan

example : ofText? "-0.0" = some (zero true) := by decide
example : ofText? "1e400" = some (.infinity false) := by decide +kernel

end FormatCode.Binary64
