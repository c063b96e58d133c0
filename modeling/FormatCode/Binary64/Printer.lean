import FormatCode.Binary64.Shortest
import FormatCode.Decimal.Printer

/-!
# Writing binary numbers

A binary number is written with the digits of its shortest decimal. The number is written out if its
leading digit stands at most sixteen places before and at most four places after the point, and
otherwise with one digit before the point and an exponent of at least two digits. A whole number
that is written out ends in `.0`.

## Main definitions

* `Binary64.text` — the text of a number.
* `Binary64.compactText` — the same without the `.0` of whole numbers.
-/

namespace FormatCode.Binary64

def exponentText (e : Int) : List Char :=
  let ds := Numeral.digits e.natAbs
  'e' :: (if e < 0 then '-' else '+') :: (List.replicate (2 - ds.length) '0' ++ ds)

/-- The text of `n · 10 ^ k`, where `n` has no zeros at the end. -/
def digitsText (n : Nat) (k : Int) : List Char :=
  let ds := Numeral.digits n
  let point := ds.length + k
  if -4 < point ∧ point ≤ 16 then (Decimal.finite false n k).positional.text
  else (Positional.ofDigits false ds (ds.length - 1)).text ++ exponentText (point - 1)

def compactText : Binary64 → List Char
  | .finite negative bits =>
    (if negative then ['-'] else []) ++ digitsText (shortest bits).1 (shortest bits).2
  | .infinity negative => (if negative then ['-'] else []) ++ ['i', 'n', 'f']
  | .nan => ['n', 'a', 'n']

def text (x : Binary64) : List Char :=
  let compact := compactText x
  if x.isFinite && compact.all (fun c => c.isDigit || c == '-') then compact ++ ['.', '0']
  else compact

example : text (ofRatio false 1 10) = "0.1".toList := by decide +kernel
example : text (ofRatio true (10 ^ 16) 1) = "-1e+16".toList := by decide +kernel
example : text (zero true) = "-0.0".toList := by decide +kernel

end FormatCode.Binary64
