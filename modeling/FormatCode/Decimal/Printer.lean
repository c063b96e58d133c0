import FormatCode.Decimal.Basic
import FormatCode.Positional

/-!
# Writing decimals

Two ways to write a decimal. The scientific text shows every digit of the coefficient and tells the
exponent apart, so that different decimals have different texts. The positional text writes the
number out, without exponent.

## Main definitions

* `Decimal.scientific` — the scientific text.
* `Decimal.positional` — a decimal written out.
-/

namespace FormatCode

namespace Decimal

/-- A NaN is written with its payload, unless that is zero. -/
def nanText (signaling : Bool) (payload : Nat) : List Char :=
  (if signaling then ['s'] else []) ++ ['N', 'a', 'N'] ++
    (if payload = 0 then [] else Numeral.digits payload)

def infinityText : List Char := ['I', 'n', 'f', 'i', 'n', 'i', 't', 'y']

/-- A decimal written out. An exponent above zero adds zeros, one below zero places the point. -/
def positional : Decimal → Positional
  | .finite n c (.ofNat e) => ⟨n, Numeral.digits c ++ List.replicate e '0', []⟩
  | .finite n c (.negSucc e) => .ofDigits n (Numeral.digits c) (e + 1)
  | .infinity n => ⟨n, infinityText, []⟩
  | .nan n s p => ⟨n, nanText s p, []⟩

def exponentText (e : Int) : List Char :=
  'E' :: (if e < 0 then '-' else '+') :: Numeral.digits e.natAbs

/-- The digits of a finite decimal, written out if the exponent is at most zero and no more than
five zeros follow the point, and otherwise with one digit before the point and an exponent. -/
def scientificDigits (ds : List Char) (e : Int) : List Char :=
  let leading := e + ds.length
  if e ≤ 0 ∧ -6 < leading then (Positional.ofDigits false ds (-e).toNat).text
  else (Positional.ofDigits false ds (ds.length - 1)).text ++ exponentText (leading - 1)

def scientific : Decimal → List Char
  | .finite n c e => (if n then ['-'] else []) ++ scientificDigits (Numeral.digits c) e
  | .infinity n => (if n then ['-'] else []) ++ infinityText
  | .nan n s p => (if n then ['-'] else []) ++ nanText s p

example : (positional (.finite true 150 (-2))).text = "-1.50".toList := by decide
example : (positional (.finite false 5 (-3))).text = "0.005".toList := by decide
example : scientific (.finite false 15 2) = "1.5E+3".toList := by decide
example : scientific (.finite false 1 (-7)) = "1E-7".toList := by decide
example : scientific (.finite false 0 (-6)) = "0.000000".toList := by decide

end Decimal

end FormatCode
