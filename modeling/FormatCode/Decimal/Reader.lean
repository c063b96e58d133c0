import FormatCode.Decimal.Basic

/-!
# Reading decimals

The text of a decimal is read exactly: an optional sign, digits with an optional point, and an
optional exponent, or the name of an infinity or a NaN in any case.

## Main definitions

* `Numeral.splitSign` — the sign in front of a numeral.
* `Decimal.ofText?` — the decimal that a text stands for.
-/

namespace FormatCode

def Numeral.splitSign : List Char → Bool × List Char
  | '-' :: rest => (true, rest)
  | '+' :: rest => (false, rest)
  | rest => (false, rest)

namespace Decimal

/-- The exponent at the end of a numeral; zero if there is none. -/
def readExponent? : List Char → Option Int
  | [] => some 0
  | mark :: rest =>
    let (negative, ds) := Numeral.splitSign rest
    if (mark = 'e' ∨ mark = 'E') ∧ ds ≠ [] ∧ ds.all Unicode.isDigit then
      some (if negative then -(Numeral.value ds) else Numeral.value ds)
    else none

def readFraction : List Char → List Char × List Char
  | '.' :: rest => (rest.takeWhile Unicode.isDigit, rest.dropWhile Unicode.isDigit)
  | rest => ([], rest)

def readFinite? (negative : Bool) (body : List Char) : Option Decimal :=
  let whole := body.takeWhile Unicode.isDigit
  let (fraction, rest) := readFraction (body.dropWhile Unicode.isDigit)
  if (whole ++ fraction).isEmpty then none
  else (readExponent? rest).map fun e =>
    .finite negative (Numeral.value (whole ++ fraction)) (e - fraction.length)

/-- A NaN without its sign, from the text that follows its name. -/
def readNan? (negative signaling : Bool) (payload : List Char) : Option Decimal :=
  if payload.all Unicode.isDigit then some (.nan negative signaling (Numeral.value payload))
  else none

def ofText? (s : String) : Option Decimal :=
  let (negative, body) := Numeral.splitSign s.toList
  match body.map Char.toLower with
  | ['i', 'n', 'f'] => some (.infinity negative)
  | ['i', 'n', 'f', 'i', 'n', 'i', 't', 'y'] => some (.infinity negative)
  | 'n' :: 'a' :: 'n' :: payload => readNan? negative false payload
  | 's' :: 'n' :: 'a' :: 'n' :: payload => readNan? negative true payload
  | _ => readFinite? negative body

example : ofText? "-1.50" = some (.finite true 150 (-2)) := by decide
example : ofText? "1E+3" = some (.finite false 1 3) := by decide
example : ofText? "sNaN7" = some (.nan false true 7) := by decide

end Decimal

end FormatCode
