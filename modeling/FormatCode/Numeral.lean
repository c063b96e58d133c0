import FormatCode.Power
import FormatCode.Unicode.DecimalDigit

/-!
# Decimal numerals

Whole numbers as strings of decimal digits. A number is written in the digits of `0` to `9`, without
leading zeros; a numeral that is read may use the digits of any script.

## Main definitions

* `Numeral.digits` — the digits of a natural number.
* `Numeral.value` — the number that a string of digits stands for.
* `Numeral.maxDigits` — the length past which whole numbers are neither written nor read.
* `Numeral.fits` — whether a number keeps to that length.
-/

namespace FormatCode.Numeral

open scoped Power

def digits (n : Nat) : List Char := Nat.toDigits 10 n

def digitCount (n : Nat) : Nat := (digits n).length

/-- The value of a string of digits. A character that is no digit counts as zero. -/
def value (ds : List Char) : Nat :=
  ds.foldl (fun n c => 10 * n + (Unicode.digitValue? c).getD 0) 0

def maxDigits : Nat := 4300

def fits (n : Nat) : Bool := n < 10 ^ maxDigits

def signed : Int → List Char
  | .ofNat n => digits n
  | .negSucc n => '-' :: digits (n + 1)

theorem digits_ne_nil (n : Nat) : digits n ≠ [] := Nat.toDigits_ne_nil

theorem fits_iff (n : Nat) : fits n = true ↔ digitCount n ≤ maxDigits := by
  rw [fits, decide_eq_true_iff]
  exact (Nat.length_toDigits_le_iff (by decide) (by decide)).symm

example : digits 0 = ['0'] := by decide
example : value ['4', '2'] = 42 := by decide

end FormatCode.Numeral
