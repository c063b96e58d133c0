/-!
# Digit placeholders

A format shows a digit of the number at each placeholder. The three placeholders differ in what they
show when the number has no digit left for them.

## Main definitions

* `Placeholder` — the placeholders.
* `Placeholder.mark` — how each is written in a format.
* `Placeholder.pad` — what each shows without a digit.
-/

namespace FormatCode

/-- A placeholder for a digit: one that shows nothing without a digit, one that shows a zero, and
one that shows a space. -/
inductive Placeholder
  | digit | zero | space
deriving DecidableEq, Repr

namespace Placeholder

def mark : Placeholder → Char
  | digit => '#'
  | zero => '0'
  | space => '?'

def pad : Placeholder → List Char
  | digit => []
  | zero => ['0']
  | space => [' ']

def ofMark? (s : String) : Option Placeholder :=
  [digit, zero, space].find? fun p => s.toList == [p.mark]

@[simp] theorem ofMark?_mark (p : Placeholder) : ofMark? (String.ofList [p.mark]) = some p := by
  cases p <;> decide

end Placeholder

end FormatCode
