/-!
# Numbers written out

A number written out has a sign, digits before the point and digits after it, and no exponent.

## Main definitions

* `Positional` — a number written out, cut at the point.
* `Positional.ofDigits` — a string of digits with the point a given number of places from its end.
* `Positional.text` — the text of a number written out.
-/

namespace FormatCode

/-- A number written out without exponent: a sign, what stands before the point and what stands
after it. The point itself is written only before a nonempty fraction. -/
structure Positional where
  negative : Bool
  whole : List Char
  fraction : List Char
deriving DecidableEq, Repr

namespace Positional

def text (p : Positional) : List Char :=
  (if p.negative then ['-'] else []) ++ p.whole ++
    (if p.fraction.isEmpty then [] else '.' :: p.fraction)

/-- The last `places` of a string of digits as the fraction, with zeros in front so that a digit is
left before the point. -/
def ofDigits (negative : Bool) (ds : List Char) (places : Nat) : Positional :=
  let padded := List.replicate (places + 1 - ds.length) '0' ++ ds
  ⟨negative, padded.take (padded.length - places), padded.drop (padded.length - places)⟩

end Positional

end FormatCode
