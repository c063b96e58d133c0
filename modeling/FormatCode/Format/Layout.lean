import FormatCode.Format.Basic

/-!
# Laying out digits

The digits before the decimal point are laid out from right to left, so that the last digit meets
the last placeholder, and the leftmost placeholder takes all digits that are left. The digits after
the point are laid out from left to right; those beyond the last placeholder are dropped, and the
first of them rounds the digit at the last placeholder, without a carry.

## Main definitions

* `Walk` — the digits still to be laid out and the text laid out so far.
* `layoutWhole` — the digits before the point among the parts before it.
* `layoutFraction` — the digits after the point among the parts after it.
-/

namespace FormatCode

/-! ## Before the point -/

/-- How far the digits before the point are laid out: the digits that are left, last first, the
number of digits shown, and the text to the right of the next part. -/
structure Walk where
  pending : List Char
  shown : Nat := 0
  text : List Char := []
deriving DecidableEq, Repr

namespace Walk

/-- Shows a digit. Where digits are grouped, a comma separates it from three more or a multiple. -/
def emit (grouped : Bool) (w : Walk) (digit : Char) : Walk :=
  { w with
    shown := w.shown + 1
    text := if grouped && w.shown != 0 && w.shown % 3 == 0 then digit :: ',' :: w.text
      else digit :: w.text }

def flush (grouped : Bool) (w : Walk) : Walk :=
  { w.pending.foldl (Walk.emit grouped) w with pending := [] }

/-- Shows the next digit at a placeholder, or what the placeholder shows without one. A zero counts
as a digit, a space does not. -/
def place (grouped : Bool) (p : Placeholder) (w : Walk) : Walk :=
  match w.pending, p with
  | digit :: rest, _ => Walk.emit grouped { w with pending := rest } digit
  | [], .zero => w.emit grouped '0'
  | [], p => { w with text := p.pad ++ w.text }

/-- Lays out a part; a placeholder with none to its left takes all digits. -/
def step (grouped leftmost : Bool) (w : Walk) : Part → Walk
  | .placeholder p => if leftmost then (w.place grouped p).flush grouped else w.place grouped p
  | .percent => { w with text := '%' :: w.text }
  | .literal text => { w with text := text.toList ++ w.text }
  | .blank | .point => w

def steps (grouped : Bool) (w : Walk) : (leftmost : Bool) → List Part → Walk
  | _, [] => w
  | leftmost, part :: rest =>
    (w.steps grouped (leftmost && !part.isPlaceholder) rest).step grouped leftmost part

end Walk

def layoutWhole (digits : List Char) (parts : List Part) (grouped : Bool) : List Char :=
  (Walk.steps grouped { pending := digits.reverse } true parts).text

/-! ## After the point -/

def roundsUp (digit : Char) : Bool := ['5', '6', '7', '8', '9'].contains digit

/-- The digit at the last placeholder, rounded by the digit that follows. There is no carry, so a
nine becomes a ten. -/
def lastDigit (digit : Char) (next : Option Char) : List Char :=
  if next.any roundsUp then Numeral.digits (Numeral.value [digit] + 1) else [digit]

def layoutFraction (digits : List Char) : List Part → List Char
  | [] => []
  | .placeholder p :: rest =>
    match digits with
    | [] => p.pad ++ layoutFraction [] rest
    | digit :: more =>
      (if rest.any Part.isPlaceholder then [digit] else lastDigit digit more.head?) ++
        layoutFraction more rest
  | .percent :: rest => '%' :: layoutFraction digits rest
  | .literal text :: rest => text.toList ++ layoutFraction digits rest
  | .blank :: rest | .point :: rest => layoutFraction digits rest

example : layoutWhole "1234".toList [.placeholder .zero, .literal "x", .placeholder .zero] true =
    "1,23x4".toList := by decide
example : layoutFraction "095".toList [.placeholder .zero, .placeholder .zero] =
    "010".toList := by decide

end FormatCode
