import FormatCode.Format.Layout
import FormatCode.Format.Node

/-!
# Laying out digits among parts made by hand

Among parts made by hand may be values that are no parts, placeholders that do not know what to show
without a digit, and literals that hold no text. Each of these is a fault, and the first one that is
met decides: before the point the parts are looked at from the left as far as the first placeholder,
then met from right to left, and after the point they are looked at and then met from left to right.
The pieces are joined last, when a literal without text is found.

## Main definitions

* `Value.toPart` — a part, as far as it is one.
* `Value.meet` — what a part asks for when it is met.
* `Value.tally` — a part that shows one character for each piece.
* `Value.layoutWhole`, `Value.layoutFraction` — the digits among the parts.
* `Value.joinLiterals` — the literals among the parts.
-/

namespace FormatCode.Value

/-- A part as far as it is one. A placeholder among the tokens takes a digit; the other tokens show
nothing. -/
def toPart : Value → Part
  | node .placeholder _ => .placeholder .digit
  | v => (Part.ofValue? v).getD .blank

/-- Meets a part after `places` placeholders, with a number of digits to lay out: a placeholder that
gets none has to say what it shows instead. The result is the number of placeholders so far. -/
def meet (digits places : Nat) (part : Value) : Except Fault Nat := do
  if ← part.isPlaceholder then
    if digits ≤ places then let _ ← part.property "pad"
    pure (places + 1)
  else pure places

/-! ## Joining the pieces -/

def oddContent? : Value → Option Value
  | node .literalPart [text _] => none
  | node .literalPart [content] => some content
  | _ => none

/-- A part that shows one character for a literal: a mark if it holds no text, otherwise a space. -/
def tally : Value → Part
  | node .literalPart [text _] => .literal " "
  | node .literalPart _ => .literal "!"
  | v => v.toPart

/-- Pieces joined, unless a literal among the parts holds no text. The tally shows where it stands
among the pieces. -/
def join (parts : List Value) (tallied joined : List Char) : Except Fault (List Char) :=
  match parts.findSome? oddContent? with
  | some content => .error (.notTextItem (tallied.idxOf '!') content.qualifiedName)
  | none => .ok joined

/-! ## The two sides of the point -/

def layoutWhole (digits : List Char) (parts : List Value) (grouped : Bool) :
    Except Fault (List Char) := do
  let _ ← parts.anyM isPlaceholder
  let _ ← parts.reverse.foldlM (meet digits.length) 0
  join parts (FormatCode.layoutWhole digits (parts.map tally) grouped)
    (FormatCode.layoutWhole digits (parts.map toPart) grouped)

/-- A part that shows one character for each piece after the point, where a placeholder is a piece
even if it shows nothing. -/
def tallyPlace (part : Value) : Part :=
  match part.tally with
  | .placeholder _ => .placeholder .space
  | part => part

def layoutFraction (digits : List Char) (parts : List Value) : Except Fault (List Char) := do
  let _ ← parts.mapM isPlaceholder
  let _ ← parts.foldlM (meet digits.length) 0
  join parts (FormatCode.layoutFraction (digits.map fun _ => '0') (parts.map tallyPlace))
    (FormatCode.layoutFraction digits (parts.map toPart))

def joinLiterals (parts : List Value) : Except Fault (List Char) :=
  join parts (parts.flatMap (·.tally.text)) (parts.flatMap (·.toPart.text))

end FormatCode.Value
