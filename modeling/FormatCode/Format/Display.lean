import FormatCode.Format.Layout
import FormatCode.Format.OfTokens
import FormatCode.Format.Selection

/-!
# Showing values through a format

A format shows a value as text and possibly a color. Text is shown as the literal text of its
section; a number as its digits laid out among the parts. A value to which no section applies is
shown as it is, without a color, and an infinity or what is not a number by its own text.

## Main definitions

* `Section.showText`, `Section.showNumber` — what a section makes of text and of a number.
* `Rendered` — text and color.
* `Format.render` — what a format makes of a value.
* `render` — the same, given the text of the format.
-/

namespace FormatCode

structure Rendered where
  text : String
  color : Option String
deriving DecidableEq, Repr

namespace Section

def showText (s : Section) : List Char := s.parts.flatMap Part.text

/-- The digits of a number among the parts of a section. Without a decimal point the fraction is
dropped, not rounded. -/
def layout (s : Section) (negative : Bool) (written : Positional) : List Char :=
  let whole := layoutWhole written.whole s.split.1 s.grouped
  (if negative then '-' :: whole else whole) ++
    match s.split.2 with
    | none => []
    | some parts => '.' :: layoutFraction written.fraction parts

/-- A number without its sign, multiplied as the percent signs of a section ask for. -/
def scaled (s : Section) (n : Number) : Except Fault Number := do
  let magnitude ← n.magnitude
  if s.percentCount = 0 then pure magnitude else magnitude.scaleByPercent s.percentCount

def showNumber (s : Section) (n : Number) : Except Fault (List Char) :=
  if n.isFinite then do
    let negative ← n.compareZero .less
    let written ← (← s.scaled n).positional
    pure (s.layout negative written)
  else n.text

def showCell (s : Section) : CellValue → Except Fault (List Char)
  | .text _ => .ok s.showText
  | .number n => s.showNumber n

end Section

def CellValue.plainText : CellValue → Except Fault (List Char)
  | .text s => .ok s.toList
  | .number n => n.plainText

namespace Format

def renderCell (f : Format) (v : CellValue) : Except Fault Rendered := do
  match ← f.verdict v with
  | .applies s => pure ⟨String.ofList (← s.showCell v), s.color⟩
  | .unmatched | .rejected _ => pure ⟨String.ofList (← v.plainText), none⟩

def render (f : Format) (v : Value) : Except Fault Rendered := do f.renderCell (← v.toCell)

end Format

def render (value format : Value) : Except Fault Rendered := do
  let f ← Format.parse (← format.toText)
  f.render value

end FormatCode
