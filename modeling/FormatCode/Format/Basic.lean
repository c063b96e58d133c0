import FormatCode.Placeholder
import FormatCode.Value.Basic

/-!
# Formats

A format is a list of sections. A section says how the numbers that it applies to are laid out: the
parts in order, and what was said once for all of them.

## Main definitions

* `Part`, `Condition`, `Section`, `Format` — what formats are made of.
* `Section.split` — the parts before and after the decimal point.
* `Format.hasConditions` — whether any section has a condition.
-/

namespace FormatCode

inductive Part
  /-- A part that shows nothing. -/
  | blank
  /-- The place of a digit. -/
  | placeholder (p : Placeholder)
  | percent
  /-- The decimal point. -/
  | point
  /-- Text that is shown as it is. -/
  | literal (text : String)
deriving DecidableEq, Repr

namespace Part

def isPlaceholder : Part → Bool
  | placeholder _ => true
  | _ => false

def text : Part → List Char
  | literal text => text.toList
  | _ => []

end Part

/-- A condition on the values that a section applies to: the value first, then the threshold. The
operator of a condition made by hand need not be one of the six. -/
structure Condition where
  operator : String
  threshold : Value
deriving Repr

structure Section where
  condition : Option Condition := none
  color : Option String := none
  parts : List Part := []
  percentCount : Nat := 0
  /-- Whether digits are shown in groups of three. -/
  grouped : Bool := false
  /-- What numbers are to be divided by. It is recorded only. -/
  scale : Nat := 1
  /-- The sign of the exponent. It is recorded only. -/
  scientific : Option String := none
deriving Repr

/-- A list cut at the first item with a property: what precedes the item, and what follows it if
there is one. -/
def splitAtFirst {α : Type} (p : α → Bool) (items : List α) : List α × Option (List α) :=
  (items.takeWhile (!p ·), match items.dropWhile (!p ·) with
    | [] => none
    | _ :: rest => some rest)

def Section.split (s : Section) : List Part × Option (List Part) :=
  splitAtFirst (· == .point) s.parts

structure Format where
  sections : List Section
deriving Repr

def Format.hasConditions (f : Format) : Bool := f.sections.any (·.condition.isSome)

end FormatCode
