import FormatCode.Format.Display
import FormatCode.Node.Layout
import FormatCode.Node.Percent

/-!
# Showing values through nodes made by hand

A node made by hand need not be that of any format: its sections may be other values, its conditions
other nodes, its numbers of another kind. Such a node still shows what it can, since only the fields
that matter for a value are looked at, and the first of them that does not suit is the fault. The
node of a format shows what the format does.

## Main definitions

* `Value.accepts` — whether a condition accepts a value.
* `Value.chooseSection` — the section for a value, and its position.
* `Value.showNumber` — what a section makes of a number.
* `Shown` — text and color, which may be any value.
* `Value.display` — what a node makes of a value.
-/

namespace FormatCode

structure Shown where
  text : List Char
  color : Value
deriving Repr

def Rendered.toShown (r : Rendered) : Shown := ⟨r.text.toList, .textOrNull r.color⟩

namespace Value

/-! ## The section for a value -/

/-- Whether a condition accepts a value. Text is never accepted. -/
def accepts (condition v : Value) : Except Fault Bool :=
  match v with
  | text _ => .ok false
  | v => do
    let operator ← condition.property "operator"
    let relation ← operator.lookUp Comparison.ofSymbol? .unknownOperator
    v.compare relation (← condition.property "threshold")

def hasCondition (s : Value) : Except Fault Bool :=
  (s.property "condition").map fun condition => !condition.isNull

def anyCondition (sections : List Value) : Except Fault Bool := sections.anyM hasCondition

/-- The position of the first of some sections with a property. -/
def firstWith (p : Value → Except Fault Bool) : List Value → Except Fault (Option Nat)
  | [] => .ok none
  | s :: rest => do if ← p s then pure (some 0) else pure ((← firstWith p rest).map (· + 1))

def claims (v s : Value) : Except Fault Bool := do
  let condition ← s.property "condition"
  if condition.isNull then pure false else condition.accepts v

def choosePosition (sections : List Value) (v : CellValue) : Except Fault (Option Nat) := do
  let conditional ← anyCondition sections
  match v with
  | .text _ => pure (some (if sections.length = 4 then 3 else 0))
  | .number n =>
    if conditional then
      match ← firstWith (claims v.toValue) sections with
      | some i => pure (some i)
      | none => firstWith (fun s => s.hasCondition.map (!·)) sections
    else (chooseBySign sections.length n).map some

/-- The members of a value that can tell how many it has. One that counts as false has none. -/
def sized (v : Value) : Except Fault (List Value) :=
  if v.countsAsTrue then
    match v.iterate with
    | .ok items => .ok items
    | .error _ => .error (.notSized v.qualifiedName)
  else .ok []

/-- The section for a value, and its position. A missing section is none. -/
def chooseSection (format : Value) (v : CellValue) : Except Fault (Option (Nat × Value)) := do
  let sections ← (← format.property "sections").sized
  let position ← match sections with
    | [] => pure none
    | [_] => pure (some 0)
    | sections => choosePosition sections v
  match position with
  | none => pure none
  | some i =>
    let s := sections.getD i .null
    pure (if s.isNull then none else some (i, s))

/-! ## Showing -/

/-- The parts before the point and after it, if there is one; without one, the parts as they were
given. -/
def splitParts (parts : Value) : Except Fault (Value × Option Value) := do
  match splitAtFirst isPoint (← parts.iterate) with
  | (_, none) => pure (parts, none)
  | (before, some after) => pure (.tuple before, some (.tuple after))

def scaled (s : Value) (n : Number) : Except Fault Number := do
  let percents ← s.property "percent_count"
  if percents.countsAsTrue then n.scaleBy percents else pure n

def layout (s : Value) (negative : Bool) (written : Positional) : Except Fault (List Char) := do
  let digits := if written.negative then '-' :: written.whole else written.whole
  let (wholeParts, fractionParts) ← splitParts (← s.property "parts")
  let grouped ← s.property "thousand_separator"
  let whole ← layoutWhole digits (← wholeParts.iterate) grouped.countsAsTrue
  let signed := if negative then '-' :: whole else whole
  match fractionParts with
  | none => pure signed
  | some parts => pure (signed ++ '.' :: (← layoutFraction written.fraction (← parts.iterate)))

def showNumber (s : Value) (n : Number) : Except Fault (List Char) :=
  if n.isFinite then do
    let negative ← n.compareZero .less
    let written ← (← s.scaled (← n.magnitude)).positional
    s.layout negative written
  else n.text

def showCell (s : Value) : CellValue → Except Fault (List Char)
  | .text _ => do joinLiterals (← (← s.property "parts").iterate)
  | .number n => s.showNumber n

def showThrough (s : Value) (v : CellValue) : Except Fault Shown := do
  let condition ← s.property "condition"
  if ← (if condition.isNull then pure true else condition.accepts v.toValue) then
    pure ⟨← s.showCell v, ← s.property "color"⟩
  else pure ⟨← v.plainText, .null⟩

def display (node v : Value) : Except Fault Shown := do
  let cell ← v.toCell
  match ← node.chooseSection cell with
  | none => pure ⟨← cell.plainText, .null⟩
  | some (_, s) => s.showThrough cell

def choose (node v : Value) : Except Fault (Option Nat) := do
  (node.chooseSection (← v.toCell)).map fun chosen => chosen.map (·.1)

end Value

end FormatCode
