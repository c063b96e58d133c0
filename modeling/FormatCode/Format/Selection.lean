import FormatCode.Format.Basic
import FormatCode.Text.Quoted
import FormatCode.Value.Order

/-!
# The section for a value

The sections of a format stand for positive numbers, negative numbers, zero and text, as far as
there are any, unless they have conditions: then the first section whose condition accepts a number
is taken, and otherwise the first without a condition. Text is never accepted by a condition.

## Main definitions

* `Condition.accepts` — whether a condition accepts a value.
* `Format.choose` — the position of the section for a value.
* `Verdict`, `Format.verdict` — what becomes of a value.
-/

namespace FormatCode

def Condition.accepts (c : Condition) (v : Value) : Except Fault Bool :=
  match v with
  | .text _ => .ok false
  | v =>
    match Comparison.ofSymbol? c.operator with
    | some relation => v.compare relation c.threshold
    | none => .error (.unknownOperator (quote c.operator))

def Section.claims (s : Section) (v : Value) : Except Fault Bool :=
  match s.condition with
  | some c => c.accepts v
  | none => .ok false

def firstClaim (v : Value) : List Section → Except Fault (Option Nat)
  | [] => .ok none
  | s :: rest => do
    if ← s.claims v then pure (some 0) else pure ((← firstClaim v rest).map (· + 1))

def chooseByCondition (sections : List Section) (n : Number) : Except Fault (Option Nat) := do
  match ← firstClaim (CellValue.number n).toValue sections with
  | some i => pure (some i)
  | none => pure (sections.findIdx? (·.condition.isNone))

/-- The position of the section for a number by its sign, of two or more sections. -/
def chooseBySign (count : Nat) (n : Number) : Except Fault Nat := do
  if count = 2 then
    if ← n.compareZero .less then pure 1 else pure 0
  else if count = 3 ∨ count = 4 then
    if ← n.compareZero .greater then pure 0
    else if ← n.compareZero .less then pure 1
    else pure 2
  else pure 0

namespace Format

/-- The position of the section for a value, if there is one. A section that stands alone is for
every value. -/
def choose (f : Format) (v : CellValue) : Except Fault (Option Nat) :=
  match f.sections, v with
  | [], _ => .ok none
  | [_], _ => .ok (some 0)
  | sections, .text _ => .ok (some (if sections.length = 4 then 3 else 0))
  | sections, .number n =>
    if f.hasConditions then chooseByCondition sections n
    else (chooseBySign sections.length n).map some

def select (f : Format) (v : CellValue) : Except Fault (Option Section) :=
  (f.choose v).map fun i => i.bind fun i => f.sections[i]?

end Format

inductive Verdict
  /-- A section applies to it. -/
  | applies (s : Section)
  /-- No section is for it. -/
  | unmatched
  /-- The section for it has a condition that rejects it. -/
  | rejected (c : Condition)
deriving Repr

/-- What becomes of a value under a format. The condition of the section for a value has the last
word. -/
def Format.verdict (f : Format) (v : CellValue) : Except Fault Verdict := do
  match ← f.select v with
  | none => pure .unmatched
  | some s =>
    match s.condition with
    | none => pure (.applies s)
    | some c => if ← c.accepts v.toValue then pure (.applies s) else pure (.rejected c)

end FormatCode
