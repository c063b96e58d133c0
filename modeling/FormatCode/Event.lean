import FormatCode.Format.Display
import FormatCode.Format.Node
import FormatCode.Value.Printer

/-!
# Events on record

What happens silently while a format is read or a value is shown is put on record: a bracket without
effect, and a value that is shown as it is because no section applies to it.

## Main definitions

* `Event` — the events.
* `Event.message` — what is recorded for each.
* `Format.events` — the events of showing a value.
-/

namespace FormatCode

inductive Event
  /-- A bracket holds neither a condition nor a color. -/
  | inertBracket (content : String)
  /-- No section is for a value. -/
  | unmatched (value : CellValue)
  /-- The section for a value has a condition that rejects it. -/
  | rejected (condition : Condition) (value : CellValue)
deriving Repr

namespace Event

def message : Event → Except Fault (List Char)
  | inertBracket content => do
    pure ("Treating bracket content ".toList ++ (← (Value.text content).write) ++
      " as an inert locale code".toList)
  | unmatched value => do
    pure ("No section matches ".toList ++ (← value.toValue.write) ++
      "; rendering it as plain text".toList)
  | rejected condition value => do
    pure ("Condition ".toList ++ (← condition.toValue.write) ++ " rejects ".toList ++
      (← value.toValue.write) ++ "; rendering it as plain text".toList)

end Event

def Verdict.events (v : CellValue) : Verdict → List Event
  | .applies _ => []
  | .unmatched => [.unmatched v]
  | .rejected c => [.rejected c v]

def Format.events (f : Format) (v : Value) : List Event :=
  match v.toCell with
  | .error _ => []
  | .ok cell =>
    match f.verdict cell with
    | .error _ => []
    | .ok verdict => verdict.events cell

end FormatCode
