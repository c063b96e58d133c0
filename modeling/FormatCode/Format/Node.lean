import FormatCode.Format.Basic
import FormatCode.Token.Node
import FormatCode.Value.Access

/-!
# Formats as nodes

Parts, conditions, sections and formats are nodes. The fields of a node made by hand may hold other
values, and those that are not given hold what they do by default.

## Main definitions

* `Format.toValue` — the node of a format.
* `Part.ofValue?` — the part of a node.
* `NodeKind.default` — what a field holds that is not given.
* `Value.ofFields` — a node with some fields given.
-/

namespace FormatCode

namespace Part

def toValue : Part → Value
  | blank => .node .part []
  | placeholder .digit => .node .digit []
  | placeholder .zero => .node .zeroDigit []
  | placeholder .space => .node .spaceDigit []
  | percent => .node .percent []
  | point => .node .dot []
  | literal text => .node .literalPart [.text text]

def ofValue? : Value → Option Part
  | .node .part [] => some .blank
  | .node .digit [] => some (.placeholder .digit)
  | .node .zeroDigit [] => some (.placeholder .zero)
  | .node .spaceDigit [] => some (.placeholder .space)
  | .node .percent [] => some .percent
  | .node .dot [] => some .point
  | .node .literalPart [.text text] => some (.literal text)
  | _ => none

end Part

def Condition.toValue (c : Condition) : Value := .node .condition [.text c.operator, c.threshold]

def Section.toValue (s : Section) : Value :=
  .node .formatSection [
    s.condition.elim .null Condition.toValue,
    .textOrNull s.color,
    .tuple (s.parts.map Part.toValue),
    .int s.percentCount,
    .bool s.grouped,
    .int s.scale,
    .textOrNull s.scientific]

def Format.toValue (f : Format) : Value := .node .format [.tuple (f.sections.map Section.toValue)]

def Value.isPoint : Value → Bool
  | .node .dot _ => true
  | _ => false

/-! ## Nodes made by hand -/

/-- What a field holds that is not given. -/
def NodeKind.default : (field : String) → Value
  | "parts" => .tuple []
  | "percent_count" => .int 0
  | "thousand_separator" => .bool false
  | "scale" => .int 1
  | _ => .null

def Value.ofFields (kind : NodeKind) (given : List (String × Value)) : Value :=
  .node kind (kind.fieldNames.map fun name => (given.lookup name).getD (NodeKind.default name))

end FormatCode
