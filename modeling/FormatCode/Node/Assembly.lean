import FormatCode.Format.Node
import FormatCode.Text.Quoted

/-!
# Formats from tokens made by hand

Tokens made by hand may hold values that no format spells, and may stand among values that are no
tokens at all. A format is assembled from them all the same: what a token holds goes where it
belongs, whatever it is, and a value that is no token adds nothing. Only a comma looks at its
neighbours, which have to tell whether they stand for a digit, and a placeholder has to be one of
the three.

## Main definitions

* `Assembly` — the sections that are finished and the one at hand, as nodes.
* `Assembly.add` — what a value does to an assembly.
* `Value.assemble` — the node of the format of a sequence of values.
-/

namespace FormatCode

/-- The sections finished so far, and the fields and parts of the section at hand. -/
structure Assembly where
  finished : Array Value := #[]
  condition : Value := .null
  color : Value := .null
  parts : Array Value := #[]
  percentCount : Nat := 0
  grouped : Bool := false
  scale : Nat := 1
  scientific : Value := .null

namespace Assembly

def push (a : Assembly) (kind : NodeKind) (fields : List Value) : Assembly :=
  { a with parts := a.parts.push (.node kind fields) }

def pushLiterals (a : Assembly) (chars : List Value) : Assembly :=
  chars.foldl (fun a char => a.push .literalPart [char]) a

def atHand (a : Assembly) : Value :=
  .node .formatSection [a.condition, a.color, .tuple a.parts.toList, .int a.percentCount,
    .bool a.grouped, .int a.scale, a.scientific]

def finish (a : Assembly) : Assembly := { finished := a.finished.push a.atHand }

/-- Whether a neighbour of a comma stands for a digit. A missing one does not. -/
def standsForDigit (neighbour : Value) : Except Fault Bool :=
  if neighbour.isNull then .ok false else neighbour.isPlaceholder

def addComma (a : Assembly) (before : Value) (after : List Value) : Except Fault Assembly := do
  if ← standsForDigit before then
    if ← standsForDigit (after.headD .null) then pure { a with grouped := true }
    else if ← after.anyM Value.isPlaceholder then pure a
    else pure { a with scale := a.scale * 1000 }
  else match before with
    | .node .literal _ => pure (a.push .literalPart [.text ","])
    | _ => pure a

def partKind : Placeholder → NodeKind
  | .digit => .digit
  | .zero => .zeroDigit
  | .space => .spaceDigit

def add (a : Assembly) (before : Value) (after : List Value) : Value → Except Fault Assembly
  | .node .color [name] => .ok { a with color := name }
  | .node .conditionToken [operator, threshold] =>
    .ok { a with condition := .node .condition [operator, threshold] }
  | .node .sectionSeparator _ => .ok a.finish
  | .node .decimalPoint _ => .ok (a.push .dot [])
  | .node .percentMark _ => .ok ({ a with percentCount := a.percentCount + 1 }.push .percent [])
  | .node .scientific [sign] => .ok { a with scientific := sign }
  | .node .literal [text] | .node .escape [text] =>
    .ok (if text.countsAsTrue then a.pushLiterals [text] else a)
  | .node .quoted [text] => text.iterate.map a.pushLiterals
  | .node .placeholder [mark] =>
    (mark.lookUp Placeholder.ofMark? .unknownPlaceholder).map fun p => a.push (partKind p) []
  | .node .thousandSep _ => a.addComma before after
  | _ => .ok a

def addAll (a : Assembly) (before : Value) : List Value → Except Fault Assembly
  | [] => .ok a
  | v :: rest => do (← a.add before rest v).addAll v rest

/-- The format of an assembly as a node, without a last section that has no parts. -/
def format (a : Assembly) : Value :=
  .node .format [.tuple (if a.parts.isEmpty then a else a.finish).finished.toList]

end Assembly

def Value.assemble (tokens : Value) : Except Fault Value := do
  (({} : Assembly).addAll .null (← tokens.iterate)).map Assembly.format

end FormatCode
