/-!
# Kinds of node

Tokens, the parts of a section, sections and formats are all nodes: a kind, and a value for each
field that the kind has. Placeholders among them stand for a digit, and parts know what they show
when the digits run out.

## Main definitions

* `NodeKind` — the kinds.
* `NodeKind.name`, `NodeKind.fieldNames` — what a kind and its fields are called.
* `NodeKind.isA`, `NodeKind.comparesFields` — the general kinds, and what they mean for equality.
* `NodeKind.isPlaceholder?`, `NodeKind.pad?` — the attributes that tokens and parts share.
-/

namespace FormatCode

/-- The kind of a node. The first three are the general ones. -/
inductive NodeKind
  | node | token | part
  | sectionSeparator | decimalPoint | thousandSep | percentMark | textPlaceholder
  | placeholder | literal | escape | fill | space | color | conditionToken | quoted | locale
  | scientific | dateToken
  | condition
  | digit | zeroDigit | spaceDigit | percent | dot | literalPart
  | formatSection | format
deriving DecidableEq, Repr

namespace NodeKind

def all : List NodeKind := [
  .node, .token, .part, .sectionSeparator, .decimalPoint, .thousandSep, .percentMark,
  .textPlaceholder, .placeholder, .literal, .escape, .fill, .space, .color, .conditionToken,
  .quoted, .locale, .scientific, .dateToken, .condition, .digit, .zeroDigit, .spaceDigit,
  .percent, .dot, .literalPart, .formatSection, .format]

def name : NodeKind → String
  | node => "Node"
  | token => "Token"
  | part => "Part"
  | sectionSeparator => "SectionSeparator"
  | decimalPoint => "DecimalPoint"
  | thousandSep => "ThousandSep"
  | percentMark => "PercentMark"
  | textPlaceholder => "TextPlaceholder"
  | placeholder => "Placeholder"
  | literal => "Literal"
  | escape => "Escape"
  | fill => "Fill"
  | space => "Space"
  | color => "Color"
  | conditionToken => "ConditionToken"
  | quoted => "Quoted"
  | locale => "Locale"
  | scientific => "Scientific"
  | dateToken => "DateToken"
  | condition => "Condition"
  | digit => "Digit"
  | zeroDigit => "ZeroDigit"
  | spaceDigit => "SpaceDigit"
  | percent => "Percent"
  | dot => "Dot"
  | literalPart => "LiteralPart"
  | formatSection => "Section"
  | format => "FormatAST"

def ofName? (s : String) : Option NodeKind := all.find? (·.name == s)

def fieldNames : NodeKind → List String
  | placeholder | literal | escape | fill | space | literalPart => ["char"]
  | color => ["name"]
  | conditionToken => ["operator", "value"]
  | quoted => ["text"]
  | locale => ["raw"]
  | scientific => ["sign"]
  | dateToken => ["pattern"]
  | condition => ["operator", "threshold"]
  | formatSection =>
    ["condition", "color", "parts", "percent_count", "thousand_separator", "scale", "scientific"]
  | format => ["sections"]
  | _ => []

def isToken : NodeKind → Bool
  | token | sectionSeparator | decimalPoint | thousandSep | percentMark | textPlaceholder
  | placeholder | literal | escape | fill | space | color | conditionToken | quoted | locale
  | scientific | dateToken => true
  | _ => false

def isPart : NodeKind → Bool
  | part | digit | zeroDigit | spaceDigit | percent | dot | literalPart => true
  | _ => false

/-- Whether a node of a kind is a node of another kind too: of the same, or of a general one. -/
def isA (k : NodeKind) : NodeKind → Bool
  | node => true
  | token => k.isToken
  | part => k.isPart
  | l => k == l

/-- Whether nodes of two kinds are compared field by field. The second node is asked if its kind is
the more special one, and otherwise the first: whether the other is a node of its own kind too. -/
def comparesFields (k l : NodeKind) : Bool := if l != k && l.isA k then k.isA l else l.isA k

def isPlaceholder? (k : NodeKind) : Option Bool :=
  if k.isToken then some (k == .placeholder)
  else if k.isPart then some (k == .digit || k == .zeroDigit || k == .spaceDigit)
  else none

def pad? : NodeKind → Option String
  | zeroDigit => some "0"
  | spaceDigit => some " "
  | k => if k.isPart then some "" else none

/-- Kinds of which each is the other are one. -/
theorem eq_of_isA {k l : NodeKind} (h : l.isA k) (h' : k.isA l) : k = l := by
  cases k <;>
    first
      | exact (beq_iff_eq.mp h).symm
      | cases l <;> first | rfl | simp [isA, isToken, isPart] at h h'

/-- Only nodes of one kind are compared field by field, in whatever order: of a general kind and a
special one, it is always the special one that decides. -/
@[simp] theorem comparesFields_iff {k l : NodeKind} : k.comparesFields l ↔ k = l := by
  refine ⟨fun h => ?_, ?_⟩
  · rw [comparesFields] at h
    split at h
    · next hspecial =>
      rw [Bool.and_eq_true] at hspecial
      exact eq_of_isA hspecial.2 h
    · next hspecial =>
      rw [h, Bool.and_true, bne_iff_ne, Decidable.not_not] at hspecial
      exact hspecial.symm
  · rintro rfl
    cases k <;> rfl

@[simp] theorem ofName?_name (k : NodeKind) : ofName? k.name = some k := by
  cases k <;> decide

end NodeKind

end FormatCode
