import FormatCode.Token.Lexeme
import FormatCode.Token.Threshold

/-!
# Tokens of a format

Tokens say what each lexeme of a format means. A bracket holds a condition, the name of a color, or
anything else, which has no effect and is put on record.

## Main definitions

* `Token` — the tokens.
* `Token.ofLexeme` — what a lexeme means.
* `tokenize` — the tokens of a format.
* `inertBrackets` — the contents of the brackets without effect, as they are met.
* `colors` — the names of colors.
-/

namespace FormatCode

def colors : List String :=
  ["Black", "Blue", "Cyan", "Green", "Magenta", "Red", "White", "Yellow"]

/-- A directive of a format. Tokens that are made by hand may hold what no format spells: texts of
any length, colors and signs that are missing, and placeholders that do not exist. -/
inductive Token
  /-- A token without a meaning. -/
  | bare
  | sectionSeparator
  | decimalPoint
  | thousandSep
  | percentMark
  | textPlaceholder
  | placeholder (mark : String)
  | literal (text : String)
  | escape (text : String)
  | fill (text : String)
  | space (text : String)
  | color (name : Option String)
  | condition (operator : String) (threshold : Value)
  | quoted (text : String)
  | locale (raw : String)
  | scientific (sign : Option String)
  | date (pattern : String)
deriving Repr

namespace Token

def isPlaceholder : Token → Bool
  | placeholder _ => true
  | _ => false

def ofBracket (content : List Char) : Except Fault Token :=
  match readCondition? content with
  | some (c, threshold) => threshold.value.map (.condition c.symbol)
  | none =>
    if colors.contains (String.ofList content) then .ok (.color (String.ofList content))
    else .ok (.locale (String.ofList content))

def ofLexeme : Lexeme → Except Fault Token
  | .separator => .ok .sectionSeparator
  | .quoted text _ => .ok (.quoted (String.ofList text))
  | .escape char => .ok (.escape (String.ofList char.toList))
  | .fill char => .ok (.fill (String.ofList char.toList))
  | .space char => .ok (.space (String.ofList char.toList))
  | .bracket content _ => ofBracket content
  | .placeholder p => .ok (.placeholder (String.ofList [p.mark]))
  | .point => .ok .decimalPoint
  | .comma => .ok .thousandSep
  | .percent => .ok .percentMark
  | .scientific _ sign => .ok (.scientific (String.ofList [sign]))
  | .atSign => .ok .textPlaceholder
  | .date pattern => .ok (.date pattern)
  | .literal char => .ok (.literal (String.ofList [char]))

end Token

/-- The tokens of a format. A bracket whose numeral is too long makes the whole format a fault. -/
def tokenize (format : String) : Except Fault (List Token) :=
  (Lexeme.scan format.toList).mapM Token.ofLexeme

/-- The contents of the brackets that have no effect, up to a bracket that is a fault. -/
def inertBrackets (format : String) : List String :=
  ((Lexeme.scan format.toList).map Token.ofLexeme).takeWhile (·.isOk) |>.filterMap fun
    | .ok (.locale raw) => some raw
    | _ => none

end FormatCode
