import FormatCode.Placeholder

/-!
# Lexemes of a format

A format is cut into lexemes from left to right, and every text can be cut. Each lexeme covers at
least one character and knows the text that it covers, so the lexemes of a format spell the format.
Only at the end of a format may a quote or a bracket lack its closing mark, or a mark the character
that it announces.

## Main definitions

* `Lexeme` — the lexemes.
* `Lexeme.source` — the text that a lexeme covers.
* `Lexeme.first` — the lexeme at the beginning of a text.
* `Lexeme.scan` — the lexemes of a text.
* `datePatterns` — the date and time codes.
-/

namespace FormatCode

/-- The date and time codes, each after the longer ones that it begins. -/
def datePatterns : List String := [
  "yyyy", "yyy", "yy", "y",
  "mmmmm", "mmmm", "mmm", "mm", "m",
  "dddd", "ddd", "dd", "d",
  "hh", "h",
  "ss", "s",
  "AM/PM", "am/pm"]

inductive Lexeme
  /-- The mark between two sections. -/
  | separator
  /-- Text between quotes. -/
  | quoted (text : List Char) (closed : Bool)
  /-- A character to be shown as it is. -/
  | escape (char : Option Char)
  /-- A character to fill the width of a cell with. -/
  | fill (char : Option Char)
  /-- A character whose width is left blank. -/
  | space (char : Option Char)
  /-- A directive between brackets. -/
  | bracket (content : List Char) (closed : Bool)
  | placeholder (p : Placeholder)
  | point
  | comma
  | percent
  /-- The mark of an exponent, with its sign. -/
  | scientific (mark sign : Char)
  /-- The place of a text. -/
  | atSign
  /-- A date or time code. -/
  | date (pattern : String)
  /-- Any other character. -/
  | literal (char : Char)
deriving DecidableEq, Repr

namespace Lexeme

/-! ## The text that a lexeme covers -/

def double : List Char → List Char
  | [] => []
  | c :: rest => if c = '\x22' then c :: c :: double rest else c :: double rest

def source : Lexeme → List Char
  | separator => [';']
  | quoted text closed => '\x22' :: double text ++ if closed then ['\x22'] else []
  | escape char => '\\' :: char.toList
  | fill char => '*' :: char.toList
  | space char => '_' :: char.toList
  | bracket content closed => '[' :: content ++ if closed then [']'] else []
  | placeholder p => [p.mark]
  | point => ['.']
  | comma => [',']
  | percent => ['%']
  | scientific mark sign => [mark, sign]
  | atSign => ['@']
  | date pattern => pattern.toList
  | literal char => [char]

/-! ## Cutting a text -/

/-- The text up to the closing quote, and whether there is one. A doubled quote stands for one. -/
def readQuoted : List Char → List Char × Bool
  | [] => ([], false)
  | '\x22' :: '\x22' :: rest => ('\x22' :: (readQuoted rest).1, (readQuoted rest).2)
  | '\x22' :: _ => ([], true)
  | c :: rest => (c :: (readQuoted rest).1, (readQuoted rest).2)

def datePattern? (s : List Char) : Option String :=
  datePatterns.find? fun pattern => pattern.toList.isPrefixOf s

/-- The lexeme that begins with a letter or another character without a meaning of its own. -/
def firstWord (c : Char) (rest : List Char) : Lexeme :=
  match datePattern? (c :: rest) with
  | some pattern => .date pattern
  | none => .literal c

def firstExponent (c : Char) (rest : List Char) : Lexeme :=
  match rest with
  | '+' :: _ => .scientific c '+'
  | '-' :: _ => .scientific c '-'
  | _ => firstWord c rest

def first (c : Char) (rest : List Char) : Lexeme :=
  match c with
  | ';' => .separator
  | '\x22' => .quoted (readQuoted rest).1 (readQuoted rest).2
  | '\\' => .escape rest.head?
  | '*' => .fill rest.head?
  | '_' => .space rest.head?
  | '[' => .bracket (rest.takeWhile (· != ']')) (rest.contains ']')
  | '0' => .placeholder .zero
  | '#' => .placeholder .digit
  | '?' => .placeholder .space
  | '.' => .point
  | ',' => .comma
  | '%' => .percent
  | 'E' => firstExponent 'E' rest
  | 'e' => firstExponent 'e' rest
  | '@' => .atSign
  | c => firstWord c rest

/-- The lexemes of a text after its first `skipped` characters. The characters that a lexeme covers
after its first are skipped. -/
def scanAfter : (skipped : Nat) → List Char → List Lexeme
  | _, [] => []
  | 0, c :: rest => first c rest :: scanAfter ((first c rest).source.length - 1) rest
  | skipped + 1, _ :: rest => scanAfter skipped rest

def scan (s : List Char) : List Lexeme := scanAfter 0 s

theorem scanAfter_eq (skipped : Nat) (s : List Char) :
    scanAfter skipped s = scan (s.drop skipped) := by
  induction skipped generalizing s with
  | zero => rfl
  | succ n ih => cases s with
    | nil => rfl
    | cons c rest => exact ih rest

theorem scan_nil : scan [] = [] := rfl

theorem scan_cons (c : Char) (rest : List Char) :
    scan (c :: rest) =
      first c rest :: scan (rest.drop ((first c rest).source.length - 1)) := by
  rw [scan, scanAfter, scanAfter_eq]

example : scan "0\"a\"\"b\";[Red".toList =
    [.placeholder .zero, .quoted ['a', '\x22', 'b'] true, .separator,
      .bracket ['R', 'e', 'd'] false] := by decide

end Lexeme

end FormatCode
