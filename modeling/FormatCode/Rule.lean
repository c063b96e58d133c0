import FormatCode.Value.Basic

/-!
# Cutting a text by rules

A text is cut from left to right by a list of rules. At each position the first rule that matches
there decides, whatever the others would match. Where no rule matches, or the first that does takes
nothing, the text is not cut any further, and the scan never comes to an end.

## Main definitions

* `CharClass`, `Rule` — what a rule matches.
* `Rule.width?` — how many characters a rule matches at the beginning of a text.
* `Rule.firstMatch?` — the first of some rules that matches.
* `Rule.scan` — the pieces of a text, each with the position of its rule.
-/

namespace FormatCode

structure CharClass where
  /-- Whether a character belongs to the class. -/
  contains : Char → Bool

namespace CharClass

def digit : CharClass := ⟨fun c => '0' ≤ c && c ≤ '9'⟩

def lower : CharClass := ⟨fun c => 'a' ≤ c && c ≤ 'z'⟩

def space : CharClass := ⟨fun c => c == ' ' || c == '\t' || c == '\n'⟩

def any : CharClass := ⟨fun _ => true⟩

end CharClass

/-- A rule matches a given text, one character of a class, or as many as there are but at least one.
-/
inductive Rule
  | text (s : List Char)
  | one (chars : CharClass)
  | many (chars : CharClass)

namespace Rule

def width? : Rule → List Char → Option Nat
  | text s, input => if s.isPrefixOf input then some s.length else none
  | one chars, input => if input.head?.any chars.contains then some 1 else none
  | many chars, input =>
    if input.head?.any chars.contains then some (input.takeWhile chars.contains).length else none

def firstMatch? : List Rule → List Char → Option (Nat × Nat)
  | [], _ => none
  | rule :: rules, input =>
    match rule.width? input with
    | some width => some (0, width)
    | none => (firstMatch? rules input).map fun (i, width) => (i + 1, width)

/-- The pieces of a text after its first `skipped` characters, if the scan comes to an end. -/
def scanAfter (rules : List Rule) :
    (skipped : Nat) → List Char → Option (List (Nat × List Char))
  | _, [] => some []
  | skipped + 1, _ :: rest => scanAfter rules skipped rest
  | 0, c :: rest =>
    match firstMatch? rules (c :: rest) with
    | some (i, width + 1) =>
      (scanAfter rules width rest).map fun pieces => (i, (c :: rest).take (width + 1)) :: pieces
    | some (_, 0) | none => none

def scan (rules : List Rule) (s : List Char) : Option (List (Nat × List Char)) :=
  scanAfter rules 0 s

/-- The pieces of a value that has to be text. Where the scan does not come to an end there are
none. -/
def scanValue (rules : List Rule) (source : Value) : Except Fault (List (Nat × List Char)) :=
  source.toText.map fun s => (scan rules s.toList).getD []

theorem scanAfter_eq (rules : List Rule) (skipped : Nat) (s : List Char) :
    scanAfter rules skipped s = scan rules (s.drop skipped) := by
  induction skipped generalizing s with
  | zero => rfl
  | succ n ih =>
    cases s with
    | nil => rfl
    | cons c rest => exact ih rest

theorem scan_nil (rules : List Rule) : scan rules [] = some [] := rfl

example : scan [.many .digit, .text ['a', 'b'], .one .any] "12ab3".toList =
    some [(0, ['1', '2']), (1, ['a', 'b']), (0, ['3'])] := by decide

end Rule

end FormatCode
