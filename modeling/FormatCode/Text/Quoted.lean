import FormatCode.Unicode.Printable

/-!
# Quoted text

The written form of a piece of text: the text between two quotes, with the quote in use, the
backslash and the characters that are not shown written as escapes. Which characters are shown is a
parameter, so that the escaping rules stand apart from any table of characters.

## Main definitions

* `Quoted.delimiter` — the quote that encloses a text.
* `Quoted.escape` — how one character is written between the quotes.
* `Quoted.encode` — the written form.
* `quote` — the written form of a string, with the printable characters shown as they are.
-/

namespace FormatCode

namespace Quoted

/-- The single quote, except around a text that holds single quotes and no double ones. -/
def delimiter (text : List Char) : Char :=
  if text.contains '\x27' && !text.contains '\x22' then '\x22' else '\x27'

def hex : (width n : Nat) → List Char
  | 0, _ => []
  | width + 1, n => hex width (n / 16) ++ [Nat.digitChar (n % 16)]

def escape (printable : Char → Bool) (quoteMark c : Char) : List Char :=
  if c = quoteMark ∨ c = '\\' then ['\\', c]
  else if c = '\n' then ['\\', 'n']
  else if c = '\r' then ['\\', 'r']
  else if c = '\t' then ['\\', 't']
  else if printable c then [c]
  else if c.toNat < 0x100 then '\\' :: 'x' :: hex 2 c.toNat
  else if c.toNat < 0x10000 then '\\' :: 'u' :: hex 4 c.toNat
  else '\\' :: 'U' :: hex 8 c.toNat

def encode (printable : Char → Bool) (text : List Char) : List Char :=
  delimiter text :: text.flatMap (escape printable (delimiter text)) ++ [delimiter text]

@[simp] theorem length_hex (width n : Nat) : (hex width n).length = width := by
  induction width generalizing n with
  | zero => rfl
  | succ width ih => simp [hex, ih]

end Quoted

def quote (s : String) : String := String.ofList (Quoted.encode Unicode.isPrintable s.toList)

example : quote "it\x27s" = "\x22it\x27s\x22" := by decide
example : quote "a\n" = "'a\\n'" := by decide

end FormatCode
