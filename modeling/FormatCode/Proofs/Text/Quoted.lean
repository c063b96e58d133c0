import FormatCode.Text.Quoted
import Mathlib.Data.List.Basic
import Mathlib.Tactic.IntervalCases
import Mathlib.Tactic.Lemma

/-!
# Reading quoted text

A text between quotes can be read again, whichever characters are shown as they are: an escape tells
its character and where it ends, and the quote that encloses the text stands in it only as part of
an escape. So no text that is written between quotes begins like another one.

## Main definitions

* `Quoted.hexValue`, `Quoted.unescape` — what hexadecimal digits and escapes stand for.

## Main statements

* `Quoted.unescape_escape` — an escape is read as the character that is written.
* `Quoted.encode_append_inj` — a written text tells the text and where it ends.
-/

namespace FormatCode.Quoted

variable {printable : Char → Bool} {quoteMark c : Char} {n : Nat}

/-! ## Hexadecimal digits -/

def hexDigitValue (c : Char) : Nat := if c.isDigit then c.toNat - 48 else c.toNat - 87

def hexValue (ds : List Char) : Nat := ds.foldl (fun n c => 16 * n + hexDigitValue c) 0

lemma hexDigitValue_digitChar (h : n < 16) : hexDigitValue (Nat.digitChar n) = n := by
  interval_cases n <;> rfl

lemma hexValue_hex (width n : Nat) : hexValue (hex width n) = n % 16 ^ width := by
  induction width generalizing n with
  | zero => exact (Nat.mod_one n).symm
  | succ width ih =>
    have hlast : n % 16 < 16 := Nat.mod_lt n (by decide)
    have hdigits : hexValue (hex (width + 1) n) = 16 * (n / 16 % 16 ^ width) + n % 16 := by
      rw [hex, hexValue, List.foldl_append]
      change 16 * hexValue (hex width (n / 16)) + hexDigitValue _ = _
      rw [ih, hexDigitValue_digitChar hlast]
    rw [hdigits, pow_succ', Nat.mod_mul, Nat.add_comm]

/-! ## Escapes -/

/-- The character that a backslash and some text after it stand for, and what follows. -/
def unescapeMark : List Char → Option (Char × List Char)
  | 'n' :: rest => some ('\n', rest)
  | 'r' :: rest => some ('\r', rest)
  | 't' :: rest => some ('\t', rest)
  | 'x' :: rest => some (Char.ofNat (hexValue (rest.take 2)), rest.drop 2)
  | 'u' :: rest => some (Char.ofNat (hexValue (rest.take 4)), rest.drop 4)
  | 'U' :: rest => some (Char.ofNat (hexValue (rest.take 8)), rest.drop 8)
  | c :: rest => some (c, rest)
  | [] => none

def unescape : List Char → Option (Char × List Char)
  | c :: rest => if c = '\\' then unescapeMark rest else some (c, rest)
  | [] => none

/-- Hexadecimal digits that are enough for a character are read as the character. -/
lemma hexChar_hex (width : Nat) (h : c.toNat < 16 ^ width) (rest : List Char) :
    (Char.ofNat (hexValue ((hex width c.toNat ++ rest).take width)),
      (hex width c.toNat ++ rest).drop width) = (c, rest) := by
  have hlength := length_hex width c.toNat
  rw [List.take_left' hlength, List.drop_left' hlength, hexValue_hex, Nat.mod_eq_of_lt h,
    Char.ofNat_toNat]

/-- An escape is read as the character that is written, whatever follows. -/
theorem unescape_escape (hquote : quoteMark = '\x27' ∨ quoteMark = '\x22') (c : Char)
    (rest : List Char) : unescape (escape printable quoteMark c ++ rest) = some (c, rest) := by
  unfold escape
  split_ifs with hmark hn hr ht _ hx hu
  · obtain rfl | rfl := hmark
    · obtain rfl | rfl := hquote <;> rfl
    · rfl
  · rw [hn]; rfl
  · rw [hr]; rfl
  · rw [ht]; rfl
  · exact if_neg fun hc => hmark (.inr hc)
  · exact congrArg some (hexChar_hex 2 hx rest)
  · exact congrArg some (hexChar_hex 4 hu rest)
  · exact congrArg some (hexChar_hex 8 c.val.toNat_lt rest)

/-- No escape begins with the quote that encloses the text. -/
lemma escape_append_ne (hquote : quoteMark = '\x27' ∨ quoteMark = '\x22') (c : Char)
    (rest after : List Char) : escape printable quoteMark c ++ rest ≠ quoteMark :: after := by
  have hbackslash : '\\' ≠ quoteMark := by obtain rfl | rfl := hquote <;> decide
  unfold escape
  split_ifs with hmark <;> intro heq <;> have hhead := (List.cons.inj heq).1
  -- Only a character that is shown as it is does not begin with a backslash.
  all_goals first | exact hbackslash hhead | exact hmark (.inl hhead)

/-! ## Written texts -/

lemma delimiter_eq (s : List Char) : delimiter s = '\x27' ∨ delimiter s = '\x22' := by
  unfold delimiter
  split
  · exact .inr rfl
  · exact .inl rfl

/-- Escapes tell the text that they stand for and where the closing quote is. -/
lemma escapes_append_inj (hquote : quoteMark = '\x27' ∨ quoteMark = '\x22') {s t after after' :
    List Char} (h : s.flatMap (escape printable quoteMark) ++ quoteMark :: after =
      t.flatMap (escape printable quoteMark) ++ quoteMark :: after') : s = t ∧ after = after' := by
  induction s generalizing t with
  | nil =>
    cases t with
    | nil => exact ⟨rfl, (List.cons.inj h).2⟩
    | cons d t =>
      rw [List.flatMap_cons, List.append_assoc] at h
      exact absurd h.symm (escape_append_ne hquote d _ _)
  | cons c s ih =>
    cases t with
    | nil =>
      rw [List.flatMap_cons, List.append_assoc] at h
      exact absurd h (escape_append_ne hquote c _ _)
    | cons d t =>
      rw [List.flatMap_cons, List.append_assoc, List.flatMap_cons, List.append_assoc] at h
      have hread := congrArg unescape h
      rw [unescape_escape hquote, unescape_escape hquote] at hread
      obtain ⟨rfl, hrest⟩ := Prod.mk.inj (Option.some.inj hread)
      obtain ⟨rfl, hafter⟩ := ih hrest
      exact ⟨rfl, hafter⟩

/-- A text that is written between quotes tells the text and where it ends. -/
theorem encode_append_inj {s t after after' : List Char}
    (h : encode printable s ++ after = encode printable t ++ after') : s = t ∧ after = after' := by
  simp only [encode, List.cons_append, List.append_assoc, List.nil_append, List.cons.injEq] at h
  obtain ⟨hdelimiter, h⟩ := h
  rw [← hdelimiter] at h
  exact escapes_append_inj (delimiter_eq s) h

end FormatCode.Quoted
