import FormatCode.Proofs.Numeral.Digits
import FormatCode.Proofs.Threshold.Grammar
import FormatCode.Proofs.Token.Reading

/-!
# Spelling tokens

Most tokens can be spelled so that they are read back whatever stands around them: a character that
is escaped needs no quotes, and a bracket is closed. So tokens that are spelled one after the other
are read back one by one.

## Main definitions

* `Token.spell` — the text of a token.
* `Token.Spellable` — the tokens whose text is read as the token.

## Main statements

* `Token.ofBracket_condition` — the bracket of a condition is read as the condition.
* `tokenize_spell` — tokens are read back from their texts.
-/

namespace FormatCode

/-! ## Conditions -/

namespace Numeral

/-- An integer is written with digits, after a minus sign at most. -/
lemma isDigit_or_minus {i : Int} {c : Char} (h : c ∈ signed i) : c.isDigit ∨ c = '-' := by
  cases i with
  | ofNat n => exact .inl (plain_digits n c h)
  | negSucc n =>
    obtain rfl | h := List.mem_cons.mp h
    · exact .inr rfl
    · exact .inl (plain_digits _ c h)

end Numeral

namespace Threshold

/-- An integer is a numeral of the threshold that has its sign and its digits. -/
theorem isWritten_signed (i : Int) :
    IsWritten ⟨decide (i < 0), Numeral.digits i.natAbs, none⟩ (Numeral.signed i) := by
  have hdigit : ∀ c ∈ Numeral.digits i.natAbs, Unicode.isDigit c :=
    fun c hc => Unicode.isDigit_of_isDigit (Numeral.plain_digits _ c hc)
  refine ⟨⟨Numeral.digits_ne_nil _, hdigit, by simp, by simp⟩, ?_⟩
  cases i with
  | ofNat n => simp [unsigned, Numeral.signed]
  | negSucc n => simp [unsigned, Numeral.signed, Int.negSucc_lt_zero]

lemma value_signed {i : Int} (h : Numeral.digitCount i.natAbs ≤ Numeral.maxDigits) :
    value ⟨decide (i < 0), Numeral.digits i.natAbs, none⟩ = .ok (.int i) := by
  have hi : (if i < 0 then -(i.natAbs : Int) else i.natAbs) = i := by omega
  have hlength : (Numeral.digits i.natAbs).length ≤ Numeral.maxDigits := h
  simpa [value, hlength] using hi

end Threshold

namespace Token

/-- The bracket of a condition is read as the condition. -/
theorem ofBracket_condition (c : Comparison) {i : Int}
    (h : Numeral.digitCount i.natAbs ≤ Numeral.maxDigits) :
    ofBracket (c.symbol.toList ++ Numeral.signed i) = .ok (.condition c.symbol (.int i)) := by
  have hread : readCondition? (c.symbol.toList ++ Numeral.signed i) =
      some (c, ⟨decide (i < 0), Numeral.digits i.natAbs, none⟩) :=
    readCondition?_eq_some_iff.mpr ⟨_, Threshold.isWritten_signed i, rfl⟩
  rw [ofBracket, hread]
  exact congrArg (Except.map (condition c.symbol)) (Threshold.value_signed h)

/-- A condition does not close the bracket that it stands in. -/
lemma bracket_notMem_condition (c : Comparison) (i : Int) :
    ']' ∉ c.symbol.toList ++ Numeral.signed i := by
  rw [List.mem_append, not_or]
  refine ⟨by cases c <;> decide, fun hmem => ?_⟩
  obtain hdigit | hminus := Numeral.isDigit_or_minus hmem
  · exact absurd hdigit (by decide)
  · exact absurd hminus (by decide)

/-! ## Tokens -/

/-- The text of a token; none for tokens that need not be spelled. -/
def spell : Token → List Char
  | sectionSeparator => [';']
  | decimalPoint => ['.']
  | thousandSep => [',']
  | percentMark => ['%']
  | placeholder mark => mark.toList
  | escape text => '\\' :: text.toList
  | color name => '[' :: (name.getD "").toList ++ [']']
  | condition operator (.int i) => '[' :: (operator.toList ++ Numeral.signed i) ++ [']']
  | scientific sign => 'E' :: (sign.getD "").toList
  | _ => []

inductive Spellable : Token → Prop
  | separator : Spellable .sectionSeparator
  | point : Spellable .decimalPoint
  | comma : Spellable .thousandSep
  | percent : Spellable .percentMark
  | placeholder (p : Placeholder) : Spellable (.placeholder (String.ofList [p.mark]))
  | escape (c : Char) : Spellable (.escape (String.ofList [c]))
  | color {name : String} : name ∈ colors → Spellable (.color (some name))
  | condition (c : Comparison) {i : Int} :
    Numeral.digitCount i.natAbs ≤ Numeral.maxDigits → Spellable (.condition c.symbol (.int i))
  | plus : Spellable (.scientific (some "+"))
  | minus : Spellable (.scientific (some "-"))

lemma ofBracket_color {name : String} (h : name ∈ colors) :
    ofBracket name.toList = .ok (.color (some name)) ∧ ']' ∉ name.toList := by
  simp only [colors, List.mem_cons, List.not_mem_nil, or_false] at h
  obtain rfl | rfl | rfl | rfl | rfl | rfl | rfl | rfl := h <;> exact ⟨rfl, by decide⟩

/-- A token that can be spelled is what a lexeme means that fits before any text. -/
theorem Spellable.exists_lexeme {t : Token} (h : t.Spellable) :
    ∃ l : Lexeme, l.source = t.spell ∧ ofLexeme l = .ok t ∧ ∀ rest, l.Fits rest := by
  cases h with
  | separator => exact ⟨.separator, rfl, rfl, fun _ => trivial⟩
  | point => exact ⟨.point, rfl, rfl, fun _ => trivial⟩
  | comma => exact ⟨.comma, rfl, rfl, fun _ => trivial⟩
  | percent => exact ⟨.percent, rfl, rfl, fun _ => trivial⟩
  | placeholder p => exact ⟨.placeholder p, by simp [Lexeme.source, spell], rfl, fun _ => trivial⟩
  | escape c =>
    exact ⟨.escape (some c), by simp [Lexeme.source, spell], rfl, fun _ => by simp [Lexeme.Fits]⟩
  | @color name hname =>
    have hbracket := ofBracket_color hname
    exact ⟨.bracket name.toList true, rfl, hbracket.1, fun _ => ⟨hbracket.2, by simp⟩⟩
  | @condition c i hi =>
    exact ⟨.bracket (c.symbol.toList ++ Numeral.signed i) true, rfl, ofBracket_condition c hi,
      fun _ => ⟨bracket_notMem_condition c i, by simp⟩⟩
  | plus => exact ⟨.scientific 'E' '+', rfl, rfl, fun _ => ⟨.inl rfl, .inl rfl⟩⟩
  | minus => exact ⟨.scientific 'E' '-', rfl, rfl, fun _ => ⟨.inl rfl, .inr rfl⟩⟩

end Token

/-- Tokens that can be spelled are read back from their texts, one after the other. -/
theorem tokenize_spell {ts : List Token} (h : ∀ t ∈ ts, t.Spellable) :
    tokenize (String.ofList (ts.flatMap Token.spell)) = .ok ts := by
  have hlexemes : ∃ ls, Lexeme.Spells ls (ts.flatMap Token.spell) ∧ Token.Reads ls ts := by
    induction ts with
    | nil => exact ⟨[], .nil, .nil⟩
    | cons t ts ih =>
      rw [List.forall_mem_cons] at h
      obtain ⟨l, hsource, hread, hfits⟩ := h.1.exists_lexeme
      obtain ⟨ls, hspells, hreads⟩ := ih h.2
      refine ⟨l :: ls, ?_, .cons hread hreads⟩
      rw [List.flatMap_cons, ← hsource]
      exact .cons (hfits _) hspells
  rw [tokenize_eq_ok_iff, String.toList_ofList]
  exact hlexemes

end FormatCode
