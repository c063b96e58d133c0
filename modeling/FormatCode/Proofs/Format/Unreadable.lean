import FormatCode.Proofs.Format.Pieces
import FormatCode.Proofs.Threshold.Grammar
import FormatCode.Proofs.Token.Joining

/-!
# Formats that cannot be read

Every text is cut into lexemes, and every lexeme but one kind means something: a bracket whose
condition compares with a whole number of more digits than can be read. What the lexemes mean makes
up a format whatever it is. So a text is a format unless it has such a bracket, and then the first
of them is the fault.

## Main definitions

* `Lexeme.IsTooLong` — a bracket with a whole number of too many digits.
* `IsUnreadable` — a text whose first such bracket has a given number of digits.

## Main statements

* `Token.ofLexeme_eq_error_iff` — only such a bracket means nothing.
* `parse_or_isUnreadable` — a text has tokens and is a format, or it is unreadable.
-/

namespace FormatCode

/-! ## Lexemes that mean nothing -/

/-- Whether a lexeme is a bracket whose condition compares with a whole number of so many digits,
more than can be read. -/
def Lexeme.IsTooLong (digits : Nat) : Lexeme → Prop
  | bracket content _ => ∃ (c : Comparison) (t : Threshold) (numeral : List Char),
      content = c.symbol.toList ++ numeral ∧ t.IsWritten numeral ∧ t.fraction = none ∧
        t.whole.length = digits ∧ Numeral.maxDigits < digits
  | _ => False

/-- Whether the first bracket of a text with a whole number that is too long has so many digits. -/
def IsUnreadable (digits : Nat) (format : String) : Prop :=
  ∃ before l after, Lexeme.scan format.toList = before ++ l :: after ∧ l.IsTooLong digits ∧
    ∀ l' ∈ before, ∀ n, ¬ l'.IsTooLong n

namespace Threshold

/-- Only a whole number of too many digits cannot be read. -/
lemma value_eq_error_iff {t : Threshold} {e : Fault} :
    t.value = .error e ↔ t.fraction = none ∧ Numeral.maxDigits < t.whole.length ∧
      e = .tooLongToRead t.whole.length := by
  unfold value
  cases t.fraction with
  | some ds => simp
  | none =>
    by_cases hlength : t.whole.length ≤ Numeral.maxDigits
    · simp [hlength, Nat.not_lt.mpr hlength]
    · simp [hlength, Nat.not_le.mp hlength, eq_comm]

end Threshold

namespace Token

lemma ofBracket_eq_error_iff {content : List Char} {e : Fault} :
    ofBracket content = .error e ↔ ∃ c t, readCondition? content = some (c, t) ∧
      t.value = .error e := by
  unfold ofBracket
  cases hread : readCondition? content with
  | none =>
    dsimp only
    split <;> simp
  | some condition =>
    obtain ⟨c, t⟩ := condition
    cases hvalue : t.value <;> simp [hvalue, Except.map]

/-- Only a bracket with a whole number of too many digits means nothing. -/
theorem ofLexeme_eq_error_iff {l : Lexeme} {e : Fault} :
    ofLexeme l = .error e ↔ ∃ digits, l.IsTooLong digits ∧ e = .tooLongToRead digits := by
  cases l with
  | bracket content closed =>
    rw [ofLexeme, ofBracket_eq_error_iff]
    constructor
    · rintro ⟨c, t, hread, hvalue⟩
      obtain ⟨numeral, hwritten, hcontent⟩ := readCondition?_eq_some_iff.mp hread
      obtain ⟨hfraction, hlength, rfl⟩ := Threshold.value_eq_error_iff.mp hvalue
      exact ⟨_, ⟨c, t, numeral, hcontent, hwritten, hfraction, rfl, hlength⟩, rfl⟩
    · rintro ⟨digits, ⟨c, t, numeral, hcontent, hwritten, hfraction, rfl, hlength⟩, rfl⟩
      exact ⟨c, t, readCondition?_eq_some_iff.mpr ⟨numeral, hwritten, hcontent⟩,
        Threshold.value_eq_error_iff.mpr ⟨hfraction, hlength, rfl⟩⟩
  | _ => simp [ofLexeme, Lexeme.IsTooLong]

lemma exists_ofLexeme_iff {l : Lexeme} :
    (∃ t, ofLexeme l = .ok t) ↔ ∀ digits, ¬ l.IsTooLong digits := by
  cases h : ofLexeme l with
  | ok t =>
    refine iff_of_true ⟨t, rfl⟩ fun digits hl => ?_
    cases h.symm.trans (ofLexeme_eq_error_iff.mpr ⟨digits, hl, rfl⟩)
  | error e =>
    obtain ⟨digits, hl, -⟩ := ofLexeme_eq_error_iff.mp h
    exact iff_of_false (by rintro ⟨t, ⟨⟩⟩) fun hnone => hnone digits hl

end Token

/-! ## Texts that have tokens -/

lemma tokenize_eq_error_iff {format : String} {e : Fault} :
    tokenize format = .error e ↔ ∃ digits, IsUnreadable digits format ∧
      e = .tooLongToRead digits := by
  rw [tokenize, mapM_eq_error_iff]
  constructor
  · rintro ⟨before, l, after, hscan, hbefore, hl⟩
    obtain ⟨digits, htoolong, rfl⟩ := Token.ofLexeme_eq_error_iff.mp hl
    exact ⟨digits, ⟨before, l, after, hscan, htoolong,
      fun l' hl' => Token.exists_ofLexeme_iff.mp (hbefore l' hl')⟩, rfl⟩
  · rintro ⟨digits, ⟨before, l, after, hscan, htoolong, hbefore⟩, rfl⟩
    exact ⟨before, l, after, hscan, fun l' hl' => Token.exists_ofLexeme_iff.mpr (hbefore l' hl'),
      Token.ofLexeme_eq_error_iff.mpr ⟨digits, htoolong, rfl⟩⟩

/-! ## Texts that are formats -/

namespace Draft

/-- A token that is known adds to a draft. -/
lemma exists_add_eq (d : Draft) (before : Option Token) (after : List Token) {t : Token}
    (hknown : t.IsKnown) : ∃ d', d.add before after t = .ok d' := by
  by_cases hseparator : t = .sectionSeparator
  · exact ⟨d.finish, by rw [hseparator, add]⟩
  · obtain ⟨d', hadd, -⟩ := d.add_of_isKnown before after hknown hseparator
    exact ⟨d', hadd⟩

lemma exists_addAll_eq {ts : List Token} (hknown : ∀ t ∈ ts, t.IsKnown) (d : Draft)
    (before : Option Token) : ∃ d', d.addAll before ts = .ok d' := by
  induction ts generalizing d before with
  | nil => exact ⟨d, rfl⟩
  | cons t ts ih =>
    rw [List.forall_mem_cons] at hknown
    obtain ⟨d', hadd⟩ := d.exists_add_eq before ts hknown.1
    rw [addAll, hadd]
    exact ih hknown.2 d' (some t)

end Draft

/-- Tokens that are known make up a format. -/
theorem Format.exists_ofTokens_eq {ts : List Token} (hknown : ∀ t ∈ ts, t.IsKnown) :
    ∃ f, ofTokens ts = .ok f := by
  obtain ⟨d, hd⟩ := Draft.exists_addAll_eq hknown {} none
  exact ⟨⟨d.sections⟩, by rw [ofTokens, hd]; rfl⟩

/-- A text has tokens and is a format unless one of its brackets has a whole number that is too long
to be read, and then the first of them is the fault. -/
theorem parse_or_isUnreadable (format : String) :
    (∃ ts f, tokenize format = .ok ts ∧ Format.parse format = .ok f ∧
      ∀ digits, ¬ IsUnreadable digits format) ∨
    ∃ digits, IsUnreadable digits format ∧ tokenize format = .error (.tooLongToRead digits) ∧
      Format.parse format = .error (.tooLongToRead digits) := by
  cases htokenize : tokenize format with
  | ok ts =>
    obtain ⟨f, hf⟩ := Format.exists_ofTokens_eq (isKnown_of_tokenize htokenize)
    refine .inl ⟨ts, f, rfl, by rw [Format.parse, htokenize]; exact hf, fun digits hdigits => ?_⟩
    cases htokenize.symm.trans (tokenize_eq_error_iff.mpr ⟨digits, hdigits, rfl⟩)
  | error e =>
    obtain ⟨digits, hdigits, rfl⟩ := tokenize_eq_error_iff.mp htokenize
    exact .inr ⟨digits, hdigits, rfl, by rw [Format.parse, htokenize]; rfl⟩

/-- A condition that compares with a whole number of too many digits is unreadable. -/
lemma isUnreadable_condition (c : Comparison) {ds : List Char}
    (hdigits : ∀ d ∈ ds, Unicode.isDigit d) (hlength : Numeral.maxDigits < ds.length) :
    IsUnreadable ds.length ("[" ++ c.symbol ++ String.ofList ds ++ "]") := by
  have hne : ds ≠ [] := List.ne_nil_of_length_pos (by omega)
  have hwritten : Threshold.IsWritten ⟨false, ds, none⟩ ds :=
    ⟨⟨hne, hdigits, by simp, by simp⟩, by simp [Threshold.unsigned]⟩
  have hfits : (Lexeme.bracket (c.symbol.toList ++ ds) true).Fits [] :=
    ⟨hwritten.bracket_notMem c, by simp⟩
  have hsource : ("[" ++ c.symbol ++ String.ofList ds ++ "]").toList =
      (Lexeme.bracket (c.symbol.toList ++ ds) true).source ++ [] := by
    simp [Lexeme.source]
  refine ⟨[], .bracket (c.symbol.toList ++ ds) true, [], ?_, ?_, by simp⟩
  · rw [hsource, Lexeme.scan_append_of_fits hfits, Lexeme.scan_nil, List.nil_append]
  · exact ⟨c, _, ds, rfl, hwritten, rfl, rfl, hlength⟩

/-- A condition with one digit more than can be read is no format. -/
theorem parse_tooManyDigits :
    tokenize ("[>" ++ String.ofList (List.replicate 4301 '1') ++ "]") =
        .error (.tooLongToRead 4301) ∧
      Format.parse ("[>" ++ String.ofList (List.replicate 4301 '1') ++ "]") =
        .error (.tooLongToRead 4301) := by
  have hdigits : ∀ d ∈ List.replicate 4301 '1', Unicode.isDigit d := by
    intro d hd
    rw [List.eq_of_mem_replicate hd]
    decide
  have hlength : (List.replicate 4301 '1').length = 4301 := List.length_replicate
  have hunreadable := isUnreadable_condition .greater hdigits (by rw [hlength]; decide)
  have hsymbol : "[" ++ Comparison.greater.symbol = "[>" := rfl
  rw [hlength, hsymbol] at hunreadable
  have htokenize := tokenize_eq_error_iff.mpr ⟨4301, hunreadable, rfl⟩
  exact ⟨htokenize, by rw [Format.parse, htokenize]; rfl⟩

end FormatCode
