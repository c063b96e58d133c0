import FormatCode.Proofs.Binary64.Nearest
import FormatCode.Proofs.Format.Joined
import FormatCode.Proofs.Number.Order
import FormatCode.Proofs.Threshold.Grammar

/-!
# Conditions of formats

The condition in front of a format compares numbers with the numeral that it is written with. A
numeral without a point is compared with as it is, and one with a point as the binary number nearest
to it, so a number that is equal to the numeral need not be equal to the threshold.

## Main definitions

* `Threshold.IsReadAs` — what a numeral is compared as.

## Main statements

* `SectionText.parse_condition` — a condition in front of a format becomes that of its section.
* `SectionText.accepts_written` — what the condition accepts.
* `accepts_tenth` — a number that equals the numeral of a condition and not its threshold.
-/

namespace FormatCode

/-! ## Thresholds -/

namespace Threshold

/-- Whether a numeral is compared with as a number of a given value: its own value if it has no
point, and that of the nearest binary number if it has one. -/
def IsReadAs (t : Threshold) (q : WithBot (WithTop ℚ)) : Prop :=
  match t.fraction with
  | none => q = t.exact.extended
  | some _ => ∃ x : Binary64, x.IsNearest t.exact.toRat ∧ q = x.toDecimal.extended

/-- A numeral that is not too long has a threshold of the value that it is read as. -/
theorem exists_value_eq {t : Threshold}
    (hlength : t.fraction = none → t.whole.length ≤ Numeral.maxDigits) :
    ∃ n : Number, t.value = .ok (CellValue.number n).toValue ∧
      (CellValue.number n).toValue.IsThreshold ∧ t.IsReadAs n.extended := by
  obtain ⟨negative, whole, fraction⟩ := t
  cases fraction with
  | none =>
    refine ⟨.int (if negative then -(Numeral.value whole) else Numeral.value whole), ?_, trivial, ?_⟩
    · simp [value, hlength rfl, CellValue.toValue]
    · cases negative <;> simp [IsReadAs, exact, digits, Number.extended, Decimal.extended,
        Decimal.toRat]
  | some ds =>
    have hnearest := Binary64.isNearest_ofDecimal negative (Numeral.value (whole ++ ds)) (-ds.length)
    exact ⟨.float _, rfl, Binary64.not_isNan_ofDecimal _ _ _, _, hnearest, rfl⟩

/-- A numeral that is a whole number or a binary number is read as it is. -/
theorem IsReadAs.eq_extended {t : Threshold} {q : WithBot (WithTop ℚ)} (h : t.IsReadAs q)
    (hexact : t.fraction = none ∨ ∃ x : Binary64, x.isFinite ∧ x.toDecimal.toRat = t.exact.toRat) :
    q = t.exact.extended := by
  unfold IsReadAs at h
  split at h
  · exact h
  · next ds hds =>
    obtain ⟨x, hnearest, rfl⟩ := h
    obtain ⟨y, hy, hvalue⟩ := hexact.resolve_left (by simp [hds])
    rw [← hvalue] at hnearest
    obtain ⟨hx, heq⟩ := hnearest.toRat_eq hy
    rw [Decimal.extended_of_isFinite (x.isFinite_toDecimal.trans hx), heq, hvalue]
    rfl

end Threshold

/-! ## Conditions in front of formats -/

namespace Section

lemma condition_eq_none_of_addAll {s : Section} {before : Option Token} {ts tail : List Token}
    (h : (s.addAll before ts tail).condition = none) : s.condition = none := by
  induction ts generalizing s before with
  | nil => exact h
  | cons t ts ih =>
    have hadd := ih h
    cases t with
    | condition operator threshold => exact absurd hadd (Option.some_ne_none _)
    | _ => exact hadd

/-- A condition stays where no other follows, and changes nothing else. -/
lemma addAll_of_condition {s : Section} {before : Option Token} {ts tail : List Token}
    (h : (s.addAll before ts tail).condition = none) (c : Condition) :
    { s with condition := some c }.addAll before ts tail =
      { s.addAll before ts tail with condition := some c } := by
  induction ts generalizing s before with
  | nil => rfl
  | cons t ts ih =>
    have hadd : (s.add before (ts ++ tail) t).condition = none := condition_eq_none_of_addAll h
    have hcommute : { s with condition := some c }.add before (ts ++ tail) t =
        { s.add before (ts ++ tail) t with condition := some c } := by
      cases t with
      | condition operator threshold => exact absurd hadd (Option.some_ne_none _)
      | _ => rfl
    rw [addAll, hcommute]
    exact ih h

end Section

namespace SectionText

variable {relation : Comparison} {t : Threshold} {numeral : List Char} {threshold : Value}

lemma tokenize_condition (relation : Comparison) (hwritten : t.IsWritten numeral)
    (hvalue : t.value = .ok threshold) (p : SectionText) :
    tokenize ("[" ++ relation.symbol ++ String.ofList numeral ++ "]" ++ p.text) =
      .ok (.condition relation.symbol threshold :: p.tokens) := by
  have hsource : "[" ++ relation.symbol ++ String.ofList numeral ++ "]" =
      String.ofList (Lexeme.bracket (relation.symbol.toList ++ numeral) true).source := by
    simp [← String.toList_inj, Lexeme.source]
  have hbracket : Token.ofLexeme (.bracket (relation.symbol.toList ++ numeral) true) =
      .ok (.condition relation.symbol threshold) := by
    have hread : readCondition? (relation.symbol.toList ++ numeral) = some (relation, t) :=
      readCondition?_eq_some_iff.mpr ⟨numeral, hwritten, rfl⟩
    rw [Token.ofLexeme, Token.ofBracket, hread]
    exact congrArg (Except.map _) hvalue
  have hfits : (Lexeme.bracket (relation.symbol.toList ++ numeral) true).Fits p.text.toList :=
    ⟨hwritten.bracket_notMem relation, fun hopen => absurd hopen (by decide)⟩
  rw [hsource]
  exact tokenize_cons hfits hbracket p.tokenize_eq

/-- A condition in front of a format of one section becomes the condition of the section, if that
has none of its own. -/
theorem parse_condition (relation : Comparison) (hwritten : t.IsWritten numeral)
    (hvalue : t.value = .ok threshold) (p : SectionText) (hp : p.alone.condition = none) :
    Format.parse ("[" ++ relation.symbol ++ String.ofList numeral ++ "]" ++ p.text) =
      .ok ⟨[{ p.alone with condition := some ⟨relation.symbol, threshold⟩ }]⟩ := by
  have htokenize := tokenize_condition relation hwritten hvalue p
  have hpieces := Format.ofTokens_pieces (.condition relation.symbol threshold :: p.tokens) []
    (by simpa using isKnown_of_tokenize htokenize) (by simpa using p.separator_notMem)
  have halone := p.alone_eq
  rw [halone] at hp
  have hsection : Section.addAll {} none (.condition relation.symbol threshold :: p.tokens) [] =
      { p.alone with condition := some ⟨relation.symbol, threshold⟩ } := by
    have hfirst : Section.add {} none (p.tokens ++ []) (.condition relation.symbol threshold) =
        { condition := some ⟨relation.symbol, threshold⟩ } := rfl
    -- What follows a condition is read as if it stood at the beginning.
    have hafter : Section.addAll { condition := some ⟨relation.symbol, threshold⟩ }
        (some (.condition relation.symbol threshold)) p.tokens [] =
          Section.addAll { condition := some ⟨relation.symbol, threshold⟩ } none p.tokens [] := by
      apply Section.addAll_congr_before <;> rfl
    rw [Section.addAll, hfirst, hafter, Section.addAll_of_condition hp, ← halone]
  rw [followingTokens, List.flatMap_nil, List.append_nil] at hpieces
  rw [Format.parse, htokenize]
  refine hpieces.trans ?_
  rw [Section.ofPieces, followingTokens, List.flatMap_nil, hsection, Section.ofPieces,
    dropBlankLast, if_neg p.parts_ne_nil]

/-- The condition in front of a format accepts the numbers that are related to what its numeral is
read as. That is the numeral itself, if it is a whole number or a binary number. -/
theorem accepts_written (relation : Comparison) (hwritten : t.IsWritten numeral)
    (hlength : t.fraction = none → t.whole.length ≤ Numeral.maxDigits)
    (p : SectionText) (hp : p.alone.condition = none) :
    ∃ (c : Condition) (q : WithBot (WithTop ℚ)),
      Format.parse ("[" ++ relation.symbol ++ String.ofList numeral ++ "]" ++ p.text) =
          .ok ⟨[{ p.alone with condition := some c }]⟩ ∧
        t.IsReadAs q ∧
        (t.fraction = none ∨ (∃ x : Binary64, x.isFinite ∧ x.toDecimal.toRat = t.exact.toRat) →
          q = t.exact.extended) ∧
        ∀ n : Number, ¬ n.IsNan → c.accepts (CellValue.number n).toValue =
          .ok (decide (relation.Relates n.extended q)) := by
  obtain ⟨threshold, hvalue, hthreshold, hread⟩ := Threshold.exists_value_eq hlength
  exact ⟨_, _, parse_condition relation hwritten hvalue p hp, hread, hread.eq_extended,
    fun n hn => Condition.accepts_number relation hthreshold hn⟩

/-- A half is a binary number, so numbers of a half or more are accepted. -/
theorem accepts_written_half :
    ∃ (c : Condition) (q : WithBot (WithTop ℚ)),
      Format.parse "[>=0.5]0.0" = .ok ⟨[{ tenths.alone with condition := some c }]⟩ ∧
        q = (((1 / 2 : ℚ) : WithTop ℚ) : WithBot (WithTop ℚ)) ∧
        ∀ n : Number, ¬ n.IsNan → c.accepts (CellValue.number n).toValue =
          .ok (decide (q ≤ n.extended)) := by
  have hwritten : Threshold.IsWritten ⟨false, ['0'], some ['5']⟩ ['0', '.', '5'] :=
    Threshold.read?_eq_some_iff.mp rfl
  obtain ⟨c, q, hparse, -, hexact, haccepts⟩ :=
    accepts_written .atLeast hwritten nofun tenths rfl
  have hhalf : (Threshold.exact ⟨false, ['0'], some ['5']⟩).toRat = 1 / 2 := by
    have hexact : Threshold.exact ⟨false, ['0'], some ['5']⟩ = .finite false 5 (-1) := rfl
    rw [hexact, Decimal.toRat]
    norm_num
  have hbinary : (Binary64.ofRatio false 1 2).toDecimal.toRat = 1 / 2 := by
    have hdecimal : (Binary64.ofRatio false 1 2).toDecimal =
      .finite false (2 ^ 52 * 5 ^ 53) (-53) := rfl
    rw [hdecimal, Decimal.toRat]
    norm_num
  refine ⟨c, q, hparse, ?_, haccepts⟩
  rw [hexact (.inr ⟨_, rfl, hbinary.trans hhalf.symm⟩), Decimal.extended_of_isFinite rfl, hhalf]

end SectionText

/-- A number that equals the numeral of a condition and not the threshold. -/
theorem accepts_tenth :
    Threshold.IsWritten ⟨false, ['0'], some ['1']⟩ ['0', '.', '1'] ∧
      (Number.decimal (.finite false 1 (-1))).extended =
        (Threshold.exact ⟨false, ['0'], some ['1']⟩).extended ∧
      ∃ c, Format.parse "[=0.1]0" =
          .ok ⟨[{ condition := some c, parts := [.placeholder .zero] }]⟩ ∧
        c.accepts (.decimal (.finite false 1 (-1))) = .ok false := by
  refine ⟨Threshold.read?_eq_some_iff.mp rfl, rfl,
    ⟨"=", .float (.ofDecimal false 1 (-1))⟩, rfl, ?_⟩
  decide +kernel

end FormatCode
