import FormatCode.Proofs.Binary64.Nearest
import FormatCode.Proofs.Outcome
import FormatCode.Proofs.Token.Joining
import FormatCode.Proofs.Token.Spelling

/-!
# What a bracket is read as

The content of a bracket is a condition if it is the symbol of a relation with a numeral after it
and nothing else, a color if it is one of the eight names, and otherwise without effect, which is
put on record once. The symbol and the numeral of a condition are determined by the content. A
numeral without a point is the integer that it spells, in the digits of whatever script, and one
with a point is the nearest binary number.

## Main definitions

* `IsCondition` — whether a text is the symbol of a relation and a numeral.
* `Threshold.Denotes` — whether a value is what a numeral stands for.
* `Token.Classifies` — the token of a bracket, and what reading the bracket puts on record.

## Main statements

* `Token.exists_classifies` — every bracket without too long a numeral has a token.
* `inertBrackets_eq` — what reading a format puts on record, by its tokens.
* `tokenize_bracket` — a bracket alone or after a format is read as the token of its content.
-/

namespace FormatCode

/-! ## Conditions -/

def IsCondition (content : List Char) (relation : Comparison) (t : Threshold) : Prop :=
  ∃ numeral, t.IsWritten numeral ∧ content = relation.symbol.toList ++ numeral

/-- A text is a condition in one way only. -/
lemma IsCondition.unique {content : List Char} {r r' : Comparison} {t t' : Threshold}
    (h : IsCondition content r t) (h' : IsCondition content r' t') : r = r' ∧ t = t' := by
  have hread := readCondition?_eq_some_iff.mpr h
  exact Prod.mk.inj (Option.some.inj (hread.symm.trans (readCondition?_eq_some_iff.mpr h')))

/-- The digits before the point of a numeral are a run of digits. -/
lemma IsCondition.whole_infix {content : List Char} {relation : Comparison} {t : Threshold}
    (h : IsCondition content relation t) : t.whole <:+: content := by
  obtain ⟨numeral, ⟨-, hsign⟩, rfl⟩ := h
  have hunsigned : t.whole <:+: t.unsigned := (List.prefix_append _ _).isInfix
  have hnumeral : t.unsigned <:+ numeral := by
    split at hsign
    · exact hsign ▸ List.suffix_cons _ _
    · obtain rfl | rfl := hsign
      · exact List.suffix_rfl
      · exact List.suffix_cons _ _
  exact hunsigned.trans (hnumeral.trans (List.suffix_append _ _)).isInfix

namespace Threshold

/-- Whether a value is what a numeral stands for: the integer that it spells if it has no point, and
otherwise the nearest binary number. -/
def Denotes (t : Threshold) : Value → Prop
  | .int i => t.fraction = none ∧ (i : ℚ) = t.exact.toRat
  | .float x => t.fraction ≠ none ∧ x.IsNearest t.exact.toRat
  | _ => False

/-- A numeral that is not too long stands for the value that conditions use for it. -/
lemma exists_denotes {t : Threshold}
    (hlength : t.fraction = none → t.whole.length ≤ Numeral.maxDigits) :
    ∃ v, t.value = .ok v ∧ t.Denotes v := by
  obtain ⟨negative, whole, fraction⟩ := t
  cases fraction with
  | none =>
    refine ⟨.int (if negative then -(Numeral.value whole) else Numeral.value whole), ?_, rfl, ?_⟩
    · simp [value, hlength rfl]
    · cases negative <;> simp [exact, digits, Decimal.toRat]
  | some ds =>
    have hnearest :=
      Binary64.isNearest_ofDecimal negative (Numeral.value (whole ++ ds)) (-ds.length)
    exact ⟨.float _, rfl, Option.some_ne_none ds, hnearest⟩

end Threshold

/-! ## Meanings -/

namespace Token

inductive Classifies (content : String) : Token → (records : List String) → Prop
  | condition {relation : Comparison} {t : Threshold} {v : Value} :
      IsCondition content.toList relation t → t.Denotes v →
      Classifies content (.condition relation.symbol v) []
  | color : (∀ relation t, ¬ IsCondition content.toList relation t) → content ∈ colors →
      Classifies content (.color (some content)) []
  | locale : (∀ relation t, ¬ IsCondition content.toList relation t) → content ∉ colors →
      Classifies content (.locale content) [content]

def inertContent? : Token → Option String
  | locale raw => some raw
  | _ => none

lemma Classifies.filterMap_inertContent? {content : String} {t : Token} {records : List String}
    (h : Classifies content t records) : [t].filterMap inertContent? = records := by
  cases h <;> rfl

/-- A bracket is read as what its content is, if no run of digits in it is too long. -/
theorem exists_classifies {content : String}
    (hruns : ∀ run, run <:+: content.toList → (∀ c ∈ run, Unicode.isDigit c) →
      run.length ≤ Numeral.maxDigits) :
    ∃ t records, ofBracket content.toList = .ok t ∧ Classifies content t records := by
  rw [ofBracket]
  cases hread : readCondition? content.toList with
  | some condition =>
    obtain ⟨relation, t⟩ := condition
    have hcondition : IsCondition content.toList relation t := readCondition?_eq_some_iff.mp hread
    have hdigits : ∀ c ∈ t.whole, Unicode.isDigit c := by
      obtain ⟨-, ⟨hnumeral, -⟩, -⟩ := hcondition
      exact hnumeral.whole
    obtain ⟨v, hvalue, hdenotes⟩ := Threshold.exists_denotes
      fun _ => hruns t.whole hcondition.whole_infix hdigits
    exact ⟨_, _, congrArg (Except.map (condition relation.symbol)) hvalue,
      .condition hcondition hdenotes⟩
  | none =>
    have hnone : ∀ relation t, ¬ IsCondition content.toList relation t := by
      intro relation t h
      cases hread.symm.trans (readCondition?_eq_some_iff.mpr h)
    rw [String.ofList_toList]
    by_cases hcolor : content ∈ colors
    · exact ⟨_, _, if_pos (by simpa using hcolor), .color hnone hcolor⟩
    · exact ⟨_, _, if_neg (by simpa using hcolor), .locale hnone hcolor⟩

end Token

/-! ## Formats -/

/-- What reading a format puts on record is what its tokens without effect hold, in order. -/
theorem inertBrackets_eq {format : String} {ts : List Token} (h : tokenize format = .ok ts) :
    inertBrackets format = ts.filterMap Token.inertContent? := by
  have hmap : (Lexeme.scan format.toList).map Token.ofLexeme = ts.map .ok := by
    rw [tokenize, mapM_eq_ok_iff] at h
    rw [← List.forall₂_eq_eq_eq, List.forall₂_map_left_iff, List.forall₂_map_right_iff]
    exact h
  have hall : (ts.map .ok : List (Except Fault Token)).takeWhile (·.isOk) = ts.map .ok := by
    rw [List.takeWhile_eq_self_iff]
    intro r hr
    obtain ⟨t, -, rfl⟩ := List.mem_map.mp hr
    rfl
  rw [inertBrackets, hmap, hall, List.filterMap_map]
  congr 1
  funext t
  cases t <;> rfl

/-- A bracket after a closed format is read as what its content means, closed or left open at the
end. -/
lemma tokenize_append_bracket {before ending : String} {ts : List Token} {t : Token}
    (hbefore : Token.Closes ts before) (content : String) (hcontent : ']' ∉ content.toList)
    (ht : Token.ofBracket content.toList = .ok t) (hending : ending ∈ ["]", ""]) :
    tokenize (before ++ "[" ++ content ++ ending) = .ok (ts ++ [t]) := by
  have hsource : ∃ closed, "[" ++ content ++ ending ++ "" =
      String.ofList (Lexeme.bracket content.toList closed).source ++ "" := by
    obtain rfl | rfl : ending = "]" ∨ ending = "" := by simpa using hending
    · exact ⟨true, by simp [← String.toList_inj, Lexeme.source]⟩
    · exact ⟨false, by simp [Lexeme.source]⟩
  obtain ⟨closed, hsource⟩ := hsource
  have hbracket : tokenize ("[" ++ content ++ ending ++ "") = .ok [t] := by
    rw [hsource]
    exact tokenize_cons ⟨hcontent, fun _ => rfl⟩ ht rfl
  have hhead : ("[" ++ content ++ ending).toList.head? = some '[' := by simp
  rw [String.append_empty] at hbracket
  have happend := tokenize_append_of_breaks hbefore hbracket hhead (by decide)
    fun hquote => absurd hquote (by decide)
  rwa [← String.append_assoc, ← String.append_assoc] at happend

/-- A bracket without too long a numeral is one token, whether it is closed or left open at the end:
the token of its content, put on record if it is without effect. A content is a condition in one
way only, and the condition of an integer has that integer as its threshold. -/
theorem tokenize_bracket :
    (∀ content : String, ']' ∉ content.toList →
      (∀ run, run <:+: content.toList → (∀ c ∈ run, Unicode.isDigit c) →
        run.length ≤ Numeral.maxDigits) →
      ∃ t records, Token.Classifies content t records ∧
        (∀ r u r' u', IsCondition content.toList r u → IsCondition content.toList r' u' →
          r = r') ∧
        (∀ format ∈ ["[" ++ content ++ "]", "[" ++ content],
          tokenize format = .ok [t] ∧ inertBrackets format = records) ∧
        ∀ before ts, Token.Closes ts before →
          ∀ format ∈ [before ++ "[" ++ content ++ "]", before ++ "[" ++ content],
            tokenize format = .ok (ts ++ [t]) ∧
              inertBrackets format = inertBrackets before ++ records) ∧
    ∀ (relation : Comparison) (i : Int), Numeral.digitCount i.natAbs ≤ Numeral.maxDigits →
      tokenize ("[" ++ relation.symbol ++ String.ofList (Numeral.signed i) ++ "]") =
        .ok [.condition relation.symbol (.int i)] := by
  refine ⟨fun content hcontent hruns => ?_, fun relation i hi => ?_⟩
  · obtain ⟨t, records, ht, hclass⟩ := Token.exists_classifies hruns
    have hread {before : String} {ts : List Token} (hbefore : Token.Closes ts before) :
        ∀ format ∈ [before ++ "[" ++ content ++ "]", before ++ "[" ++ content],
          tokenize format = .ok (ts ++ [t]) ∧
            inertBrackets format = inertBrackets before ++ records := by
      intro format hformat
      have htokens : tokenize format = .ok (ts ++ [t]) := by
        obtain rfl | rfl : format = before ++ "[" ++ content ++ "]" ∨
            format = before ++ "[" ++ content ++ "" := by simpa using hformat
        · exact tokenize_append_bracket hbefore content hcontent ht (.head _)
        · exact tokenize_append_bracket hbefore content hcontent ht (.tail _ (.head _))
      refine ⟨htokens, ?_⟩
      rw [inertBrackets_eq htokens, inertBrackets_eq hbefore.tokenize_eq, List.filterMap_append,
        hclass.filterMap_inertContent?]
    refine ⟨t, records, hclass, fun _ _ _ _ h h' => (h.unique h').1, ?_, fun _ _ => hread⟩
    exact hread (show Token.Closes [] "" from rfl)
  · have hcontent : (relation.symbol ++ String.ofList (Numeral.signed i)).toList =
        relation.symbol.toList ++ Numeral.signed i := by simp
    have hbracket := tokenize_append_bracket (show Token.Closes [] "" from rfl)
      (relation.symbol ++ String.ofList (Numeral.signed i))
      (hcontent ▸ Token.bracket_notMem_condition relation i)
      (hcontent ▸ Token.ofBracket_condition relation hi) (.head _)
    rwa [String.empty_append, ← String.append_assoc] at hbracket

/-- After a closed color: a threshold with a sign, leading zeros and a digit of another script, and
one with nothing after its point, which is no numeral. -/
theorem tokenize_bracket_nearMiss :
    (tokenize "[Red][>=-00٧]" = .ok [.color (some "Red"), .condition ">=" (.int (-7))] ∧
      inertBrackets "[Red][>=-00٧]" = []) ∧
    (tokenize "[Red][>5." = .ok [.color (some "Red"), .locale ">5."] ∧
      inertBrackets "[Red][>5." = [">5."]) ∧
    tokenize "[<=-12]" = .ok [.condition "<=" (.int (-12))] := by
  obtain ⟨hbracket, hinteger⟩ := tokenize_bracket
  have hred : Token.Closes [.color (some "Red")] "[Red]" := rfl
  have hshort {content : String} (h : content.toList.length ≤ Numeral.maxDigits) (run : List Char)
      (hrun : run <:+: content.toList) (_ : ∀ c ∈ run, Unicode.isDigit c) :
      run.length ≤ Numeral.maxDigits :=
    hrun.length_le.trans h
  refine ⟨?_, ?_, ?_⟩
  · obtain ⟨t, records, hclass, -, -, hread⟩ := hbracket ">=-00٧" (by decide) (hshort (by decide))
    have hcondition : IsCondition ">=-00٧".toList .atLeast ⟨true, ['0', '0', '٧'], none⟩ :=
      readCondition?_eq_some_iff.mp (by decide)
    obtain ⟨htokens, hrecords⟩ := hread _ _ hred "[Red][>=-00٧]" (.head _)
    cases hclass with
    | @condition relation u v h hdenotes =>
      obtain ⟨rfl, rfl⟩ := hcondition.unique h
      have hexact : (Threshold.exact ⟨true, ['0', '0', '٧'], none⟩).toRat = (-7 : Int) := by
        have hvalue : Numeral.value ['0', '0', '٧'] = 7 := by decide
        simp [Threshold.exact, Threshold.digits, Decimal.toRat, hvalue]
      cases v with
      | int i =>
        obtain rfl : i = -7 := Int.cast_injective (hdenotes.2.trans hexact)
        exact ⟨htokens, hrecords⟩
      | float x => exact absurd rfl hdenotes.1
      | _ => exact hdenotes.elim
    | color h => exact (h _ _ hcondition).elim
    | locale h => exact (h _ _ hcondition).elim
  · obtain ⟨t, records, hclass, -, -, hread⟩ := hbracket ">5." (by decide) (hshort (by decide))
    have hnone : readCondition? ">5.".toList = none := by decide
    have hread := hread _ _ hred "[Red][>5." (.tail _ (.head _))
    cases hclass with
    | condition h => cases hnone.symm.trans (readCondition?_eq_some_iff.mpr h)
    | color _ h => exact absurd h (by decide)
    | locale => exact hread
  · have htext : "[<=-12]" =
        "[" ++ Comparison.atMost.symbol ++ String.ofList (Numeral.signed (-12)) ++ "]" := by decide
    rw [htext]
    exact hinteger .atMost (-12) (by decide)

end FormatCode
