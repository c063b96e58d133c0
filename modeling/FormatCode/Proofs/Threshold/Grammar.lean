import FormatCode.Token.Threshold
import Mathlib.Data.List.TakeWhile

/-!
# The grammar of conditions

A condition is the symbol of a relation and a numeral after it, and nothing else. The numeral has a
sign or none, digits, and then possibly a point and more digits; the digits may be those of any
script. No numeral begins like the rest of a longer symbol, so a condition is read in one way.

## Main definitions

* `Threshold.IsNumeral` — whether a threshold has the digits that a numeral has to have.
* `Threshold.IsWritten` — whether a text is a numeral of a threshold.

## Main statements

* `Threshold.read?_eq_some_iff` — a text is read as the threshold that it is a numeral of.
* `readCondition?_eq_some_iff` — a text is read as the relation and the threshold that it is made
  of.
-/

namespace FormatCode

/-! ## Numerals -/

namespace Threshold

/-- Whether a threshold has digits before its point, and digits after it if it has a point. -/
structure IsNumeral (t : Threshold) : Prop where
  whole_ne_nil : t.whole ≠ []
  whole : ∀ c ∈ t.whole, Unicode.isDigit c
  fraction_ne_nil : t.fraction ≠ some []
  fraction : ∀ ds ∈ t.fraction, ∀ c ∈ ds, Unicode.isDigit c

def unsigned (t : Threshold) : List Char :=
  t.whole ++ match t.fraction with
    | none => []
    | some ds => '.' :: ds

/-- Whether a text is a numeral of a threshold: with a minus sign for a negative one, and otherwise
with a plus sign or without a sign. -/
def IsWritten (t : Threshold) (s : List Char) : Prop :=
  t.IsNumeral ∧
    if t.negative then s = '-' :: t.unsigned else s = t.unsigned ∨ s = '+' :: t.unsigned

end Threshold

namespace Numeral

/-- A digit is no sign. -/
lemma splitSign_of_isDigit {c : Char} (h : Unicode.isDigit c) (rest : List Char) :
    splitSign (c :: rest) = (false, c :: rest) := by
  unfold splitSign
  split
  · next heq =>
    obtain ⟨rfl, -⟩ := List.cons.inj heq
    exact absurd h (by decide)
  · next heq =>
    obtain ⟨rfl, -⟩ := List.cons.inj heq
    exact absurd h (by decide)
  · rfl

/-- What precedes the text after a sign is the sign. -/
lemma eq_of_splitSign {s rest : List Char} {negative : Bool} (h : splitSign s = (negative, rest)) :
    if negative then s = '-' :: rest else s = rest ∨ s = '+' :: rest := by
  unfold splitSign at h
  split at h <;> (obtain ⟨rfl, rfl⟩ := Prod.mk.inj h; simp)

end Numeral

namespace Threshold

variable {t : Threshold} {s : List Char}

lemma isNumeral_of_read? (h : read? s = some t) :
    t.IsNumeral ∧ Numeral.splitSign s = (t.negative, t.unsigned) := by
  unfold read? at h
  rcases hsign : Numeral.splitSign s with ⟨negative, body⟩
  simp only [hsign] at h
  have hbody := List.takeWhile_append_dropWhile (p := Unicode.isDigit) (l := body)
  have hwhole : ∀ c ∈ body.takeWhile Unicode.isDigit, Unicode.isDigit c :=
    fun c hc => List.mem_takeWhile_imp hc
  split at h
  · cases h
  · next hne =>
    have hne : body.takeWhile Unicode.isDigit ≠ [] := by simpa using hne
    split at h
    · next hrest =>
      obtain rfl := Option.some.inj h
      rw [hrest, List.append_nil] at hbody
      exact ⟨⟨hne, hwhole, by simp, by simp⟩, by simp [unsigned, hbody]⟩
    · next fraction hrest =>
      split at h
      · next hfraction =>
        obtain rfl := Option.some.inj h
        rw [hrest] at hbody
        simp only [Bool.and_eq_true, Bool.not_eq_true', List.isEmpty_eq_false_iff,
          List.all_eq_true] at hfraction
        exact ⟨⟨hne, hwhole, by simpa using hfraction.1, by simpa using hfraction.2⟩,
          by simp [unsigned, hbody]⟩
      · cases h
    · cases h

lemma read?_of_splitSign (ht : t.IsNumeral) (h : Numeral.splitSign s = (t.negative, t.unsigned)) :
    read? s = some t := by
  obtain ⟨negative, whole, fraction⟩ := t
  obtain ⟨hne, hwhole, hfraction_ne, hfraction⟩ := ht
  have htake : whole.takeWhile Unicode.isDigit = whole := List.takeWhile_eq_self_iff.mpr hwhole
  have hdrop : whole.dropWhile Unicode.isDigit = [] := List.dropWhile_eq_nil_iff.mpr hwhole
  have hpoint : Unicode.isDigit '.' = false := by decide
  cases fraction with
  | none => simp [read?, h, unsigned, htake, hdrop, hne]
  | some ds =>
    have hds : ds ≠ [] := by simpa using hfraction_ne
    have hall : ∀ c ∈ ds, Unicode.isDigit c := by simpa using hfraction
    simp [read?, h, unsigned, List.takeWhile_append, List.dropWhile_append, htake, hdrop, hpoint,
      hne, hds]
    exact hall

/-- A text is read as the threshold that it is a numeral of. -/
theorem read?_eq_some_iff : read? s = some t ↔ t.IsWritten s := by
  constructor
  · intro h
    obtain ⟨hnumeral, hsign⟩ := isNumeral_of_read? h
    exact ⟨hnumeral, Numeral.eq_of_splitSign hsign⟩
  · rintro ⟨hnumeral, hsign⟩
    apply read?_of_splitSign hnumeral
    split at hsign
    · next hnegative =>
      rw [hsign, hnegative]
      rfl
    · next hnegative =>
      rw [Bool.eq_false_iff.mpr hnegative]
      obtain rfl | rfl := hsign
      · obtain ⟨c, ds, hwhole⟩ := List.exists_cons_of_ne_nil hnumeral.whole_ne_nil
        have hc : Unicode.isDigit c := hnumeral.whole c (by simp [hwhole])
        rw [unsigned, hwhole]
        exact Numeral.splitSign_of_isDigit hc _
      · rfl

/-- A numeral begins with a digit or a sign. -/
lemma IsWritten.head (h : t.IsWritten s) {c : Char} (hc : s.head? = some c) :
    Unicode.isDigit c ∨ c = '-' ∨ c = '+' := by
  obtain ⟨hnumeral, hsign⟩ := h
  obtain ⟨d, ds, hwhole⟩ := List.exists_cons_of_ne_nil hnumeral.whole_ne_nil
  have hd : Unicode.isDigit d := hnumeral.whole d (by simp [hwhole])
  have hunsigned : t.unsigned.head? = some d := by simp [unsigned, hwhole]
  split at hsign
  · obtain rfl : c = '-' := by simpa [hsign] using hc.symm
    exact .inr (.inl rfl)
  · obtain rfl | rfl := hsign
    · obtain rfl := Option.some.inj (hunsigned.symm.trans hc)
      exact .inl hd
    · exact .inr (.inr (Option.some.inj hc).symm)

/-- No bracket can be closed within a condition. -/
lemma IsWritten.bracket_notMem (h : t.IsWritten s) (c : Comparison) :
    ']' ∉ c.symbol.toList ++ s := by
  obtain ⟨hnumeral, hsign⟩ := h
  have hdigit : ¬ Unicode.isDigit ']' := by decide
  have hunsigned : ']' ∉ t.unsigned := by
    rw [unsigned, List.mem_append, not_or]
    refine ⟨fun hmem => hdigit (hnumeral.whole _ hmem), ?_⟩
    cases hfraction : t.fraction with
    | none => exact List.not_mem_nil
    | some ds =>
      rw [List.mem_cons, not_or]
      exact ⟨by decide, fun hmem => hdigit (hnumeral.fraction ds hfraction _ hmem)⟩
  have hs : ']' ∉ s := by
    split at hsign
    · simp [hsign, hunsigned]
    · obtain rfl | rfl := hsign <;> simp [hunsigned]
  rw [List.mem_append, not_or]
  exact ⟨by cases c <;> decide, hs⟩

end Threshold

/-! ## Conditions -/

lemma readComparison?_symbol (c : Comparison) {rest : List Char}
    (h : ∀ x ∈ rest.head?, x ≠ '=' ∧ x ≠ '>') :
    readComparison? (c.symbol.toList ++ rest) = some (c, rest) := by
  cases rest with
  | nil => cases c <;> rfl
  | cons x rest =>
    have hx := h x rfl
    cases c <;> simp [Comparison.symbol, readComparison?, hx.1, hx.2]

lemma eq_of_readComparison? {s rest : List Char} {c : Comparison}
    (h : readComparison? s = some (c, rest)) : s = c.symbol.toList ++ rest := by
  unfold readComparison? at h
  split at h
  case h_7 => cases h
  all_goals
    obtain ⟨rfl, rfl⟩ := Prod.mk.inj (Option.some.inj h)
    simp [Comparison.symbol]

/-- A text is read as the relation and the threshold that it is made of. -/
theorem readCondition?_eq_some_iff {s : List Char} {c : Comparison} {t : Threshold} :
    readCondition? s = some (c, t) ↔ ∃ numeral, t.IsWritten numeral ∧
      s = c.symbol.toList ++ numeral := by
  constructor
  · intro h
    simp only [readCondition?, bind, Option.bind_eq_some_iff, pure, Option.some.injEq,
      Prod.mk.injEq] at h
    obtain ⟨⟨c', numeral⟩, hsymbol, t', hread, rfl, rfl⟩ := h
    exact ⟨numeral, Threshold.read?_eq_some_iff.mp hread, eq_of_readComparison? hsymbol⟩
  · rintro ⟨numeral, hwritten, rfl⟩
    have hhead : ∀ x ∈ numeral.head?, x ≠ '=' ∧ x ≠ '>' := by
      intro x hx
      obtain hdigit | rfl | rfl := hwritten.head hx
      · constructor <;> (rintro rfl; exact absurd hdigit (by decide))
      · decide
      · decide
    have hread := Threshold.read?_eq_some_iff.mpr hwritten
    simp [readCondition?, readComparison?_symbol c hhead, hread]

end FormatCode
