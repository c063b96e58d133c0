import FormatCode.Binary64.Printer
import FormatCode.Binary64.Reader
import FormatCode.Proofs.Binary64.Shortest
import FormatCode.Proofs.Number.Exact
import FormatCode.Proofs.Threshold.Grammar

/-!
# Reading what binary numbers are written as

The text of a binary number is a number written out, or one with an exponent behind it. Either is
read as a decimal of the same value, so the text of a finite binary number is read as its shortest
decimal, and that is rounded to the number again.

## Main definitions

* `IsSpelled` — a text that is a number written out, possibly with an exponent.

## Main statements

* `IsSpelled.ofText?_eq` — such a text is read as the decimal that it stands for.
* `Binary64.exists_ofText?_text` — the text of a binary number is read as its shortest decimal.
* `Binary64.ofText?_text` — every binary number is read back from its text.
-/

namespace FormatCode

/-! ## Reading decimals -/

namespace Numeral

/-- The digits that a text begins with, and what follows them. -/
lemma span_append {ds rest : List Char} (hds : Plain ds)
    (hrest : ∀ c ∈ rest.head?, Unicode.isDigit c = false) :
    (ds ++ rest).takeWhile Unicode.isDigit = ds ∧ (ds ++ rest).dropWhile Unicode.isDigit = rest := by
  have hdigit : ∀ c ∈ ds, Unicode.isDigit c := fun c hc => Unicode.isDigit_of_isDigit (hds c hc)
  rw [List.takeWhile_append_of_pos hdigit, List.dropWhile_append_of_pos hdigit]
  cases rest with
  | nil => simp
  | cons c rest =>
    have hc := hrest c rfl
    simp [hc]

end Numeral

namespace Decimal

/-- What an exponent reads as: nothing stands for zero. -/
structure IsExponent (text : List Char) (e : Int) : Prop where
  head : ∀ c ∈ text.head?, c = 'e'
  read : readExponent? text = some e

lemma isExponent_nil : IsExponent [] 0 := ⟨nofun, rfl⟩

/-- The digits of an exponent stand behind its sign. -/
lemma isExponent_cons {e : Int} {ds : List Char} (hds : Numeral.Plain ds) (hne : ds ≠ [])
    (hvalue : Numeral.value ds = e.natAbs) :
    IsExponent ('e' :: (if e < 0 then '-' else '+') :: ds) e := by
  have hall : ds.all Unicode.isDigit :=
    List.all_eq_true.mpr fun c hc => Unicode.isDigit_of_isDigit (hds c hc)
  refine ⟨by simp, ?_⟩
  obtain he | he := lt_or_ge e 0
  · have hsign : Numeral.splitSign ('-' :: ds) = (true, ds) := rfl
    simp [readExponent?, he, hsign, hne, hall, hvalue, abs_of_neg he]
  · have hsign : Numeral.splitSign ('+' :: ds) = (false, ds) := rfl
    simp [readExponent?, not_lt.mpr he, hsign, hne, hall, hvalue, abs_of_nonneg he]

/-- A number written out is read with its point. -/
lemma readFinite?_text {p : Positional} (hp : p.IsPlain) (hsign : p.negative = false)
    {exponent : List Char} {e : Int} (hexponent : IsExponent exponent e) (negative : Bool) :
    readFinite? negative (p.text ++ exponent) =
      some (.finite negative (Numeral.value (p.whole ++ p.fraction)) (e - p.fraction.length)) := by
  obtain ⟨sign, whole, fraction⟩ := p
  obtain ⟨hne, hwhole, hfraction⟩ := hp
  obtain rfl : sign = false := hsign
  have hnone : ∀ c ∈ exponent.head?, Unicode.isDigit c = false := by
    intro c hc
    rw [hexponent.head c hc]
    decide
  cases fraction with
  | nil =>
    obtain ⟨htake, hdrop⟩ := Numeral.span_append hwhole hnone
    have hpoint : readFraction exponent = ([], exponent) := by
      unfold readFraction
      split
      · next rest => exact absurd (hexponent.head '.' rfl) (by decide)
      · rfl
    simp [readFinite?, Positional.text, htake, hdrop, hpoint, hexponent.read, hne]
  | cons d ds =>
    have hmark : ∀ c ∈ ('.' :: (d :: ds ++ exponent)).head?, Unicode.isDigit c = false := by
      intro c hc
      obtain rfl := Option.some.inj hc
      decide
    obtain ⟨htake, hdrop⟩ := Numeral.span_append hwhole hmark
    obtain ⟨htake', hdrop'⟩ := Numeral.span_append hfraction hnone
    have hpoint : readFraction ('.' :: (d :: ds ++ exponent)) = (d :: ds, exponent) := by
      rw [readFraction, htake', hdrop']
    have htext : Positional.text ⟨false, whole, d :: ds⟩ ++ exponent =
        whole ++ '.' :: (d :: ds ++ exponent) := by
      simp [Positional.text]
    rw [htext, readFinite?, htake, hdrop, hpoint]
    simp [hexponent.read]

/-- A numeral that begins with a digit is not the name of an infinity or of a NaN. -/
lemma ofText?_of_digit {s : String} {negative : Bool} {c : Char} {rest : List Char}
    (h : Numeral.splitSign s.toList = (negative, c :: rest)) (hc : c.isDigit) :
    ofText? s = readFinite? negative (c :: rest) := by
  have hlower : c.toLower = c := by
    have hrange : 48 ≤ c.toNat ∧ c.toNat ≤ 57 := by
      simpa [Char.isDigit, UInt32.le_iff_toNat_le] using hc
    have hupper : ¬ (c.val ≥ 'A'.val ∧ c.val ≤ 'Z'.val) := by
      rintro ⟨hlow, -⟩
      have : 65 ≤ c.toNat := UInt32.le_iff_toNat_le.mp hlow
      omega
    exact dif_neg hupper
  have hother : c ≠ 'i' ∧ c ≠ 'n' ∧ c ≠ 's' := by
    refine ⟨?_, ?_, ?_⟩ <;> (rintro rfl; exact absurd hc (by decide))
  unfold ofText?
  rw [h]
  dsimp only
  split
  case h_5 => rfl
  all_goals
    next heq =>
      rw [List.map_cons, hlower] at heq
      simp [hother] at heq

end Decimal

/-- Whether a text spells a magnitude: as a number written out without a sign, and an exponent or
none. -/
def IsSpelled (text : List Char) (q : ℚ) : Prop :=
  ∃ (p : Positional) (exponent : List Char) (e : Int), p.IsPlain ∧ p.negative = false ∧
    Decimal.IsExponent exponent e ∧ text = p.text ++ exponent ∧
    Numeral.fixedPoint p.whole p.fraction * 10 ^ e = q

/-- A number that is written out is read as a decimal of its value. -/
theorem IsSpelled.ofText?_eq {text : List Char} {q : ℚ} (h : IsSpelled text q) (negative : Bool) :
    ∃ (c : Nat) (e : Int),
      Decimal.ofText? (String.ofList ((if negative then ['-'] else []) ++ text)) =
        some (.finite negative c e) ∧ (c : ℚ) * 10 ^ e = q := by
  obtain ⟨p, exponent, e, hp, hsign, hexponent, rfl, hvalue⟩ := h
  obtain ⟨c, cs, hwhole⟩ := List.exists_cons_of_ne_nil hp.whole_ne_nil
  have hc : c.isDigit := hp.whole c (by simp [hwhole])
  obtain ⟨rest, hrest⟩ : ∃ rest, p.text ++ exponent = c :: rest := by
    simp [Positional.text, hsign, hwhole]
  have hsplit : Numeral.splitSign
      (String.ofList ((if negative then ['-'] else []) ++ (p.text ++ exponent))).toList =
      (negative, c :: rest) := by
    rw [String.toList_ofList, hrest]
    cases negative with
    | false => exact Numeral.splitSign_of_isDigit (Unicode.isDigit_of_isDigit hc) rest
    | true => rfl
  refine ⟨Numeral.value (p.whole ++ p.fraction), e - p.fraction.length, ?_, ?_⟩
  · rw [Decimal.ofText?_of_digit hsplit hc, ← hrest]
    exact Decimal.readFinite?_text hp hsign hexponent negative
  · rw [← hvalue, Numeral.fixedPoint, zpow_sub₀ (by norm_num), zpow_natCast]
    ring

namespace Binary64

/-! ## Writing binary numbers -/

/-- An exponent is read as it was written. -/
lemma isExponent_exponentText (e : Int) : Decimal.IsExponent (exponentText e) e := by
  have hdigits := Numeral.plain_digits e.natAbs
  have hzeros := Numeral.plain_replicate_zero (2 - (Numeral.digits e.natAbs).length)
  refine Decimal.isExponent_cons (Numeral.plain_append.mpr ⟨hzeros, hdigits⟩) ?_ ?_
  · simp [Numeral.digits_ne_nil]
  · rw [Numeral.value_append hzeros hdigits]
    simp

/-- The digits of a magnitude spell it. -/
theorem isSpelled_digitsText (n : Nat) (k : Int) : IsSpelled (digitsText n k) (n * 10 ^ k) := by
  unfold digitsText
  dsimp only
  split
  · obtain ⟨hplain, hvalue⟩ := Decimal.fixedPoint_positional false n k
    have hsign : (Decimal.finite false n k).positional.negative = false := by
      cases k <;> rfl
    exact ⟨_, [], 0, hplain, hsign, Decimal.isExponent_nil, (List.append_nil _).symm,
      by rw [hvalue, zpow_zero, mul_one]⟩
  · have hdigits := Numeral.plain_digits n
    refine ⟨_, _, _, Positional.isPlain_ofDigits hdigits false _, rfl, isExponent_exponentText _, rfl,
      ?_⟩
    rw [Positional.fixedPoint_ofDigits hdigits, Numeral.value_digits, div_mul_eq_mul_div, mul_div_assoc,
      ← zpow_natCast, ← zpow_sub₀ (by norm_num)]
    congr 2
    have hpos : 0 < (Numeral.digits n).length := Numeral.digitCount_pos n
    omega

/-- A zero after a point changes nothing, where there was neither a point nor an exponent. -/
lemma isSpelled_append_zero {text : List Char} {q : ℚ} (h : IsSpelled text q)
    (hwhole : text.all fun c => c.isDigit || c == '-') : IsSpelled (text ++ ['.', '0']) q := by
  obtain ⟨⟨sign, whole, fraction⟩, exponent, e, hp, hsign, hexponent, rfl, hvalue⟩ := h
  obtain rfl : sign = false := hsign
  have hallowed : ∀ c ∈ Positional.text ⟨false, whole, fraction⟩ ++ exponent,
      (c.isDigit || c == '-') = true := List.all_eq_true.mp hwhole
  obtain rfl : fraction = [] := by
    cases fraction with
    | nil => rfl
    | cons d ds => exact absurd (hallowed '.' (by simp [Positional.text])) (by decide)
  obtain rfl : exponent = [] := by
    cases exponent with
    | nil => rfl
    | cons c cs =>
      obtain rfl := hexponent.head c rfl
      exact absurd (hallowed 'e' (by simp)) (by decide)
  have hzero : Numeral.Plain ['0'] := Numeral.plain_replicate_zero 1
  refine ⟨⟨false, whole, ['0']⟩, [], e, ⟨hp.whole_ne_nil, hp.whole, hzero⟩, rfl, hexponent, ?_, ?_⟩
  · simp [Positional.text]
  · rw [← hvalue]
    congr 1
    exact Numeral.fixedPoint_append_zeros hp.whole Numeral.plain_nil 1

/-- The text of a binary number is read as a decimal that is worth its shortest one. -/
theorem exists_ofText?_text (negative : Bool) (bits : Fin (2047 * 2 ^ 52)) :
    ∃ (c : Nat) (e : Int),
      Decimal.ofText? (String.ofList (finite negative bits).text) = some (.finite negative c e) ∧
        (c : ℚ) * 10 ^ e = (shortest bits).1 * 10 ^ (shortest bits).2 := by
  have hspelled := isSpelled_digitsText (shortest bits).1 (shortest bits).2
  obtain ⟨text, htext, hspelled'⟩ : ∃ text,
      (finite negative bits).text = (if negative then ['-'] else []) ++ text ∧
        IsSpelled text ((shortest bits).1 * 10 ^ (shortest bits).2) := by
    rw [Binary64.text]
    by_cases hwhole : (finite negative bits).isFinite &&
        (compactText (finite negative bits)).all fun c => c.isDigit || c == '-'
    · rw [if_pos hwhole]
      refine ⟨_, List.append_assoc .., isSpelled_append_zero hspelled ?_⟩
      have hall := (Bool.and_eq_true_iff.mp hwhole).2
      rw [compactText, List.all_append, Bool.and_eq_true] at hall
      exact hall.2
    · rw [if_neg hwhole]
      exact ⟨_, rfl, hspelled⟩
  rw [htext]
  exact hspelled'.ofText?_eq negative

/-- Every binary number is read back from its text. -/
theorem ofText?_text (x : Binary64) : ofText? (String.ofList x.text) = some x := by
  cases x with
  | finite negative bits =>
    obtain ⟨c, e, htext, hvalue⟩ := exists_ofText?_text negative bits
    rw [ofText?, htext]
    exact congrArg some (ofDecimal_shortest negative bits hvalue)
  | infinity negative => cases negative <;> decide
  | nan => decide

end Binary64

end FormatCode
