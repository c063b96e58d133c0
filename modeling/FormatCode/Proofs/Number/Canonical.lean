import FormatCode.Proofs.Binary64.Printer
import FormatCode.Proofs.Outcome

/-!
# The numerals that numbers are written as

Integers and finite decimals are written as canonical numerals: without exponent, without zeros that
could be left out, and with a point only if what is written is not whole. Such a numeral is read
back as what it is worth. An integer is worth that, if it is not too long, and so is a decimal that
the context holds; any other decimal is rounded before it is written.

## Main definitions

* `Positional.IsCanonical` — the numerals without zeros that could be left out.
* `Positional.toRat` — what a numeral is worth.
* `Positional.IsTextOf` — whether a text is a numeral that may have been rounded from a number.

## Main statements

* `Positional.IsPlain.exists_ofText?` — a numeral is read as what it is worth.
* `Positional.IsCanonical.fraction_eq_nil_iff` — which canonical numerals have a point.
* `Decimal.isCanonical_positional` — which decimals are written out as canonical numerals.
* `plainText_isTextOf` — the texts of integers and finite decimals.
-/

namespace FormatCode

/-! ## Canonical numerals -/

/-- Whether a number written out has no zeros that could be left out: none before other digits of
the whole part, and none at the end of the fraction. -/
structure Positional.IsCanonical (p : Positional) : Prop extends p.IsPlain where
  head : p.whole.head? = some '0' → p.whole = ['0']
  getLast : p.fraction.getLast? ≠ some '0'

namespace Positional

variable {p : Positional}

def toRat (p : Positional) : ℚ :=
  (if p.negative then -1 else 1) * Numeral.fixedPoint p.whole p.fraction

lemma abs_toRat (p : Positional) : |p.toRat| = Numeral.fixedPoint p.whole p.fraction := by
  have hnonneg : 0 ≤ Numeral.fixedPoint p.whole p.fraction :=
    div_nonneg (Nat.cast_nonneg _) (by positivity)
  rw [toRat, abs_mul, abs_of_nonneg hnonneg]
  cases p.negative <;> simp

/-- A number written out is read as what it is worth. -/
theorem IsPlain.exists_ofText? (h : p.IsPlain) :
    ∃ d, Decimal.ofText? (String.ofList p.text) = some d ∧ d.toRat = p.toRat := by
  obtain ⟨negative, whole, fraction⟩ := p
  have hplain : (Positional.mk false whole fraction).IsPlain :=
    ⟨h.whole_ne_nil, h.whole, h.fraction⟩
  have hspelled : IsSpelled (Positional.mk false whole fraction).text
      (Numeral.fixedPoint whole fraction) :=
    ⟨_, [], 0, hplain, rfl, Decimal.isExponent_nil, (List.append_nil _).symm, by simp⟩
  obtain ⟨c, e, hread, hvalue⟩ := hspelled.ofText?_eq negative
  have htext : (Positional.mk negative whole fraction).text =
      (if negative then ['-'] else []) ++ (Positional.mk false whole fraction).text := by
    simp [text]
  refine ⟨.finite negative c e, htext ▸ hread, ?_⟩
  rw [Decimal.toRat, hvalue, toRat]

/-- A canonical numeral has a fraction unless it is worth a whole number. -/
theorem IsCanonical.fraction_eq_nil_iff (h : p.IsCanonical) :
    p.fraction = [] ↔ ∃ k : ℤ, p.toRat = k := by
  obtain ⟨negative, whole, fraction⟩ := p
  constructor
  · intro hnone
    obtain rfl : fraction = [] := hnone
    refine ⟨(if negative then -1 else 1) * Numeral.value whole, ?_⟩
    cases negative <;> simp [toRat, Numeral.fixedPoint]
  · rintro ⟨k, hk⟩
    by_contra hsome
    have hvalue : Numeral.value (whole ++ fraction) = k.natAbs * 10 ^ fraction.length := by
      have habs : Numeral.fixedPoint whole fraction = k.natAbs := by
        rw [Nat.cast_natAbs, Int.cast_abs, ← hk, abs_toRat]
      rw [Numeral.fixedPoint, div_eq_iff (by positivity)] at habs
      exact_mod_cast habs
    have hlength : fraction.length ≠ 0 := fun hlength => hsome (List.length_eq_zero_iff.mp hlength)
    have hdvd : 10 ∣ Numeral.value (whole ++ fraction) :=
      hvalue ▸ Dvd.dvd.mul_left (dvd_pow_self 10 hlength) _
    rw [Numeral.ten_dvd_value_iff (Numeral.plain_append.mpr ⟨h.whole, h.fraction⟩)
      (by simp [h.whole_ne_nil]), List.getLast?_append_of_ne_nil _ hsome] at hdvd
    exact h.getLast hdvd

/-- Placing the point makes a canonical numeral of digits without zeros at either end. -/
lemma isCanonical_ofDigits {ds : List Char} (h : Numeral.Plain ds) (hne : ds ≠ [])
    (hhead : ds.head? ≠ some '0') (hlast : ds.getLast? ≠ some '0') (negative : Bool)
    (places : Nat) : (ofDigits negative ds places).IsCanonical := by
  refine ⟨isPlain_ofDigits h negative places, fun hzero => ?_, ?_⟩
  · obtain hfew | hmany := Nat.lt_or_ge places ds.length
    · -- The whole part begins with the first of the digits.
      have hnone : places + 1 - ds.length = 0 := by omega
      have hpos : ds.length - places ≠ 0 := by omega
      rw [ofDigits, hnone, List.replicate_zero, List.nil_append, List.head?_take,
        if_neg hpos] at hzero
      exact absurd hzero hhead
    · -- All digits are in the fraction, and a single zero is before it.
      obtain ⟨k, hk⟩ : ∃ k, places + 1 - ds.length = k + 1 := ⟨places - ds.length, by omega⟩
      have htake : k + ds.length + 1 - places = 1 := by omega
      simp [ofDigits, hk, List.replicate_succ, htake]
  · rw [ofDigits, List.getLast?_drop]
    split
    · exact (Option.some_ne_none '0').symm
    · rwa [List.getLast?_append_of_ne_nil _ hne]

end Positional

namespace Decimal

/-- A decimal is written out as a canonical numeral if it has no zeros at the end of a fraction. -/
theorem isCanonical_positional (negative : Bool) {c : Nat} {e : Int} (hzero : c = 0 → e = 0)
    (hlast : e < 0 → ¬ 10 ∣ c) : (finite negative c e).positional.IsCanonical := by
  have hplain := (fixedPoint_positional negative c e).1
  have hdigits := Numeral.plain_digits c
  have hne := Numeral.digits_ne_nil c
  cases e with
  | ofNat k =>
    refine ⟨hplain, fun hhead => ?_, by simp [positional]⟩
    rw [positional, List.head?_append_of_ne_nil _ hne, Numeral.head?_digits_eq_zero_iff] at hhead
    obtain rfl : k = 0 := by simpa using hzero hhead
    rw [hhead]
    rfl
  | negSucc k =>
    have hdvd := hlast (Int.negSucc_lt_zero k)
    refine Positional.isCanonical_ofDigits hdigits hne ?_ ?_ negative (k + 1)
    · rw [Ne, Numeral.head?_digits_eq_zero_iff]
      rintro rfl
      exact hdvd (dvd_zero 10)
    · rwa [Ne, ← Numeral.ten_dvd_value_iff hdigits hne, Numeral.value_digits]

lemma negative_positional (negative : Bool) (c : Nat) (e : Int) :
    (finite negative c e).positional.negative = negative := by
  cases e <;> rfl

lemma toRat_positional (negative : Bool) (c : Nat) (e : Int) :
    (finite negative c e).positional.toRat = (finite negative c e).toRat := by
  rw [Positional.toRat, negative_positional, (fixedPoint_positional negative c e).2, toRat]

/-- The sign of a decimal stands in front. -/
lemma text_positional (negative : Bool) (c : Nat) (e : Int) :
    (finite negative c e).positional.text =
      (if negative then ['-'] else []) ++ (finite false c e).positional.text := by
  cases e <;> cases negative <;> rfl

end Decimal

/-! ## The texts of numbers -/

/-- Whether a text is a canonical numeral that is read as what it is worth, which is the number
itself if that can be written exactly, and only then. -/
structure Positional.IsTextOf (p : Positional) (n : Number) (text : List Char) : Prop where
  text_eq : text = p.text
  canonical : p.IsCanonical
  isWhole : p.fraction = [] ↔ ∃ k : ℤ, p.toRat = k
  read : ∃ d, Decimal.ofText? (String.ofList text) = some d ∧ d.toRat = p.toRat
  exact : p.toRat = n.toRat ↔ n.IsExact 0

namespace Number

def IsNegativeZero : Number → Prop
  | decimal (.finite true 0 _) => True
  | _ => False

lemma isExact_zero_int {i : Int} :
    (int i).IsExact 0 ↔ Numeral.digitCount i.natAbs ≤ Numeral.maxDigits := by
  rw [IsExact, pow_zero, mul_one]

lemma isExact_zero_decimal {negative : Bool} {c : Nat} {e : Int} :
    (decimal (.finite negative c e)).IsExact 0 ↔ Decimal.IsHeld (c * 10 ^ e) := by
  rw [IsExact, pow_zero, mul_one, and_self_iff, Decimal.abs_toRat_finite]
  exact and_iff_right rfl

variable {n : Number} {text : List Char}

lemma isTextOf_positional (negative : Bool) {c : Nat} {e : Int} (hzero : c = 0 → e = 0)
    (hlast : e < 0 → ¬ 10 ∣ c)
    (hexact : (Decimal.finite negative c e).toRat = n.toRat ↔ n.IsExact 0) :
    (Decimal.finite negative c e).positional.IsTextOf n
      (Decimal.finite negative c e).positional.text := by
  have hcanonical := Decimal.isCanonical_positional negative hzero hlast
  refine ⟨rfl, hcanonical, hcanonical.fraction_eq_nil_iff,
    hcanonical.toIsPlain.exists_ofText?, ?_⟩
  rwa [Decimal.toRat_positional]

/-! ### Integers -/

/-- Without a section an integer is written as it is. -/
lemma plainText_int (i : Int) : (int i).plainText = (int i).positional.map (·.text) := by
  have hsign : (int i).toRat < 0 ↔ i < 0 := Int.cast_lt_zero
  rw [plainText_of_isFinite rfl, magnitude, Except.bind, positional_natCast, positional_int]
  by_cases hfits : Numeral.digitCount i.natAbs ≤ Numeral.maxDigits
  · rw [if_pos hfits, if_pos hfits]
    by_cases hi : i < 0 <;> simp [Except.map, Positional.text, hsign, hi]
  · rw [if_neg hfits, if_neg hfits]
    rfl

/-- An integer that is written is written exactly. -/
lemma isTextOf_int {i : Int} (h : (int i).positional.map (·.text) = .ok text) :
    ∃ p : Positional, p.IsTextOf (int i) text ∧ (p.negative ↔ (int i).toRat < 0) := by
  have hwritten : (Decimal.finite (decide (i < 0)) i.natAbs 0).positional =
      ⟨decide (i < 0), Numeral.digits i.natAbs, []⟩ := by
    simp [Decimal.positional]
  have hvalue : (Decimal.finite (decide (i < 0)) i.natAbs 0).toRat = (int i).toRat := by
    obtain hi | hi := lt_or_ge i 0
    · simp [Decimal.toRat, toRat, hi, abs_of_neg hi]
    · simp [Decimal.toRat, toRat, not_lt.mpr hi, abs_of_nonneg hi]
  rw [positional_int] at h
  split at h
  · next hfits =>
    obtain rfl := Except.ok.inj h
    rw [← hwritten]
    refine ⟨_, isTextOf_positional _ (fun _ => rfl) (fun h => absurd h (lt_irrefl 0))
      (iff_of_true hvalue (isExact_zero_int.mpr hfits)), ?_⟩
    rw [Decimal.negative_positional, decide_eq_true_iff]
    exact Int.cast_lt_zero.symm
  · cases h

/-! ### Decimals -/

/-- What fits into the context is written as a canonical numeral. -/
lemma exists_positional_of_fit (negative : Bool) {c c' : Nat} {e e' : Int}
    (h : Decimal.fit c e = .ok (c', e')) :
    ∃ d f, (decimal (.finite negative c e)).positional =
        .ok (Decimal.finite negative d f).positional ∧
      (d : ℚ) * 10 ^ f = c' * 10 ^ e' ∧ (d = 0 → f = 0) ∧ (f < 0 → ¬ 10 ∣ d) := by
  obtain ⟨d, f, hnormalize, hvalue, hcanonical⟩ := Decimal.exists_normalize_of_fit negative h
  refine ⟨d, f, ?_, hvalue, ?_, ?_⟩
  · rw [positional, hnormalize]
    rfl
  · rintro rfl
    exact hcanonical.elim And.right fun hdvd => absurd (dvd_zero 10) hdvd
  · intro hf
    exact hcanonical.resolve_left fun hzero => hf.ne hzero.2

/-- A decimal is rounded to the context before it is written. Its sign stays, even if it is that of
a zero. -/
lemma isTextOf_decimal {negative : Bool} {c : Nat} {e : Int}
    (hnonneg : 0 ≤ (decimal (.finite negative c e)).toRat)
    (h : (decimal (.finite negative c e)).positional.map (·.text) = .ok text) :
    ∃ p : Positional, p.IsTextOf (decimal (.finite negative c e)) text ∧
      (p.negative ↔ (decimal (.finite negative c e)).IsNegativeZero) := by
  obtain ⟨written, hwritten, rfl⟩ := Except.map_eq_ok_iff.mp h
  obtain ⟨d', hnormalize, -⟩ := Except.map_eq_ok_iff.mp hwritten
  obtain ⟨⟨c', e'⟩, hfit, -⟩ := Except.map_eq_ok_iff.mp hnormalize
  obtain ⟨d, f, hpositional, hvalue, hzero, hlast⟩ := exists_positional_of_fit negative hfit
  obtain rfl := Except.ok.inj (hwritten.symm.trans hpositional)
  refine ⟨_, isTextOf_positional negative hzero hlast ?_, ?_⟩
  · have hsign : (if negative then -1 else 1 : ℚ) ≠ 0 := by cases negative <;> norm_num
    rw [isExact_zero_decimal, ← Decimal.fit_value_eq_iff hfit, ← hvalue]
    exact mul_right_inj' hsign
  · rw [Decimal.negative_positional]
    cases negative with
    | false => simp [IsNegativeZero]
    | true =>
      have hlt : ¬ (Decimal.finite true c e).toRat < 0 := not_lt.mpr hnonneg
      rw [Decimal.toRat_neg_iff] at hlt
      obtain rfl : c = 0 := by simpa using hlt
      exact iff_of_true rfl trivial

/-- A decimal with the sign of a number is worth the number if it has its magnitude. -/
lemma toRat_finite_eq_iff (q : ℚ) (d : Nat) (f : Int) :
    (Decimal.finite (decide (q < 0)) d f).toRat = q ↔ (d : ℚ) * 10 ^ f = |q| := by
  obtain hq | hq := lt_or_ge q 0
  · simp [Decimal.toRat, hq, abs_of_neg hq, neg_eq_iff_eq_neg]
  · simp [Decimal.toRat, not_lt.mpr hq, abs_of_nonneg hq]

/-- Without a section it is the magnitude that is rounded, and a minus sign stands before whatever
is left of it. -/
lemma isTextOf_plainText_decimal {negative : Bool} {c : Nat} {e : Int}
    (h : (decimal (.finite negative c e)).plainText = .ok text) :
    ∃ p : Positional, p.IsTextOf (decimal (.finite negative c e)) text ∧
      (p.negative ↔ (decimal (.finite negative c e)).toRat < 0) := by
  rw [plainText_of_isFinite rfl, Except.map_eq_ok_iff] at h
  obtain ⟨written, hwritten, rfl⟩ := h
  obtain ⟨magnitude, hmagnitude, hpositional⟩ := Except.bind_eq_ok_iff.mp hwritten
  obtain ⟨d', habs, rfl⟩ := Except.map_eq_ok_iff.mp hmagnitude
  obtain ⟨⟨c', e'⟩, hfit, rfl⟩ := Except.map_eq_ok_iff.mp habs
  -- The magnitude fits already, so that it is not rounded again.
  obtain ⟨c₂, e₂, hfit', hvalue'⟩ := Decimal.exists_fit_eq (Decimal.isHeld_of_fit hfit)
  obtain ⟨d, f, hpositional', hvalue, hzero, hlast⟩ := exists_positional_of_fit false hfit'
  obtain rfl := Except.ok.inj (hpositional.symm.trans hpositional')
  refine ⟨(Decimal.finite (decide ((decimal (.finite negative c e)).toRat < 0)) d f).positional,
    ?_, ?_⟩
  · have hexact : (Decimal.finite (decide ((decimal (.finite negative c e)).toRat < 0)) d f).toRat =
        (decimal (.finite negative c e)).toRat ↔ (decimal (.finite negative c e)).IsExact 0 := by
      rw [toRat_finite_eq_iff, isExact_zero_decimal, ← Decimal.fit_value_eq_iff hfit, hvalue,
        hvalue', toRat, Decimal.abs_toRat_finite]
    have htext := isTextOf_positional _ hzero hlast hexact
    rw [Decimal.text_positional] at htext
    simpa using htext
  · rw [Decimal.negative_positional, decide_eq_true_iff]

/-! ### What is written exactly -/

/-- What can be written exactly is written. -/
lemma exists_text_of_isExact (h : n.IsExact 0) :
    (∃ text, n.plainText = .ok text) ∧ ∃ written, n.positional = .ok written := by
  cases n with
  | int i =>
    have hwritten : ∃ written, (int i).positional = .ok written :=
      ⟨_, (positional_int i).trans (if_pos (isExact_zero_int.mp h))⟩
    refine ⟨?_, hwritten⟩
    obtain ⟨written, hwritten⟩ := hwritten
    exact ⟨written.text, by rw [plainText_int, hwritten]; rfl⟩
  | float x => exact h.elim
  | decimal d =>
    cases d with
    | finite negative c e =>
      have hheld := isExact_zero_decimal.mp h
      obtain ⟨c', e', habs, hvalue⟩ := Decimal.exists_abs_eq negative hheld
      obtain ⟨d, f, hnormalize, -⟩ := Decimal.exists_normalize_eq negative hheld
      rw [← hvalue] at hheld
      obtain ⟨d', f', hnormalize', -⟩ := Decimal.exists_normalize_eq false hheld
      constructor
      · rw [plainText_of_isFinite rfl, magnitude, habs, Except.map, Except.bind, positional,
          hnormalize']
        exact ⟨_, rfl⟩
      · rw [positional, hnormalize]
        exact ⟨_, rfl⟩
    | _ => cases h.1

end Number

/-- The text of an integer or a finite decimal is a canonical numeral with its sign. It is read back
as the number if that is an integer or a decimal that the context holds, and then there is such a
text; any other decimal is rounded. The decimal text of a number that is not negative is such a
numeral as well, though a negative zero keeps its sign. -/
theorem plainText_isTextOf {n : Number} (hn : n.isFinite) (hfloat : ∀ x, n ≠ .float x) :
    (∀ text, (CellValue.number n).toValue.plainText = .ok text →
      ∃ p : Positional, p.IsTextOf n text ∧ (p.negative ↔ n.toRat < 0)) ∧
    (0 ≤ n.toRat → ∀ text, (CellValue.number n).toValue.decimalText = .ok text →
      ∃ p : Positional, p.IsTextOf n text ∧ (p.negative ↔ n.IsNegativeZero)) ∧
    (n.IsExact 0 → (∃ text, (CellValue.number n).toValue.plainText = .ok text) ∧
      ∃ text, (CellValue.number n).toValue.decimalText = .ok text) := by
  have hplain : (CellValue.number n).toValue.plainText = n.plainText := by cases n <;> rfl
  have hdecimal : (CellValue.number n).toValue.decimalText = n.positional.map (·.text) := by
    cases n <;> rfl
  rw [hplain, hdecimal]
  refine ⟨fun text htext => ?_, fun hnonneg text htext => ?_, fun hexact => ?_⟩
  · cases n with
    | int i => exact Number.isTextOf_int (Number.plainText_int i ▸ htext)
    | float x => exact absurd rfl (hfloat x)
    | decimal d =>
      cases d with
      | finite negative c e => exact Number.isTextOf_plainText_decimal htext
      | _ => cases hn
  · cases n with
    | int i =>
      obtain ⟨p, htext, hsign⟩ := Number.isTextOf_int htext
      exact ⟨p, htext, hsign.trans (iff_of_false (not_lt.mpr hnonneg) id)⟩
    | float x => exact absurd rfl (hfloat x)
    | decimal d =>
      cases d with
      | finite negative c e => exact Number.isTextOf_decimal hnonneg htext
      | _ => cases hn
  · obtain ⟨hplain, written, hwritten⟩ := Number.exists_text_of_isExact hexact
    exact ⟨hplain, written.text, by rw [hwritten]; rfl⟩

/-- An amount that the context holds, without the zero at its end. -/
theorem plainText_isTextOf_amount :
    (Value.decimal (.finite true 1050 (-2))).plainText = .ok "-10.5".toList ∧
      ∃ p : Positional, p.IsTextOf (.decimal (.finite true 1050 (-2))) "-10.5".toList ∧
        p.negative ∧ p.toRat = -10.5 := by
  have hvalue : (Number.decimal (.finite true 1050 (-2))).toRat = -10.5 := by
    norm_num [Number.toRat, Decimal.toRat]
  have hexact : (Number.decimal (.finite true 1050 (-2))).IsExact 0 :=
    Number.isExact_zero_decimal.mpr ⟨1050, -2, by decide, by decide, fun _ => by decide, rfl⟩
  have htext : (Value.decimal (.finite true 1050 (-2))).plainText = .ok "-10.5".toList := rfl
  obtain ⟨p, hp, hsign⟩ :=
    (plainText_isTextOf (n := .decimal (.finite true 1050 (-2))) rfl (by simp)).1 _ htext
  refine ⟨htext, p, hp, hsign.mpr (by rw [hvalue]; norm_num), ?_⟩
  rw [hp.exact.mpr hexact, hvalue]

/-- The last of 29 digits is rounded away. -/
theorem plainText_rounded :
    (Value.decimal (.finite false 12345678901234567890123456789 (-29))).plainText =
        .ok "0.1234567890123456789012345679".toList ∧
      Decimal.ofText? "0.1234567890123456789012345679" =
        some (.finite false 1234567890123456789012345679 (-28)) ∧
      (Decimal.finite false 1234567890123456789012345679 (-28)).toRat ≠
        (Decimal.finite false 12345678901234567890123456789 (-29)).toRat := by
  refine ⟨rfl, by decide +kernel, ?_⟩
  norm_num [Decimal.toRat]

end FormatCode
