import FormatCode.Format.Display
import FormatCode.Proofs.Decimal.Exact
import FormatCode.Proofs.Number.Sign
import FormatCode.Proofs.Numeral.FixedPoint

/-!
# Numbers that are written out exactly

An integer is written out exactly if it is not too long, and a decimal if the context holds it, both
before and after it is multiplied as the percent signs ask for. Binary numbers are written out with
as many digits as tell them from their neighbours, which is not exact.

## Main definitions

* `Positional.IsPlain` — a number written out with plain digits only.
* `Number.toRat` — the value of a number.
* `Number.IsExact` — the numbers that are written out exactly.

## Main statements

* `Decimal.fixedPoint_positional` — a decimal is written out as what it is worth.
* `Number.compareZero_less` — whether a number is negative.
* `Number.plainText_of_isFinite` — the text of a number without a section.
* `Section.exists_canonical`, `Section.exists_positional` — what is written out for the digits of a
  section.
-/

namespace FormatCode

/-- Whether a number is written out with plain digits, at least one of them before the point. -/
structure Positional.IsPlain (p : Positional) : Prop where
  whole_ne_nil : p.whole ≠ []
  whole : Numeral.Plain p.whole
  fraction : Numeral.Plain p.fraction

namespace Positional

variable {ds : List Char}

/-- Digits are plain with a point between them if they are without it. -/
lemma isPlain_ofDigits (h : Numeral.Plain ds) (negative : Bool) (places : Nat) :
    (ofDigits negative ds places).IsPlain := by
  have hpadded : Numeral.Plain (List.replicate (places + 1 - ds.length) '0' ++ ds) :=
    Numeral.plain_append.mpr ⟨Numeral.plain_replicate_zero _, h⟩
  refine ⟨?_, hpadded.take _, hpadded.drop _⟩
  rw [← List.length_pos_iff, ofDigits, List.length_take, List.length_append, List.length_replicate]
  omega

/-- Placing the point divides by a power of ten. -/
lemma fixedPoint_ofDigits (h : Numeral.Plain ds) (negative : Bool) (places : Nat) :
    Numeral.fixedPoint (ofDigits negative ds places).whole (ofDigits negative ds places).fraction =
      Numeral.value ds / 10 ^ places := by
  have hlength : (ofDigits negative ds places).fraction.length = places := by
    rw [ofDigits, List.length_drop, List.length_append, List.length_replicate]
    omega
  have hvalue : Numeral.value (List.replicate (places + 1 - ds.length) '0' ++ ds) =
      Numeral.value ds := by
    rw [Numeral.value_append (Numeral.plain_replicate_zero _) h, Numeral.value_replicate_zero,
      Nat.zero_mul, Nat.zero_add]
  rw [Numeral.fixedPoint, hlength, ofDigits, List.take_append_drop, hvalue]

end Positional

namespace Decimal

/-- A finite decimal is written out as what it is worth. -/
theorem fixedPoint_positional (negative : Bool) (c : Nat) (e : Int) :
    (finite negative c e).positional.IsPlain ∧
      Numeral.fixedPoint (finite negative c e).positional.whole
        (finite negative c e).positional.fraction = c * 10 ^ e := by
  have hdigits := Numeral.plain_digits c
  cases e with
  | ofNat k =>
    have hzeros := Numeral.plain_replicate_zero k
    refine ⟨⟨?_, Numeral.plain_append.mpr ⟨hdigits, hzeros⟩, Numeral.plain_nil⟩, ?_⟩
    · simp [positional, Numeral.digits_ne_nil]
    · rw [positional, Numeral.fixedPoint, List.append_nil, Numeral.value_append hdigits hzeros]
      simp
  | negSucc k =>
    refine ⟨Positional.isPlain_ofDigits hdigits negative (k + 1), ?_⟩
    rw [positional, Positional.fixedPoint_ofDigits hdigits, Numeral.value_digits, zpow_negSucc,
      div_eq_mul_inv]

/-- A whole number is written like its canonical decimal. -/
lemma exists_canonical_natCast (n : Nat) :
    ∃ c e, (finite false c e).positional = ⟨false, Numeral.digits n, []⟩ ∧ IsCanonical c e ∧
      (c : ℚ) * 10 ^ e = n := by
  obtain rfl | hn := eq_or_ne n 0
  · exact ⟨0, 0, rfl, .inl ⟨rfl, rfl⟩, by simp⟩
  obtain ⟨c, hc⟩ := pow_trailingZeros_dvd n
  have hquotient : n / 10 ^ trailingZeros n = c :=
    Nat.div_eq_of_eq_mul_right (by positivity) hc
  have hlast : ¬ 10 ∣ c := hquotient ▸ not_dvd_div_trailingZeros hn
  have hzero : c ≠ 0 := by
    rintro rfl
    exact hlast (dvd_zero 10)
  have hdigits : Numeral.digits n = Numeral.digits c ++ List.replicate (trailingZeros n) '0' := by
    rw [← Numeral.digits_mul_pow hzero, Nat.mul_comm, ← hc]
  refine ⟨c, Int.ofNat (trailingZeros n), ?_, .inr hlast, ?_⟩
  · rw [positional, hdigits]
  · rw [Int.ofNat_eq_natCast, zpow_natCast, mul_comm]
    exact_mod_cast hc.symm

lemma sign_eq_lt_iff (negative : Bool) (c : Nat) (e : Int) :
    (finite negative c e).sign = .lt ↔ (finite negative c e).toRat < 0 := by
  rw [toRat_neg_iff]
  cases negative <;> by_cases hc : c = 0 <;> simp [sign, hc]

end Decimal

namespace Number

def toRat : Number → ℚ
  | int i => i
  | float x => x.toDecimal.toRat
  | decimal d => d.toRat

/-- Whether a number is written out exactly after it is multiplied by a hundred as often as there
are percent signs. -/
def IsExact (percents : Nat) : Number → Prop
  | int i => Numeral.digitCount (i.natAbs * 100 ^ percents) ≤ Numeral.maxDigits
  | float _ => False
  | decimal d =>
    d.isFinite ∧ Decimal.IsHeld |d.toRat| ∧ Decimal.IsHeld (|d.toRat| * 100 ^ percents)

lemma IsExact.isFinite {percents : Nat} {n : Number} (h : n.IsExact percents) : n.isFinite := by
  cases n with
  | int i => rfl
  | float x => exact h.elim
  | decimal d => exact h.1

lemma sign_eq_lt_iff {n : Number} (h : n.isFinite) : n.sign = .lt ↔ n.toRat < 0 := by
  cases n with
  | int i => simpa [sign, toRat] using compare_lt_iff_lt
  | float x =>
    cases x with
    | finite negative bits =>
      rw [toRat, Binary64.toRat_toDecimal]
      by_cases hbits : bits.val = 0
      · simp [sign, hbits, Binary64.magnitude_zero]
      · have hpos : 0 < Binary64.magnitude bits :=
          (Binary64.two_zpow_pos _).trans_le (Binary64.le_magnitude hbits)
        cases negative <;> simp [sign, hbits, hpos, hpos.le]
    | _ => cases h
  | decimal d =>
    cases d with
    | finite negative c e => exact Decimal.sign_eq_lt_iff negative c e
    | _ => cases h

/-- Whether a finite number is negative is whether its value is. -/
theorem compareZero_less {n : Number} (h : n.isFinite) :
    n.compareZero .less = .ok (decide (n.toRat < 0)) := by
  have hholds : Comparison.less.holds n.sign = (n.sign == .lt) := rfl
  rw [compareZero_eq (not_isNan_of_isFinite h), hholds, Except.ok.injEq, Bool.eq_iff_iff,
    beq_iff_eq, sign_eq_lt_iff h, decide_eq_true_iff]

/-- Without a section a finite number is written out with its sign. -/
lemma plainText_of_isFinite {n : Number} (h : n.isFinite) :
    n.plainText = (n.magnitude.bind positional).map
      fun written => (if n.toRat < 0 then ['-'] else []) ++ written.text := by
  rw [plainText, if_pos h, compareZero_less h]
  cases n.magnitude with
  | error e => rfl
  | ok m => cases h : m.positional <;> simp [bind, Except.bind, h, Except.map, pure, Except.pure]

/-- An integer is written out if it is not too long. -/
lemma positional_int (i : Int) :
    (int i).positional = if Numeral.digitCount i.natAbs ≤ Numeral.maxDigits then
      .ok ⟨decide (i < 0), Numeral.digits i.natAbs, []⟩ else .error .tooLongToWrite := by
  rw [positional, writeInt, Int.natAbs_natCast]
  by_cases hfits : Numeral.fits i.natAbs
  · rw [if_pos hfits, if_pos ((Numeral.fits_iff _).mp hfits)]
    rfl
  · rw [if_neg hfits, if_neg (mt (Numeral.fits_iff _).mpr hfits)]
    rfl

lemma positional_natCast (n : Nat) :
    (int n).positional = if Numeral.digitCount n ≤ Numeral.maxDigits then
      .ok ⟨false, Numeral.digits n, []⟩ else .error .tooLongToWrite := by
  have hsign : decide ((n : Int) < 0) = false := by
    rw [decide_eq_false_iff_not]
    omega
  rw [positional_int, hsign, Int.natAbs_natCast]

end Number

namespace Section

/-- An integer is multiplied without loss. -/
lemma scaled_int (s : Section) (i : Int) :
    s.scaled (.int i) = .ok (.int (i.natAbs * 100 ^ s.percentCount : Nat)) := by
  by_cases hp : s.percentCount = 0
  · simp [scaled, Number.magnitude, hp, bind, Except.bind, pure, Except.pure]
  · simp [scaled, Number.magnitude, Number.scaleByPercent, hp, bind, Except.bind]

lemma exists_scaled_decimal {s : Section} (negative : Bool) {c : Nat} {e : Int}
    (hheld : Decimal.IsHeld (c * 10 ^ e))
    (hheld' : Decimal.IsHeld (c * 10 ^ e * 100 ^ s.percentCount)) :
    ∃ c' e', s.scaled (.decimal (.finite negative c e)) = .ok (.decimal (.finite false c' e')) ∧
      (c' : ℚ) * 10 ^ e' = c * 10 ^ e * 100 ^ s.percentCount := by
  obtain ⟨c₁, e₁, habs, hvalue⟩ := Decimal.exists_abs_eq negative hheld
  by_cases hp : s.percentCount = 0
  · refine ⟨c₁, e₁, ?_, ?_⟩
    · simp [scaled, Number.magnitude, habs, hp, bind, Except.bind, Except.map, pure, Except.pure]
    · rw [hvalue, hp, pow_zero, mul_one]
  · have hhundred : (100 : ℚ) ^ s.percentCount = 10 ^ (2 * s.percentCount) := by
      rw [pow_mul]
      norm_num
    rw [← hvalue, hhundred] at hheld'
    obtain ⟨c₂, e₂, hshift, hvalue'⟩ := Decimal.exists_shift_eq false hheld'
    refine ⟨c₂, e₂, ?_, ?_⟩
    · simp [scaled, Number.magnitude, Number.scaleByPercent, habs, hshift, hp, bind, Except.bind,
        Except.map]
    · rw [hvalue', hvalue, hhundred]

/-- The digits of a section are those of the canonical decimal of the number, multiplied as the
percent signs ask for. -/
theorem exists_canonical {s : Section} {n : Number} (h : n.IsExact s.percentCount) :
    ∃ scaled c e, s.scaled n = .ok scaled ∧
      scaled.positional = .ok (Decimal.finite false c e).positional ∧
      Decimal.IsCanonical c e ∧ (c : ℚ) * 10 ^ e = |n.toRat| * 100 ^ s.percentCount := by
  cases n with
  | int i =>
    obtain ⟨c, e, hpositional, hcanonical, hvalue⟩ :=
      Decimal.exists_canonical_natCast (i.natAbs * 100 ^ s.percentCount)
    refine ⟨_, c, e, s.scaled_int i, ?_, hcanonical, ?_⟩
    · rw [Number.positional_natCast, hpositional]
      exact if_pos h
    · rw [hvalue]
      simp [Number.toRat]
  | float x => exact h.elim
  | decimal d =>
    cases d with
    | finite negative c e =>
      obtain ⟨-, hheld, hheld'⟩ := h
      rw [Number.toRat]
      rw [Decimal.abs_toRat_finite] at *
      obtain ⟨c₁, e₁, hscaled, hvalue⟩ := exists_scaled_decimal negative hheld hheld'
      rw [← hvalue] at hheld' ⊢
      obtain ⟨c₂, e₂, hnormalize, hvalue', hcanonical⟩ := Decimal.exists_normalize_eq false hheld'
      refine ⟨_, c₂, e₂, hscaled, ?_, hcanonical, hvalue'⟩
      rw [Number.positional, hnormalize]
      rfl
    | _ => cases h.1

/-- The digits of a section are those of the number, multiplied as the percent signs ask for. -/
theorem exists_positional {s : Section} {n : Number} (h : n.IsExact s.percentCount) :
    ∃ scaled written, s.scaled n = .ok scaled ∧ scaled.positional = .ok written ∧
      written.IsPlain ∧
      Numeral.fixedPoint written.whole written.fraction = |n.toRat| * 100 ^ s.percentCount := by
  obtain ⟨scaled, c, e, hscaled, hpositional, -, hvalue⟩ := exists_canonical h
  obtain ⟨hplain, hwritten⟩ := Decimal.fixedPoint_positional false c e
  exact ⟨scaled, _, hscaled, hpositional, hplain, hwritten.trans hvalue⟩

end Section

end FormatCode
