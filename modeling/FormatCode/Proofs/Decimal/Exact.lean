import FormatCode.Decimal.Context
import FormatCode.Proofs.Numeral.Digits
import Mathlib.Algebra.Order.Field.Rat
import Mathlib.Algebra.Order.Field.Basic
import Mathlib.Algebra.Order.Ring.Abs
import Mathlib.Data.List.TakeWhile
import Mathlib.Tactic.NormNum
import Mathlib.Tactic.Positivity

/-!
# Exact decimal arithmetic

The context holds a value exactly if some coefficient of at most 28 digits and some exponent in
range make it up. Such a value may be written with other coefficients and exponents too, but
bringing it into the context never rounds it: all digits that do not fit are zeros.

## Main definitions

* `Decimal.toRat` — the value of a finite decimal.
* `Decimal.IsHeld` — the values that the context holds exactly.
* `Decimal.IsCanonical` — the coefficients and exponents without zeros at the end.

## Main statements

* `Decimal.adjusted_spec` — the place of the leading digit bounds the value.
* `Decimal.IsCanonical.unique` — a value is written without zeros at the end in one way.
* `Decimal.exists_fit_eq` — a value that the context holds is not changed by bringing it there.
* `Decimal.isHeld_of_fit` — the context holds what is brought into it.
* `Decimal.exists_abs_eq`, `Decimal.exists_shift_eq`, `Decimal.exists_normalize_eq` — exact results.
-/

namespace FormatCode

namespace Decimal

/-! ## Values -/

/-- The value of a finite decimal; zero for all others. -/
def toRat : Decimal → ℚ
  | finite negative c e => (if negative then -1 else 1) * (c * 10 ^ e)
  | _ => 0

lemma ten_zpow_pos (e : Int) : (0 : ℚ) < 10 ^ e := zpow_pos (by norm_num) e

lemma abs_toRat_finite (negative : Bool) (c : Nat) (e : Int) :
    |(finite negative c e).toRat| = c * 10 ^ e := by
  have hnonneg : (0 : ℚ) ≤ c * 10 ^ e := mul_nonneg (Nat.cast_nonneg c) (ten_zpow_pos e).le
  cases negative <;> simp [toRat, abs_of_nonneg hnonneg, abs_neg]

lemma toRat_neg_iff (negative : Bool) (c : Nat) (e : Int) :
    (finite negative c e).toRat < 0 ↔ negative ∧ c ≠ 0 := by
  have hpos := ten_zpow_pos e
  have hnonneg : (0 : ℚ) ≤ c * 10 ^ e := mul_nonneg (Nat.cast_nonneg c) hpos.le
  cases negative with
  | false => simpa [toRat] using hnonneg
  | true =>
    have hzero : (c : ℚ) * 10 ^ e = 0 ↔ c = 0 := by
      rw [mul_eq_zero, Nat.cast_eq_zero, or_iff_left hpos.ne']
    have hlt : (0 : ℚ) < c * 10 ^ e ↔ c ≠ 0 := by
      rw [hnonneg.lt_iff_ne, ne_comm, Ne, hzero]
    simpa [toRat] using hlt

/-- Of two ways to write a value, the coefficient at the smaller exponent ends in zeros. -/
lemma coefficient_eq {c d : Nat} {e f : Int} (h : (c : ℚ) * 10 ^ e = d * 10 ^ f) (hle : e ≤ f) :
    c = d * 10 ^ (f - e).toNat := by
  have hsplit : (10 : ℚ) ^ f = 10 ^ (f - e).toNat * 10 ^ e := by
    rw [← zpow_natCast, ← zpow_add₀ (by norm_num)]
    congr 1
    omega
  rw [hsplit, ← mul_assoc] at h
  have hcoefficient := mul_right_cancel₀ (ten_zpow_pos e).ne' h
  exact_mod_cast hcoefficient

lemma adjusted_mul_pow {c : Nat} (hc : c ≠ 0) (e : Int) (k : Nat) :
    adjusted (c * 10 ^ k) e = adjusted c (e + k) := by
  rw [adjusted, adjusted, Numeral.digitCount_mul_pow hc]
  omega

/-- The exponent of the leading digit depends on the value only. -/
theorem adjusted_eq {c d : Nat} {e f : Int} (h : (c : ℚ) * 10 ^ e = d * 10 ^ f) (hc : c ≠ 0)
    (hd : d ≠ 0) : adjusted c e = adjusted d f := by
  obtain hle | hle := le_total e f
  · rw [coefficient_eq h hle, adjusted_mul_pow hd]
    congr 1
    omega
  · rw [coefficient_eq h.symm hle, adjusted_mul_pow hc]
    congr 1
    omega

/-- The exponent of the leading digit is that of the power of ten below. -/
theorem adjusted_spec {c : Nat} (hc : c ≠ 0) (e : Int) :
    (10 : ℚ) ^ adjusted c e ≤ c * 10 ^ e ∧ (c : ℚ) * 10 ^ e < 10 ^ (adjusted c e + 1) := by
  obtain ⟨k, hk⟩ := Nat.exists_eq_succ_of_ne_zero (Numeral.digitCount_pos c).ne'
  have hlow : 10 ^ k ≤ c := by
    obtain rfl | hk' := Nat.eq_zero_or_pos k
    · exact Nat.pos_of_ne_zero hc
    · rw [← not_lt, ← Numeral.digitCount_le_iff hk']
      omega
  have hhigh : c < 10 ^ (k + 1) := by
    rw [← Nat.succ_eq_add_one, ← hk]
    exact Numeral.lt_pow_digitCount c
  have hadjusted : adjusted c e = k + e := by
    rw [adjusted, hk]
    push_cast
    ring
  have hten : (10 : ℚ) ≠ 0 := by norm_num
  rw [hadjusted, add_right_comm, zpow_add₀ hten, zpow_add₀ hten]
  constructor
  · exact mul_le_mul_of_nonneg_right (by exact_mod_cast hlow) (ten_zpow_pos e).le
  · exact mul_lt_mul_of_pos_right (by exact_mod_cast hhigh) (ten_zpow_pos e)

/-- A value that the context holds exactly: as a coefficient of at most 28 digits with an exponent
in range. -/
def IsHeld (q : ℚ) : Prop :=
  ∃ (c : Nat) (e : Int), c < 10 ^ precision ∧ tiny ≤ e ∧ (c ≠ 0 → adjusted c e ≤ maxExponent) ∧
    q = c * 10 ^ e

/-! ## Operations -/

/-- The digits that are rounded away are zeros, where the value has a coefficient that fits. -/
lemma roundToContext_eq {c d : Nat} {e f : Int} (h : (c : ℚ) * 10 ^ e = d * 10 ^ f) (hc : c ≠ 0)
    (hd : d ≠ 0) (hd' : d < 10 ^ precision) (hf : tiny ≤ f) :
    ∃ c' e', roundToContext c e = (c', e') ∧ (c' : ℚ) * 10 ^ e' = c * 10 ^ e := by
  have hadjusted := adjusted_eq h hc hd
  have hprecision : Numeral.digitCount d ≤ precision :=
    (Numeral.digitCount_le_iff (by decide)).mpr hd'
  have hlast : lastPlace c e ≤ f := by
    rw [adjusted, adjusted] at hadjusted
    rw [lastPlace]
    omega
  by_cases hround : e < lastPlace c e
  · obtain ⟨k, hk⟩ : ∃ k : Nat, lastPlace c e = e + k := ⟨(lastPlace c e - e).toNat, by omega⟩
    obtain ⟨j, hj⟩ : ∃ j : Nat, f = lastPlace c e + j := ⟨(f - lastPlace c e).toNat, by omega⟩
    -- The digits that are kept are those of the coefficient that fits, and zeros.
    have hcoefficient : c = d * 10 ^ j * 10 ^ k := by
      rw [coefficient_eq h (by omega), Nat.mul_assoc, ← Nat.pow_add]
      congr 2
      omega
    have hrounded : roundOff c (lastPlace c e - e).toNat = d * 10 ^ j := by
      have hkept : (lastPlace c e - e).toNat = k := by omega
      have hlong : ¬ Numeral.digitCount c < k := by
        rw [hcoefficient, Numeral.digitCount_mul_pow (by positivity)]
        omega
      rw [hkept, roundOff, if_neg hlong, hcoefficient]
      exact roundHalfEven_mul _ _ (by positivity)
    have hkept : d * 10 ^ j ≠ 10 ^ precision := by
      have hdigits : Numeral.digitCount (d * 10 ^ j) ≤ precision := by
        have : e + Numeral.digitCount c - precision ≤ lastPlace c e := le_max_left _ _
        rw [adjusted, adjusted] at hadjusted
        rw [Numeral.digitCount_mul_pow hd]
        omega
      exact ((Numeral.digitCount_le_iff (by decide)).mp hdigits).ne
    refine ⟨d * 10 ^ j, lastPlace c e, ?_, ?_⟩
    · rw [roundToContext, if_pos hround, hrounded, if_neg hkept]
    · rw [h, hj, zpow_add₀ (by norm_num), zpow_natCast]
      push_cast
      ring
  · exact ⟨c, e, by rw [roundToContext, if_neg hround], rfl⟩

/-- A value that the context holds exactly is not changed by bringing it there. -/
theorem exists_fit_eq {c : Nat} {e : Int} (h : IsHeld (c * 10 ^ e)) :
    ∃ c' e', fit c e = .ok (c', e') ∧ (c' : ℚ) * 10 ^ e' = c * 10 ^ e := by
  obtain rfl | hc := eq_or_ne c 0
  · exact ⟨0, _, rfl, by simp⟩
  obtain ⟨d, f, hd', hf, hmax, hvalue⟩ := h
  have hd : d ≠ 0 := by
    rintro rfl
    rw [Nat.cast_zero, zero_mul] at hvalue
    have := mul_pos (Nat.cast_pos.mpr (Nat.pos_of_ne_zero hc)) (ten_zpow_pos e)
    exact this.ne' hvalue
  obtain ⟨c', e', hround, hvalue'⟩ := roundToContext_eq hvalue hc hd hd' hf
  have hrange : ¬ maxExponent < adjusted c e := by
    rw [adjusted_eq hvalue hc hd]
    exact not_lt.mpr (hmax hd)
  have hrange' : ¬ (c' ≠ 0 ∧ maxExponent < adjusted c' e') := by
    rintro ⟨hc', hlarge⟩
    rw [adjusted_eq (hvalue'.trans hvalue) hc' hd] at hlarge
    exact absurd hlarge (not_lt.mpr (hmax hd))
  refine ⟨c', e', ?_, hvalue'⟩
  simp only [fit, if_neg hc, if_neg hrange, hround, if_neg hrange']

/-- What is rounded off leaves no more than one digit too many. -/
lemma roundOff_le {c k j : Nat} (h : Numeral.digitCount c ≤ j + k) : roundOff c k ≤ 10 ^ j := by
  rw [roundOff]
  split
  · exact Nat.zero_le _
  · have hlt : c < 10 ^ j * 10 ^ k := by
      rw [← Nat.pow_add]
      exact (Numeral.lt_pow_digitCount c).trans_le (Nat.pow_le_pow_right (by decide) h)
    calc roundHalfEven c (10 ^ k) ≤ c / 10 ^ k + 1 := roundHalfEven_le c (10 ^ k)
      _ ≤ 10 ^ j := Nat.div_lt_of_lt_mul (by rwa [Nat.mul_comm])

/-- After rounding there are at most 28 digits, and no place below the last one. -/
lemma roundToContext_bounds (c : Nat) (e : Int) :
    (roundToContext c e).1 < 10 ^ precision ∧ tiny ≤ (roundToContext c e).2 := by
  have htiny : tiny ≤ lastPlace c e := le_max_right _ _
  rw [roundToContext]
  by_cases hround : e < lastPlace c e
  · have hle : roundOff c (lastPlace c e - e).toNat ≤ 10 ^ precision := by
      refine roundOff_le ?_
      have : e + Numeral.digitCount c - precision ≤ lastPlace c e := le_max_left _ _
      omega
    have hcarry : 10 ^ (precision - 1) < 10 ^ precision := by decide
    rw [if_pos hround]
    dsimp only
    split
    · exact ⟨hcarry, by omega⟩
    · next hne => exact ⟨lt_of_le_of_ne hle hne, htiny⟩
  · rw [if_neg hround]
    have hfew : Numeral.digitCount c ≤ precision := by
      have : e + Numeral.digitCount c - precision ≤ lastPlace c e := le_max_left _ _
      omega
    exact ⟨(Numeral.digitCount_le_iff (by decide)).mp hfew, by omega⟩

/-- The context holds what is brought into it. -/
theorem isHeld_of_fit {c c' : Nat} {e e' : Int} (h : fit c e = .ok (c', e')) :
    IsHeld (c' * 10 ^ e') := by
  have hbounds := roundToContext_bounds c e
  rw [fit] at h
  by_cases hc : c = 0
  · rw [if_pos hc] at h
    obtain ⟨rfl, rfl⟩ := Prod.mk.inj (Except.ok.inj h)
    exact ⟨0, 0, by decide, by decide, fun h => absurd rfl h, by simp⟩
  · rw [if_neg hc] at h
    split at h
    · cases h
    · dsimp only at h
      split at h
      · cases h
      · next hrange =>
        obtain ⟨rfl, rfl⟩ := Prod.mk.inj (Except.ok.inj h)
        exact ⟨_, _, hbounds.1, hbounds.2, fun hc' => not_lt.mp fun hlarge => hrange ⟨hc', hlarge⟩,
          rfl⟩

/-- What is brought into the context keeps its value if the context holds that, and only then. -/
theorem fit_value_eq_iff {c c' : Nat} {e e' : Int} (h : fit c e = .ok (c', e')) :
    (c' : ℚ) * 10 ^ e' = c * 10 ^ e ↔ IsHeld (c * 10 ^ e) := by
  constructor
  · intro hvalue
    exact hvalue ▸ isHeld_of_fit h
  · intro hheld
    obtain ⟨c₁, e₁, hfit, hvalue⟩ := exists_fit_eq hheld
    obtain ⟨rfl, rfl⟩ := Prod.mk.inj (Except.ok.inj (hfit.symm.trans h))
    exact hvalue

/-- The absolute value of a decimal that the context holds is exact. -/
theorem exists_abs_eq (negative : Bool) {c : Nat} {e : Int} (h : IsHeld (c * 10 ^ e)) :
    ∃ c' e', (finite negative c e).abs = .ok (.finite false c' e') ∧
      (c' : ℚ) * 10 ^ e' = c * 10 ^ e := by
  obtain ⟨c', e', hfit, hvalue⟩ := exists_fit_eq h
  exact ⟨c', e', by rw [abs, hfit]; rfl, hvalue⟩

/-- The product with a power of ten is exact, if the context holds it. -/
theorem exists_shift_eq (negative : Bool) {c : Nat} {e : Int} {places : Nat}
    (h : IsHeld (c * 10 ^ e * 10 ^ places)) :
    ∃ c' e', (finite negative c e).shift places = .ok (.finite negative c' e') ∧
      (c' : ℚ) * 10 ^ e' = c * 10 ^ e * 10 ^ places := by
  have hshift : (c : ℚ) * 10 ^ e * 10 ^ places = c * 10 ^ (e + places) := by
    rw [zpow_add₀ (by norm_num), zpow_natCast, mul_assoc]
  rw [hshift] at h ⊢
  obtain ⟨c', e', hfit, hvalue⟩ := exists_fit_eq h
  exact ⟨c', e', by rw [shift, hfit]; rfl, hvalue⟩

/-- The digits of a number without the zeros that it ends in. -/
lemma digits_eq_append_zeros (c : Nat) :
    ∃ front, Numeral.digits c = front ++ List.replicate (trailingZeros c) '0' ∧
      Numeral.Plain front ∧ front.getLast? ≠ some '0' := by
  have hzeros : (Numeral.digits c).reverse.takeWhile (· == '0') =
      List.replicate (trailingZeros c) '0' := by
    refine List.eq_replicate_iff.mpr ⟨rfl, fun x hx => ?_⟩
    simpa using List.mem_takeWhile_imp hx
  have hdigits : Numeral.digits c = ((Numeral.digits c).reverse.dropWhile (· == '0')).reverse ++
      List.replicate (trailingZeros c) '0' := by
    rw [← List.reverse_inj, List.reverse_append, List.reverse_reverse, List.reverse_replicate,
      ← hzeros, List.takeWhile_append_dropWhile]
  refine ⟨_, hdigits, ?_, ?_⟩
  · have hplain := Numeral.plain_digits c
    rw [hdigits] at hplain
    exact (Numeral.plain_append.mp hplain).1
  · rw [List.getLast?_reverse]
    intro hhead
    have hnot := List.head?_dropWhile_not (· == '0') (Numeral.digits c).reverse
    rw [hhead] at hnot
    cases hnot

/-- The zeros that a coefficient ends in make it a multiple of a power of ten. -/
lemma pow_trailingZeros_dvd (c : Nat) : 10 ^ trailingZeros c ∣ c := by
  obtain ⟨front, hdigits, hfront, -⟩ := digits_eq_append_zeros c
  refine ⟨Numeral.value front, ?_⟩
  conv_lhs => rw [← Numeral.value_digits c, hdigits]
  rw [Numeral.value_append hfront (Numeral.plain_replicate_zero _), List.length_replicate,
    Numeral.value_replicate_zero, Nat.add_zero, Nat.mul_comm]

/-- Without the zeros that it ends in, a coefficient ends in no zero. -/
lemma not_dvd_div_trailingZeros {c : Nat} (hc : c ≠ 0) : ¬ 10 ∣ c / 10 ^ trailingZeros c := by
  obtain ⟨front, hdigits, hfront, hlast⟩ := digits_eq_append_zeros c
  have hvalue : c / 10 ^ trailingZeros c = Numeral.value front := by
    apply Nat.div_eq_of_eq_mul_left (by positivity)
    conv_lhs => rw [← Numeral.value_digits c, hdigits]
    rw [Numeral.value_append hfront (Numeral.plain_replicate_zero _), List.length_replicate,
      Numeral.value_replicate_zero, Nat.add_zero]
  have hne : front ≠ [] := by
    rintro rfl
    rw [Numeral.value_nil, Nat.div_eq_zero_iff_lt (by positivity)] at hvalue
    exact absurd (Nat.le_of_dvd (Nat.pos_of_ne_zero hc) (pow_trailingZeros_dvd c))
      (not_le.mpr hvalue)
  rwa [hvalue, Numeral.ten_dvd_value_iff hfront hne]

/-! ## Canonical decimals -/

/-- Whether a coefficient and an exponent are the ones without zeros at the end of the coefficient;
zero has the exponent zero. -/
def IsCanonical (c : Nat) (e : Int) : Prop := c = 0 ∧ e = 0 ∨ ¬ 10 ∣ c

/-- Of two canonical ways to write a value, none has the smaller exponent. -/
lemma exponent_le_of_not_dvd {c d : Nat} {e f : Int} (hc : ¬ 10 ∣ c)
    (h : (c : ℚ) * 10 ^ e = d * 10 ^ f) : f ≤ e := by
  by_contra hlt
  obtain ⟨k, hk⟩ : ∃ k, (f - e).toNat = k + 1 := ⟨(f - e).toNat - 1, by omega⟩
  rw [coefficient_eq h (by omega), hk, pow_succ, ← mul_assoc] at hc
  exact hc (dvd_mul_left 10 _)

/-- A value has only one coefficient and exponent without zeros at the end. -/
theorem IsCanonical.unique {c d : Nat} {e f : Int} (hc : IsCanonical c e) (hd : IsCanonical d f)
    (h : (c : ℚ) * 10 ^ e = d * 10 ^ f) : c = d ∧ e = f := by
  have hzero : ∀ {c : Nat} {e : Int}, (c : ℚ) * 10 ^ e = 0 → c = 0 := by
    intro c e hc
    exact_mod_cast (mul_eq_zero.mp hc).resolve_right (ten_zpow_pos e).ne'
  obtain ⟨rfl, rfl⟩ | hc := hc
  · rw [Nat.cast_zero, zero_mul] at h
    obtain rfl := hzero h.symm
    obtain ⟨-, rfl⟩ | hd := hd
    · exact ⟨rfl, rfl⟩
    · exact absurd (dvd_zero 10) hd
  obtain ⟨rfl, rfl⟩ | hd := hd
  · rw [Nat.cast_zero, zero_mul] at h
    obtain rfl := hzero h
    exact absurd (dvd_zero 10) hc
  obtain rfl := le_antisymm (exponent_le_of_not_dvd hd h.symm) (exponent_le_of_not_dvd hc h)
  exact ⟨by exact_mod_cast mul_right_cancel₀ (ten_zpow_pos e).ne' h, rfl⟩

/-- Normalizing takes away the zeros at the end of what fits into the context. -/
theorem exists_normalize_of_fit (negative : Bool) {c c' : Nat} {e e' : Int}
    (h : fit c e = .ok (c', e')) :
    ∃ d f, (finite negative c e).normalize = .ok (finite negative d f) ∧
      (d : ℚ) * 10 ^ f = c' * 10 ^ e' ∧ IsCanonical d f := by
  rw [normalize, h]
  by_cases hc : c' = 0
  · refine ⟨0, 0, ?_, ?_, .inl ⟨rfl, rfl⟩⟩
    · simp [Except.map, hc]
    · rw [hc]
      simp
  · refine ⟨c' / 10 ^ trailingZeros c', e' + trailingZeros c', ?_, ?_,
      .inr (not_dvd_div_trailingZeros hc)⟩
    · simp [Except.map, hc]
    · obtain ⟨d, hd⟩ := pow_trailingZeros_dvd c'
      have hquotient : c' / 10 ^ trailingZeros c' = d :=
        Nat.div_eq_of_eq_mul_right (by positivity) hd
      have hcast : (c' : ℚ) = 10 ^ trailingZeros c' * d := by exact_mod_cast hd
      rw [hquotient, hcast, zpow_add₀ (by norm_num), zpow_natCast]
      ring

/-- Normalizing a decimal that the context holds is exact and leaves no zeros at the end. -/
theorem exists_normalize_eq (negative : Bool) {c : Nat} {e : Int} (h : IsHeld (c * 10 ^ e)) :
    ∃ c' e', (finite negative c e).normalize = .ok (.finite negative c' e') ∧
      (c' : ℚ) * 10 ^ e' = c * 10 ^ e ∧ IsCanonical c' e' := by
  obtain ⟨c₁, e₁, hfit, hvalue⟩ := exists_fit_eq h
  rw [← hvalue]
  exact exists_normalize_of_fit negative hfit

end Decimal

end FormatCode
