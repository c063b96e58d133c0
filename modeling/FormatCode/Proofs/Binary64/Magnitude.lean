import FormatCode.Binary64.Basic
import FormatCode.Proofs.Decimal.Exact
import Mathlib.Tactic.FieldSimp
import Mathlib.Tactic.Linarith

/-!
# Magnitudes of binary numbers

The number of a magnitude tells how many units there are and how large the unit is. The units are
powers of two, and a magnitude of a larger unit is a multiple of the smaller ones, so next to the
multiples of a unit only the magnitudes below those of that unit have to be thought of.

## Main definitions

* `Binary64.magnitude` — what a magnitude is worth.

## Main statements

* `Binary64.toRat_toDecimal` — a binary number is worth its magnitude, with its sign.
* `Binary64.le_magnitude` — the smallest magnitude above zero.
* `Binary64.magnitude_add` — what a number of units is worth.
* `Binary64.exists_multiple_or_lt` — a magnitude is a multiple of a unit or below its magnitudes.
-/

namespace FormatCode.Binary64

/-! ## Values -/

lemma significand_eq_zero_iff {bits : Nat} : significand bits = 0 ↔ bits = 0 := by
  unfold significand
  split <;> omega

lemma significand_pos {bits : Nat} (h : bits ≠ 0) : 0 < significand bits :=
  Nat.pos_of_ne_zero (mt significand_eq_zero_iff.mp h)

lemma significand_lt (bits : Nat) : significand bits < 2 ^ 53 := by
  unfold significand
  split <;> omega

/-- The smallest unit. -/
lemma le_exponent (bits : Nat) : -1074 ≤ exponent bits := by
  unfold exponent
  omega

def magnitude (bits : Nat) : ℚ := significand bits * 2 ^ exponent bits

lemma two_zpow_pos (e : Int) : (0 : ℚ) < 2 ^ e := zpow_pos two_pos e

lemma two_zpow_mono {i j : Int} (h : i ≤ j) : (2 : ℚ) ^ i ≤ 2 ^ j :=
  zpow_le_zpow_right₀ one_le_two h

/-- A larger power of two is at least twice as large. -/
lemma two_zpow_mul_two_le {i j : Int} (h : i < j) : (2 : ℚ) ^ i * 2 ≤ 2 ^ j := by
  rw [← zpow_add_one₀ two_ne_zero]
  exact two_zpow_mono h

lemma magnitude_nonneg (bits : Nat) : 0 ≤ magnitude bits :=
  mul_nonneg (Nat.cast_nonneg _) (two_zpow_pos _).le

lemma magnitude_zero : magnitude 0 = 0 := by
  simp [magnitude, significand]

/-- The smallest magnitude above zero is a single unit of the smallest size. -/
lemma le_magnitude {bits : Nat} (h : bits ≠ 0) : 2 ^ (-1074 : Int) ≤ magnitude bits := by
  have hone : (1 : ℚ) ≤ significand bits := by exact_mod_cast significand_pos h
  calc (2 : ℚ) ^ (-1074 : Int) ≤ 2 ^ exponent bits := two_zpow_mono (le_exponent bits)
    _ ≤ magnitude bits := le_mul_of_one_le_left (two_zpow_pos _).le hone

/-- A power of two is a power of five over one of ten. -/
lemma magnitude_eq_decimal (bits : Nat) :
    magnitude bits = match exponent bits with
      | .ofNat e => ((significand bits * 2 ^ e : Nat) : ℚ) * 10 ^ (0 : Int)
      | .negSucc e => ((significand bits * 5 ^ (e + 1) : Nat) : ℚ) * 10 ^ Int.negSucc e := by
  rw [magnitude]
  cases exponent bits with
  | ofNat e =>
    push_cast
    simp
  | negSucc e =>
    have hten : (10 : ℚ) = 5 * 2 := by norm_num
    dsimp only
    rw [zpow_negSucc, zpow_negSucc, hten, mul_pow]
    push_cast
    field_simp

/-- A binary number is worth its magnitude, with its sign. -/
theorem toRat_toDecimal (negative : Bool) (bits : Fin (2047 * 2 ^ 52)) :
    (finite negative bits).toDecimal.toRat = (if negative then -1 else 1) * magnitude bits := by
  rw [magnitude_eq_decimal, toDecimal]
  cases exponent bits <;> rfl

/-! ## Units -/

section Units

variable {k r : Nat}

lemma significand_add (hr : r < 2 ^ 53) (hk : k = 0 ∨ 2 ^ 52 ≤ r) :
    significand (k * 2 ^ 52 + r) = r := by
  unfold significand
  split <;> omega

lemma exponent_add (hr : r < 2 ^ 53) (hk : k = 0 ∨ 2 ^ 52 ≤ r) :
    exponent (k * 2 ^ 52 + r) = (k : Int) - 1074 := by
  unfold exponent
  omega

/-- A number of units with all its digits is a magnitude of that unit, also if it is one more than
the digits can tell. -/
lemma magnitude_add (hr : r ≤ 2 ^ 53) (hk : k = 0 ∨ 2 ^ 52 ≤ r) :
    magnitude (k * 2 ^ 52 + r) = r * 2 ^ ((k : Int) - 1074) ∧
      (Even r → Even (significand (k * 2 ^ 52 + r))) := by
  obtain rfl | hlt := hr.eq_or_lt
  · -- A significand of one bit more is that of the next exponent.
    have hsignificand : significand (k * 2 ^ 52 + 2 ^ 53) = 2 ^ 52 := by
      unfold significand
      rw [if_neg (by omega)]
      omega
    have hexponent : exponent (k * 2 ^ 52 + 2 ^ 53) = (k : Int) - 1074 + 1 := by
      unfold exponent
      omega
    rw [magnitude, hsignificand, hexponent, zpow_add_one₀ two_ne_zero]
    refine ⟨by push_cast; ring, fun _ => by decide⟩
  · rw [magnitude, significand_add hlt hk, exponent_add hlt hk]
    exact ⟨rfl, id⟩

end Units

/-- The number of a magnitude tells its unit and how many units there are. -/
lemma exists_units (bits : Nat) :
    ∃ k r, bits = k * 2 ^ 52 + r ∧ r < 2 ^ 53 ∧ (k = 0 ∨ 2 ^ 52 ≤ r) :=
  ⟨bits / 2 ^ 52 - 1, bits - (bits / 2 ^ 52 - 1) * 2 ^ 52, by omega, by omega, by omega⟩

lemma two_zpow_add_sub (j k : Nat) :
    (2 : ℚ) ^ ((j + k : Nat) - 1074 : Int) = 2 ^ j * 2 ^ ((k : Int) - 1074) := by
  rw [← zpow_natCast, ← zpow_add₀ two_ne_zero]
  congr 1
  push_cast
  ring

/-- A magnitude is a multiple of a unit, unless it is below all magnitudes of that unit. -/
lemma exists_multiple_or_lt (bits k : Nat) :
    (∃ m : Nat, magnitude bits = m * 2 ^ ((k : Int) - 1074)) ∨
      k ≠ 0 ∧ magnitude bits < 2 ^ 52 * 2 ^ ((k : Int) - 1074) := by
  obtain ⟨k', r, rfl, hr, hk'⟩ := exists_units bits
  rw [(magnitude_add hr.le hk').1]
  obtain hle | hlt := Nat.lt_or_ge k' k |>.symm
  · obtain ⟨j, rfl⟩ := Nat.exists_eq_add_of_le' hle
    refine .inl ⟨r * 2 ^ j, ?_⟩
    rw [two_zpow_add_sub]
    push_cast
    ring
  · obtain ⟨j, rfl⟩ := Nat.exists_eq_add_of_lt hlt
    refine .inr ⟨by omega, ?_⟩
    have hj : k' + j + 1 = (j + 1) + k' := by omega
    have hpow : (1 : ℚ) ≤ 2 ^ j := one_le_pow₀ one_le_two
    have hunit := two_zpow_pos ((k' : Int) - 1074)
    have hr' : (r : ℚ) < 2 ^ 53 := by exact_mod_cast hr
    rw [hj, two_zpow_add_sub, ← mul_assoc]
    refine mul_lt_mul_of_pos_right ?_ hunit
    calc (r : ℚ) < 2 ^ 53 := hr'
      _ = 2 ^ 52 * (2 * 1) := by norm_num
      _ ≤ 2 ^ 52 * (2 * 2 ^ j) := by gcongr
      _ = 2 ^ 52 * 2 ^ (j + 1) := by ring

end FormatCode.Binary64
