import FormatCode.Proofs.Binary64.Nearest

/-!
# Products of binary numbers

The product of two finite numbers is the exact product rounded to the nearest number, so it is
finite as long as the exact product stays below the limit. That is how a number is multiplied by a
power of a hundred, after the power has been rounded in the same way.

## Main statements

* `Binary64.isNearest_mul` — a product is rounded to the nearest number.
* `Binary64.isFinite_mul_iff` — the products that are finite.
-/

namespace FormatCode.Binary64

variable {q : ℚ} {x y : Binary64}

/-- What is rounded to the nearest number stays finite below the limit. -/
lemma IsNearest.isFinite_iff (h : IsNearest q x) : x.isFinite ↔ |q| < limit := by
  cases x with
  | finite negative bits => exact iff_of_true rfl h.1
  | infinity negative => exact iff_of_false Bool.false_ne_true (not_lt.mpr h.1)
  | nan => exact h.elim

lemma isNearest_ofScaled (negative : Bool) (m : Nat) (e : Int) :
    IsNearest ((if negative then -1 else 1) * (m * 2 ^ e)) (ofScaled negative m e) := by
  have hnearest :=
    isNearest_ofRatio negative (m * 2 ^ e.toNat) (d := 2 ^ (-e).toNat) (by positivity)
  rw [Nat.cast_mul, Nat.cast_pow, Nat.cast_pow, Nat.cast_two, mul_div_assoc,
    ← zpow_eq_div two_ne_zero] at hnearest
  exact hnearest

/-- A product is rounded to the nearest number. -/
theorem isNearest_mul (hx : x.isFinite) (hy : y.isFinite) :
    IsNearest (x.toDecimal.toRat * y.toDecimal.toRat) (x.mul y) := by
  cases x with
  | finite n a =>
    cases y with
    | finite m b =>
      have hvalue : (finite n a).toDecimal.toRat * (finite m b).toDecimal.toRat =
          (if (n != m) then -1 else 1) * ((significand a * significand b : Nat) *
            (2 : ℚ) ^ (exponent a + exponent b)) := by
        rw [toRat_toDecimal, toRat_toDecimal, magnitude, magnitude, zpow_add₀ two_ne_zero,
          Nat.cast_mul]
        cases n <;> cases m <;> simp <;> ring
      rw [hvalue]
      exact isNearest_ofScaled (n != m) _ _
    | _ => cases hy
  | _ => cases hx

/-- A product is finite if the exact one is below the limit. -/
theorem isFinite_mul_iff (hx : x.isFinite) (hy : y.isFinite) :
    (x.mul y).isFinite ↔ |x.toDecimal.toRat * y.toDecimal.toRat| < limit :=
  (isNearest_mul hx hy).isFinite_iff

lemma abs_toRat (x : Binary64) : x.abs.toDecimal.toRat = |x.toDecimal.toRat| := by
  cases x with
  | finite negative bits =>
    rw [abs_toRat_toDecimal, abs, toRat_toDecimal, if_neg Bool.false_ne_true, one_mul]
  | _ => simp [abs, toDecimal, Decimal.toRat]

end FormatCode.Binary64
