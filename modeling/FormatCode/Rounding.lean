/-!
# Rounding a quotient

Division of natural numbers to the nearest whole number, where a quotient halfway between two goes
to the even one.

## Main definitions

* `roundHalfEven` — the rounded quotient.
-/

namespace FormatCode

/-- `n / d` to the nearest whole number, a half going to the even neighbour. -/
def roundHalfEven (n d : Nat) : Nat :=
  if d < 2 * (n % d) ∨ (2 * (n % d) = d ∧ n / d % 2 = 1) then n / d + 1 else n / d

theorem le_roundHalfEven (n d : Nat) : n / d ≤ roundHalfEven n d := by
  unfold roundHalfEven; split <;> omega

theorem roundHalfEven_le (n d : Nat) : roundHalfEven n d ≤ n / d + 1 := by
  unfold roundHalfEven; split <;> omega

/-- An exact quotient is not changed. -/
theorem roundHalfEven_mul (q d : Nat) (hd : 0 < d) : roundHalfEven (q * d) d = q := by
  simp [roundHalfEven, Nat.mul_div_cancel q hd]
  omega

example : (roundHalfEven 5 2, roundHalfEven 7 2, roundHalfEven 8 3) = (2, 4, 3) := by decide

end FormatCode
