import FormatCode.Proofs.Numeral.Digits
import Mathlib.Algebra.Order.Floor.Semiring
import Mathlib.Data.Rat.Floor
import Mathlib.Tactic.FieldSimp
import Mathlib.Tactic.Linarith
import Mathlib.Tactic.Positivity

/-!
# Digits around a point

Digits with a point between them are worth a rational number. Moving the point by some places
multiplies by a power of ten, so the digits up to a place are what is left of the number if the rest
is cut off there.

## Main definitions

* `Numeral.fixedPoint` — what digits before and after a point are worth.
* `Numeral.truncated`, `Numeral.halfUp` — a number cut off and rounded at a place.
* `Numeral.fractionDigit` — the digit of a number at a place.
* `Numeral.withoutCarry` — a number rounded by its last digit alone.

## Main statements

* `Numeral.fixedPoint_mul_pow` — the point is moved by multiplication.
* `Numeral.floor_fixedPoint`, `Numeral.floor_add_half` — digits after the point cut off or rounded.
-/

namespace FormatCode.Numeral

def fixedPoint (whole fraction : List Char) : ℚ :=
  value (whole ++ fraction) / 10 ^ fraction.length

/-! ## Rounding -/

def truncated (places : Nat) (w : ℚ) : ℚ := ⌊w * 10 ^ places⌋₊ / 10 ^ places

def halfUp (places : Nat) (w : ℚ) : ℚ := ⌊w * 10 ^ places + 1 / 2⌋₊ / 10 ^ places

/-- The digit of a number at a place after the point, the first of them at place one. -/
def fractionDigit (place : Nat) (w : ℚ) : Nat := ⌊w * 10 ^ place⌋₊ % 10

/-- A number rounded to some places as its last digit alone is: without places it is cut off, and a
nine that is rounded up becomes a one and a zero, which leaves the digits before it as they are. -/
def withoutCarry (places : Nat) (w : ℚ) : ℚ :=
  if places = 0 then truncated 0 w
  else if fractionDigit places w = 9 ∧ 5 ≤ fractionDigit (places + 1) w then
    truncated (places - 1) w + 1 / 10 ^ places
  else halfUp places w

/-! ## Moving the point -/

variable {whole fraction : List Char}

/-- Multiplying by a power of ten moves the point. -/
theorem fixedPoint_mul_pow (whole ds es : List Char) :
    fixedPoint whole (ds ++ es) * 10 ^ ds.length = fixedPoint (whole ++ ds) es := by
  have hpos : (0 : ℚ) < 10 ^ ds.length := by positivity
  rw [fixedPoint, fixedPoint, List.append_assoc, List.length_append, pow_add]
  field_simp

/-- More digits of the fraction are worth the less the further behind they stand. -/
lemma fixedPoint_append {es : List Char} (hwhole : Plain whole) (hfraction : Plain fraction)
    (hes : Plain es) :
    fixedPoint whole (fraction ++ es) =
      fixedPoint whole fraction + value es / 10 ^ (fraction.length + es.length) := by
  rw [fixedPoint, ← List.append_assoc, value_append (plain_append.mpr ⟨hwhole, hfraction⟩) hes,
    List.length_append, pow_add, fixedPoint]
  push_cast
  field_simp

/-- Zeros at the end of the fraction are worth nothing. -/
lemma fixedPoint_append_zeros (hwhole : Plain whole) (hfraction : Plain fraction) (n : Nat) :
    fixedPoint whole (fraction ++ List.replicate n '0') = fixedPoint whole fraction := by
  rw [fixedPoint_append hwhole hfraction (plain_replicate_zero n), value_replicate_zero]
  simp

/-- Zeros at the beginning are worth nothing. -/
lemma fixedPoint_zeros_append (hwhole : Plain whole) (hfraction : Plain fraction) (n : Nat) :
    fixedPoint (List.replicate n '0' ++ whole) fraction = fixedPoint whole fraction := by
  rw [fixedPoint, List.append_assoc, value_append (plain_replicate_zero n)
    (plain_append.mpr ⟨hwhole, hfraction⟩), value_replicate_zero, Nat.zero_mul, Nat.zero_add,
    fixedPoint]

/-- The fraction is worth less than one. -/
lemma fixedPoint_eq_add (hwhole : Plain whole) (hfraction : Plain fraction) :
    fixedPoint whole fraction = value whole + fixedPoint [] fraction ∧
      0 ≤ fixedPoint [] fraction ∧ fixedPoint [] fraction < 1 := by
  have hpos : (0 : ℚ) < 10 ^ fraction.length := by positivity
  refine ⟨?_, ?_, ?_⟩
  · rw [fixedPoint, fixedPoint, value_append hwhole hfraction, List.nil_append]
    push_cast
    field_simp
  · exact div_nonneg (Nat.cast_nonneg _) hpos.le
  · rw [fixedPoint, List.nil_append, div_lt_one hpos]
    exact_mod_cast value_lt fraction

/-- The digits before the point are what is left without a fraction. -/
theorem floor_fixedPoint (hwhole : Plain whole) (hfraction : Plain fraction) :
    ⌊fixedPoint whole fraction⌋₊ = value whole := by
  obtain ⟨hsum, hnonneg, hlt⟩ := fixedPoint_eq_add hwhole hfraction
  rw [hsum, Nat.floor_eq_iff (by positivity)]
  constructor <;> linarith

/-- A half is added by the first digit of the fraction. -/
theorem floor_add_half {c : Char} (hwhole : Plain whole) (hfraction : Plain (c :: fraction)) :
    ⌊fixedPoint whole (c :: fraction) + 1 / 2⌋₊ =
      value whole + if 5 ≤ value [c] then 1 else 0 := by
  obtain ⟨hsum, hfraction', -⟩ := fixedPoint_eq_add hwhole hfraction
  have hwhole' : (0 : ℚ) ≤ value whole := Nat.cast_nonneg _
  rw [plain_cons] at hfraction
  have hc : Plain [c] := plain_cons.mpr ⟨hfraction.1, plain_nil⟩
  have hdigit := value_singleton_lt hfraction.1
  obtain ⟨hfirst, hnonneg, hlt⟩ := fixedPoint_eq_add hc hfraction.2
  have hten : fixedPoint [] (c :: fraction) * 10 = value [c] + fixedPoint [] fraction := by
    rw [← hfirst]
    simpa using fixedPoint_mul_pow [] [c] fraction
  rw [hsum]
  split
  · next h =>
    have hge : (5 : ℚ) ≤ value [c] := by exact_mod_cast h
    have hle : (value [c] : ℚ) ≤ 9 := by exact_mod_cast Nat.le_of_lt_succ hdigit
    rw [Nat.floor_eq_iff (by linarith)]
    push_cast
    constructor <;> linarith
  · next h =>
    have hle : (value [c] : ℚ) ≤ 4 := by exact_mod_cast Nat.le_of_lt_succ (not_le.mp h)
    rw [Nat.floor_eq_iff (by linarith)]
    push_cast
    constructor <;> linarith

/-! ## The digits of a number -/

variable {ds : List Char}

/-- Cutting a number off keeps the digits up to the place. -/
lemma truncated_fixedPoint (hwhole : Plain whole) (hds : Plain ds) (hfraction : Plain fraction) :
    truncated ds.length (fixedPoint whole (ds ++ fraction)) = fixedPoint whole ds := by
  rw [truncated, fixedPoint_mul_pow, floor_fixedPoint (plain_append.mpr ⟨hwhole, hds⟩) hfraction,
    fixedPoint]

lemma fractionDigit_fixedPoint {c : Char} (hwhole : Plain whole) (hds : Plain ds) (hc : c.isDigit)
    (hfraction : Plain fraction) :
    fractionDigit (ds.length + 1) (fixedPoint whole (ds ++ c :: fraction)) = value [c] := by
  have hdigit : Plain [c] := plain_cons.mpr ⟨hc, plain_nil⟩
  have hfront : Plain (whole ++ ds) := plain_append.mpr ⟨hwhole, hds⟩
  have hmove := fixedPoint_mul_pow whole (ds ++ [c]) fraction
  rw [List.append_assoc, List.singleton_append, List.length_append, List.length_singleton] at hmove
  rw [fractionDigit, hmove, ← List.append_assoc,
    floor_fixedPoint (plain_append.mpr ⟨hfront, hdigit⟩) hfraction, value_append hfront hdigit,
    List.length_singleton, pow_one]
  have := value_singleton_lt hc
  omega

/-- Rounding a number to some places adds one at the last of them, if the next digit asks for it. -/
lemma halfUp_fixedPoint {c : Char} (hwhole : Plain whole) (hds : Plain ds)
    (hfraction : Plain (c :: fraction)) :
    halfUp ds.length (fixedPoint whole (ds ++ c :: fraction)) =
      fixedPoint whole ds + (if 5 ≤ value [c] then 1 else 0) / 10 ^ ds.length := by
  rw [halfUp, fixedPoint_mul_pow, floor_add_half (plain_append.mpr ⟨hwhole, hds⟩) hfraction,
    fixedPoint, ← add_div]
  split <;> simp

end FormatCode.Numeral
