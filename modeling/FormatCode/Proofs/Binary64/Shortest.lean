import FormatCode.Binary64.Shortest
import FormatCode.Proofs.Binary64.Nearest
import Mathlib.Algebra.Order.Floor.Semiring
import Mathlib.Data.Rat.Floor
import Mathlib.Order.Interval.Set.OrdConnected

/-!
# The shortest decimal

The numbers that round to a magnitude are an interval around it. The grids of decimals are searched
from the coarsest on, and at the latest the one with eighteen digits has a point in the interval. So
what is found has a coefficient without zeros at its end: with one, a coarser grid would have had a
point too.

## Main definitions

* `Binary64.interval` — the numbers that round to a magnitude.
* `Binary64.pointBelow` — the point of a grid below a magnitude.
* `Binary64.IsOnGrid` — whether a grid has a point in the interval.

## Main statements

* `Binary64.exists_isRounded_of_mem_interval` — the numbers in the interval are rounded to the
  magnitude.
* `Binary64.gridPoint?_spec` — the search of one grid misses no point.
* `Binary64.search_spec` — the search finds the coarsest grid.
* `Binary64.shortest_spec` — the shortest decimal rounds to the magnitude and ends in no zero.
* `Binary64.ofDecimal_shortest` — the shortest decimal is read as the number.
* `Binary64.isHeld_shortest` — decimal arithmetic holds the shortest decimal exactly.
-/

namespace FormatCode.Binary64

variable {bits : Nat}

/-! ## The interval of a magnitude -/

def interval (bits : Nat) : Set ℚ :=
  if significand bits % 2 = 0 then
    Set.Icc (lowerEnd bits * 2 ^ (exponent bits - 2)) (upperEnd bits * 2 ^ (exponent bits - 2))
  else Set.Ioo (lowerEnd bits * 2 ^ (exponent bits - 2)) (upperEnd bits * 2 ^ (exponent bits - 2))

lemma mul_quarter (a : ℚ) (e : Int) : a * 2 ^ (e - 2) = a / 4 * 2 ^ e := by
  rw [zpow_sub₀ two_ne_zero]
  norm_num
  ring

lemma ordConnected_interval (bits : Nat) : (interval bits).OrdConnected := by
  unfold interval
  split
  · exact Set.ordConnected_Icc
  · exact Set.ordConnected_Ioo

lemma Ioo_subset_interval (bits : Nat) :
    Set.Ioo (lowerEnd bits * 2 ^ (exponent bits - 2) : ℚ) (upperEnd bits * 2 ^ (exponent bits - 2)) ⊆
      interval bits := by
  unfold interval
  split
  · exact Set.Ioo_subset_Icc_self
  · exact subset_rfl

lemma interval_subset_Icc (bits : Nat) :
    interval bits ⊆
      Set.Icc (lowerEnd bits * 2 ^ (exponent bits - 2)) (upperEnd bits * 2 ^ (exponent bits - 2)) := by
  unfold interval
  split
  · exact subset_rfl
  · exact Set.Ioo_subset_Icc_self

lemma magnitude_eq_quarters (bits : Nat) :
    magnitude bits = 4 * significand bits * 2 ^ (exponent bits - 2) := by
  rw [magnitude, mul_quarter, mul_div_cancel_left₀ _ four_ne_zero]

lemma lowerEnd_le (h : bits ≠ 0) : 2 ≤ lowerEnd bits ∧ lowerEnd bits + 1 ≤ 4 * significand bits := by
  have hpos := significand_pos h
  unfold lowerEnd
  split <;> omega

/-- A magnitude lies a quarter of a unit or more from the ends of its interval. -/
lemma mem_interval_of_lt (h : bits ≠ 0) {q : ℚ} (hle : q ≤ magnitude bits)
    (hlt : magnitude bits < q + 2 ^ (exponent bits - 2)) : q ∈ interval bits := by
  have hunit := two_zpow_pos (exponent bits - 2)
  have hlower : (lowerEnd bits : ℚ) + 1 ≤ 4 * significand bits := by
    exact_mod_cast (lowerEnd_le h).2
  rw [magnitude_eq_quarters] at hle hlt
  apply Ioo_subset_interval
  rw [upperEnd]
  push_cast
  constructor <;> nlinarith

lemma magnitude_mem_interval (h : bits ≠ 0) : magnitude bits ∈ interval bits :=
  mem_interval_of_lt h le_rfl (lt_add_of_pos_right _ (two_zpow_pos _))

/-- The numbers that round to a magnitude are positive and at most twice as large. -/
lemma bounds_of_mem_interval (h : bits ≠ 0) {q : ℚ} (hq : q ∈ interval bits) :
    0 < q ∧ q ≤ 2 * magnitude bits := by
  have hunit := two_zpow_pos (exponent bits - 2)
  obtain ⟨hlow, hhigh⟩ := interval_subset_Icc bits hq
  have hlower : (2 : ℚ) ≤ lowerEnd bits := by exact_mod_cast (lowerEnd_le h).1
  have hone : (1 : ℚ) ≤ significand bits := by exact_mod_cast significand_pos h
  rw [magnitude_eq_quarters]
  rw [upperEnd] at hhigh
  push_cast at hhigh
  constructor <;> nlinarith

section Rounding

variable {q : ℚ}

/-- The interval reaches half a unit from the magnitude, with its ends if the significand is even. -/
lemma abs_sub_significand_le (hq : q ∈ interval bits) :
    |q / 2 ^ exponent bits - significand bits| ≤ 1 / 2 ∧
      (|q / 2 ^ exponent bits - significand bits| = 1 / 2 → Even (significand bits)) := by
  have hlower : (4 * significand bits : ℚ) ≤ lowerEnd bits + 2 := by
    have : 4 * significand bits ≤ lowerEnd bits + 2 := by
      unfold lowerEnd
      split <;> omega
    exact_mod_cast this
  have hupper : (upperEnd bits : ℚ) = 4 * significand bits + 2 := by
    rw [upperEnd]
    push_cast
    rfl
  unfold interval at hq
  rw [Nat.even_iff]
  split at hq
  · next heven =>
    rw [Set.mem_Icc, mul_quarter, mul_quarter, ← le_div_iff₀ (two_zpow_pos _),
      ← div_le_iff₀ (two_zpow_pos _)] at hq
    exact ⟨abs_le.mpr ⟨by linarith, by linarith⟩, fun _ => heven⟩
  · rw [Set.mem_Ioo, mul_quarter, mul_quarter, ← lt_div_iff₀ (two_zpow_pos _),
      ← div_lt_iff₀ (two_zpow_pos _)] at hq
    have hlt : |q / 2 ^ exponent bits - significand bits| < 1 / 2 :=
      abs_lt.mpr ⟨by linarith, by linarith⟩
    exact ⟨hlt.le, fun heq => absurd heq hlt.ne⟩

/-- Below the first magnitude of a unit the interval reaches half a unit of the size below. -/
lemma isRounded_below {k : Nat} (hlower : lowerEnd bits = 4 * 2 ^ 52 - 1)
    (hexponent : exponent bits = (k : Int) - 1074 + 1) (hq : q ∈ interval bits)
    (hlt : q < 2 ^ 52 * 2 ^ exponent bits) : IsRounded q k (2 ^ 53) := by
  have hpos := two_zpow_pos ((k : Int) - 1074)
  have hlow := (interval_subset_Icc bits hq).1
  rw [mul_quarter, hlower, hexponent, zpow_add_one₀ two_ne_zero] at hlow
  rw [hexponent, zpow_add_one₀ two_ne_zero] at hlt
  norm_num at hlow
  refine ⟨by linarith, .inr (by linarith), ?_, fun _ => by decide⟩
  rw [abs_le, neg_le_sub_iff_le_add, ← sub_le_iff_le_add, le_div_iff₀ hpos, sub_le_iff_le_add,
    div_le_iff₀ hpos]
  push_cast
  constructor <;> linarith

/-- The numbers in the interval of a magnitude are rounded to it. -/
theorem exists_isRounded_of_mem_interval (hq : q ∈ interval bits) :
    ∃ k r, bits = k * 2 ^ 52 + r ∧ IsRounded q k r := by
  obtain ⟨k, r, hbits, hr, hk⟩ := exists_units bits
  have hunit := two_zpow_pos ((k : Int) - 1074)
  have hsignificand : significand bits = r := hbits ▸ significand_add hr hk
  have hexponent : exponent bits = (k : Int) - 1074 := hbits ▸ exponent_add hr hk
  obtain ⟨hhalf, htie⟩ := abs_sub_significand_le hq
  rw [hsignificand, hexponent] at hhalf htie
  by_cases hfirst : k = 0 ∨ 2 ^ 52 * 2 ^ ((k : Int) - 1074) ≤ q
  · refine ⟨k, r, hbits, ?_, hfirst, hhalf, htie⟩
    have hlast : (r : ℚ) + 1 ≤ 2 ^ 53 := by exact_mod_cast hr
    have hhigh := (abs_le.mp hhalf).2
    rw [← div_lt_iff₀ hunit]
    linarith
  · rw [not_or, not_le] at hfirst
    obtain ⟨j, rfl⟩ := Nat.exists_eq_add_one_of_ne_zero hfirst.1
    -- The significand is the first of its unit, since the number is below that.
    have hfirst' : r = 2 ^ 52 := by
      have hlow := (abs_le.mp hhalf).1
      have hbelow := (div_lt_iff₀ hunit).mpr hfirst.2
      have hr' : (r : ℚ) < (2 ^ 52 + 1 : Nat) := by
        push_cast
        linarith
      have hle : r < 2 ^ 52 + 1 := by exact_mod_cast hr'
      omega
    have hbits' : bits = j * 2 ^ 52 + 2 ^ 53 := by
      rw [hbits, hfirst']
      ring
    have hlower : lowerEnd bits = 4 * 2 ^ 52 - 1 := by
      rw [lowerEnd, hsignificand, hfirst', if_pos (by omega)]
    have hexponent' : exponent bits = (j : Int) - 1074 + 1 := by omega
    exact ⟨j, 2 ^ 53, hbits', isRounded_below hlower hexponent' hq (hexponent ▸ hfirst.2)⟩

end Rounding

/-! ## One grid -/

/-- A quarter of a unit and a step of the grid, both multiplied to whole numbers. -/
lemma quarter_spec (e k : Int) :
    ∃ c : ℚ, 0 < c ∧ (quarter e k).1 = c * 2 ^ (e - 2) ∧ (quarter e k).2 = c * 10 ^ k := by
  have hneg : 2 - e = -(e - 2) := by ring
  refine ⟨2 ^ (2 - e).toNat * 10 ^ (-k).toNat, by positivity, ?_, ?_⟩
  · rw [quarter, zpow_eq_div two_ne_zero, hneg]
    push_cast
    field_simp
  · rw [quarter, zpow_eq_div (b := 10) (by norm_num) k]
    push_cast
    field_simp

lemma quarters_le_iff (e k : Int) (m n : Nat) :
    m * (quarter e k).1 ≤ n * (quarter e k).2 ↔ (m : ℚ) * 2 ^ (e - 2) ≤ n * 10 ^ k := by
  obtain ⟨c, hc, hquarter, hstep⟩ := quarter_spec e k
  rw [← mul_le_mul_iff_right₀ hc, mul_left_comm, ← hquarter, mul_left_comm, ← hstep]
  exact_mod_cast Iff.rfl

lemma le_quarters_iff (e k : Int) (m n : Nat) :
    n * (quarter e k).2 ≤ m * (quarter e k).1 ↔ (n : ℚ) * 10 ^ k ≤ m * 2 ^ (e - 2) := by
  obtain ⟨c, hc, hquarter, hstep⟩ := quarter_spec e k
  rw [← mul_le_mul_iff_right₀ hc, mul_left_comm, ← hstep, mul_left_comm, ← hquarter]
  exact_mod_cast Iff.rfl

/-- The test of a point in whole numbers is whether it lies in the interval. -/
lemma inside_iff (bits : Nat) (k : Int) (n : Nat) :
    (if significand bits % 2 = 0 then
        decide (lowerEnd bits * (quarter (exponent bits) k).1 ≤ n * (quarter (exponent bits) k).2) &&
          decide (n * (quarter (exponent bits) k).2 ≤ upperEnd bits * (quarter (exponent bits) k).1)
      else
        decide (lowerEnd bits * (quarter (exponent bits) k).1 < n * (quarter (exponent bits) k).2) &&
          decide (n * (quarter (exponent bits) k).2 < upperEnd bits * (quarter (exponent bits) k).1))
      = true ↔ (n : ℚ) * 10 ^ k ∈ interval bits := by
  unfold interval
  split
  · rw [Bool.and_eq_true, decide_eq_true_iff, decide_eq_true_iff, quarters_le_iff, le_quarters_iff,
      Set.mem_Icc]
  · rw [Bool.and_eq_true, decide_eq_true_iff, decide_eq_true_iff, ← not_le, ← not_le,
      quarters_le_iff, le_quarters_iff, not_le, not_le, Set.mem_Ioo]

def pointBelow (bits : Nat) (k : Int) : Nat :=
  4 * significand bits * (quarter (exponent bits) k).1 / (quarter (exponent bits) k).2

lemma pointBelow_spec (bits : Nat) (k : Int) :
    (pointBelow bits k : ℚ) * 10 ^ k ≤ magnitude bits ∧
      magnitude bits < ((pointBelow bits k + 1 : Nat) : ℚ) * 10 ^ k := by
  have hstep : 0 < (quarter (exponent bits) k).2 := by
    unfold quarter
    positivity
  have hvalue : magnitude bits = (4 * significand bits : Nat) * 2 ^ (exponent bits - 2) := by
    rw [magnitude_eq_quarters]
    push_cast
    rfl
  rw [hvalue]
  constructor
  · rw [← le_quarters_iff]
    exact Nat.div_mul_le_self _ _
  · rw [← not_le, ← le_quarters_iff, not_le]
    exact Nat.lt_mul_of_div_lt (Nat.lt_succ_self _) hstep

def IsOnGrid (bits : Nat) (k : Int) : Prop := ∃ n : Nat, (n : ℚ) * 10 ^ k ∈ interval bits

/-- If neither of the points next to a magnitude rounds to it, no point of the grid does. -/
lemma not_isOnGrid (h : bits ≠ 0) {k : Int}
    (hbelow : (pointBelow bits k : ℚ) * 10 ^ k ∉ interval bits)
    (habove : ((pointBelow bits k + 1 : Nat) : ℚ) * 10 ^ k ∉ interval bits) : ¬ IsOnGrid bits k := by
  rintro ⟨n, hn⟩
  have hconnected := ordConnected_interval bits
  have hmem := magnitude_mem_interval h
  have hten := Decimal.ten_zpow_pos k
  obtain ⟨hle, hlt⟩ := pointBelow_spec bits k
  obtain hn' | hn' := Nat.lt_or_ge (pointBelow bits k) n
  · have hstep : ((pointBelow bits k + 1 : Nat) : ℚ) * 10 ^ k ≤ n * 10 ^ k :=
      mul_le_mul_of_nonneg_right (by exact_mod_cast hn') hten.le
    exact habove (hconnected.out hmem hn ⟨hlt.le, hstep⟩)
  · have hstep : (n : ℚ) * 10 ^ k ≤ pointBelow bits k * 10 ^ k :=
      mul_le_mul_of_nonneg_right (by exact_mod_cast hn') hten.le
    exact hbelow (hconnected.out hn hmem ⟨hstep, hle⟩)

/-- What is found on a grid is one of the points next to the magnitude and rounds to it, and no point
is missed. -/
theorem gridPoint?_spec (h : bits ≠ 0) (k : Int) :
    (∃ n : Nat, gridPoint? bits k = some n ∧ (n : ℚ) * 10 ^ k ∈ interval bits ∧
        (n = pointBelow bits k ∨ n = pointBelow bits k + 1)) ∨
      gridPoint? bits k = none ∧ ¬ IsOnGrid bits k := by
  have hinside := inside_iff bits k
  have hmissing := not_isOnGrid h (k := k)
  obtain ⟨below, hbelow⟩ : ∃ below, below = pointBelow bits k := ⟨_, rfl⟩
  rw [← hbelow] at hmissing ⊢
  rw [pointBelow] at hbelow
  unfold gridPoint?
  generalize quarter (exponent bits) k = quotient at hinside hbelow ⊢
  obtain ⟨a, b⟩ := quotient
  dsimp only at hinside hbelow ⊢
  rw [← hbelow]
  split
  · next h₁ h₂ =>
    rw [hinside] at h₁ h₂
    -- Of two points that round to the magnitude the nearer is taken.
    have hround : roundHalfEven (4 * significand bits * a) b = below ∨
        roundHalfEven (4 * significand bits * a) b = below + 1 := by
      have hle := le_roundHalfEven (4 * significand bits * a) b
      have hge := roundHalfEven_le (4 * significand bits * a) b
      omega
    obtain hround | hround := hround
    · exact .inl ⟨below, congrArg some hround, h₁, .inl rfl⟩
    · exact .inl ⟨below + 1, congrArg some hround, h₂, .inr rfl⟩
  · next h₁ h₂ =>
    rw [hinside] at h₁
    exact .inl ⟨below, rfl, h₁, .inl rfl⟩
  · next h₁ h₂ =>
    rw [hinside] at h₂
    exact .inl ⟨below + 1, rfl, h₂, .inr rfl⟩
  · next h₁ h₂ =>
    refine .inr ⟨rfl, hmissing ?_ ?_⟩
    · rw [← hinside, h₁]
      exact Bool.false_ne_true
    · rw [← hinside, h₂]
      exact Bool.false_ne_true

/-- What is found on a grid is at most a step above the magnitude. -/
lemma le_add_of_gridPoint? {k : Int} {n : Nat} (h : n = pointBelow bits k ∨ n = pointBelow bits k + 1) :
    (n : ℚ) * 10 ^ k ≤ magnitude bits + 10 ^ k := by
  have hten := Decimal.ten_zpow_pos k
  have hle := (pointBelow_spec bits k).1
  obtain rfl | rfl := h
  · linarith
  · push_cast
    linarith

/-! ## The search -/

/-- If the last grid has a point, the search finds one, and none on the grid before. -/
theorem search_spec (h : bits ≠ 0) {grids : Nat} {k : Int} (hlast : IsOnGrid bits (k - grids)) :
    ∃ (n : Nat) (j : Int), search bits grids k = (n, j) ∧ k - grids ≤ j ∧
      (n : ℚ) * 10 ^ j ∈ interval bits ∧ (n : ℚ) * 10 ^ j ≤ magnitude bits + 10 ^ j ∧
      (j = k ∨ ¬ IsOnGrid bits (j + 1)) := by
  induction grids generalizing k with
  | zero =>
    obtain ⟨n, hn, hmem, hnext⟩ | ⟨-, hnone⟩ := gridPoint?_spec h k
    · exact ⟨n, k, by rw [search, hn]; rfl, by simp, hmem, le_add_of_gridPoint? hnext, .inl rfl⟩
    · simp only [Nat.cast_zero, sub_zero] at hlast
      exact absurd hlast hnone
  | succ grids ih =>
    obtain ⟨n, hn, hmem, hnext⟩ | ⟨hnone, hmissing⟩ := gridPoint?_spec h k
    · exact ⟨n, k, by rw [search, hn], by omega, hmem, le_add_of_gridPoint? hnext, .inl rfl⟩
    · have hstep : k - ((grids + 1 : Nat) : Int) = k - 1 - grids := by omega
      rw [hstep] at hlast
      obtain ⟨n, j, hsearch, hle, hmem, hnext, hbefore⟩ := ih hlast
      refine ⟨n, j, by rw [search, hnone]; exact hsearch, by omega, hmem, hnext, .inr ?_⟩
      obtain rfl | hbefore := hbefore
      · rwa [sub_add_cancel]
      · exact hbefore

/-- The leading digit of a magnitude is where the power of ten below it is. -/
lemma leadingDigit_spec (h : bits ≠ 0) :
    (10 : ℚ) ^ leadingDigit bits ≤ magnitude bits ∧
      magnitude bits < 10 ^ (leadingDigit bits + 1) := by
  have hpos := significand_pos h
  rw [magnitude_eq_decimal, leadingDigit]
  cases exponent bits with
  | ofNat e => exact Decimal.adjusted_spec (by positivity) 0
  | negSucc e => exact Decimal.adjusted_spec (by positivity) (.negSucc e)

/-- A grid of eighteen digits has a point in the interval. -/
lemma isOnGrid_last (h : bits ≠ 0) : IsOnGrid bits (leadingDigit bits - 17) := by
  have hten := Decimal.ten_zpow_pos (leadingDigit bits - 17)
  have hunit := two_zpow_pos (exponent bits - 2)
  have hfine : (10 : ℚ) ^ (leadingDigit bits - 17) ≤ 2 ^ (exponent bits - 2) := by
    have hlow := (leadingDigit_spec h).1
    have hsignificand : (significand bits : ℚ) ≤ 2 ^ 53 := by exact_mod_cast (significand_lt bits).le
    have hsplit : (10 : ℚ) ^ leadingDigit bits = 10 ^ 17 * 10 ^ (leadingDigit bits - 17) := by
      rw [zpow_sub₀ (by norm_num)]
      norm_num
      ring
    rw [hsplit, magnitude_eq_quarters] at hlow
    nlinarith
  have hfloor := Nat.floor_le (div_nonneg (magnitude_nonneg bits) hten.le)
  have hceil := Nat.lt_floor_add_one (magnitude bits / 10 ^ (leadingDigit bits - 17))
  rw [le_div_iff₀ hten] at hfloor
  rw [div_lt_iff₀ hten, add_one_mul] at hceil
  exact ⟨_, mem_interval_of_lt h hfloor (by linarith)⟩

/-- The shortest decimal rounds to the magnitude, stands within eighteen digits of it, and has no
zero at its end. -/
theorem shortest_spec (h : bits ≠ 0) :
    ∃ (n : Nat) (k : Int), shortest bits = (n, k) ∧ leadingDigit bits - 17 ≤ k ∧
      (n : ℚ) * 10 ^ k ∈ interval bits ∧ (n : ℚ) * 10 ^ k ≤ magnitude bits + 10 ^ k ∧ ¬ 10 ∣ n := by
  have hlast : IsOnGrid bits (leadingDigit bits + 1 - (18 : Nat)) := by
    convert isOnGrid_last h using 1
    omega
  obtain ⟨n, k, hsearch, hle, hmem, hnext, hbefore⟩ := search_spec h hlast
  refine ⟨n, k, by rw [shortest, if_neg h, hsearch], by omega, hmem, hnext, fun hdvd => ?_⟩
  have hten := Decimal.ten_zpow_pos k
  obtain rfl | hbefore := hbefore
  · -- The first grid has only one positive point to offer.
    have hpos := (bounds_of_mem_interval h hmem).1
    have hhigh := (leadingDigit_spec h).2
    have hn : (n : ℚ) < 2 := by
      refine lt_of_mul_lt_mul_right ?_ hten.le
      linarith
    have hn' : n < 2 := by exact_mod_cast hn
    obtain rfl : n = 0 := by omega
    simp at hpos
  · obtain ⟨m, rfl⟩ := hdvd
    refine hbefore ⟨m, ?_⟩
    rw [zpow_add_one₀ (by norm_num)]
    push_cast at hmem
    convert hmem using 1
    ring

lemma shortest_zero : shortest 0 = (0, 0) := rfl

/-! ## Reading the shortest decimal -/

/-- The interval of a magnitude above zero begins half the smallest unit above zero or later. -/
lemma le_of_mem_interval (h : bits ≠ 0) {q : ℚ} (hq : q ∈ interval bits) :
    2 ^ (-1075 : Int) ≤ q := by
  have hlow := (interval_subset_Icc bits hq).1
  have hlower : (2 : ℚ) ≤ lowerEnd bits := by exact_mod_cast (lowerEnd_le h).1
  have hunit : (2 : ℚ) ^ (-1075 : Int) ≤ 2 / 4 * 2 ^ exponent bits := by
    have hexponent := le_exponent bits
    calc (2 : ℚ) ^ (-1075 : Int) ≤ 2 ^ (exponent bits - 1) := two_zpow_mono (by omega)
      _ = 2 / 4 * 2 ^ exponent bits := by
        rw [zpow_sub_one₀ two_ne_zero]
        ring
  rw [mul_quarter] at hlow
  refine hunit.trans (le_trans ?_ hlow)
  exact mul_le_mul_of_nonneg_right (by linarith) (two_zpow_pos _).le

/-- A decimal of the value of a shortest decimal is read as the number that it is the shortest of. -/
theorem ofDecimal_shortest (negative : Bool) (bits : Fin (2047 * 2 ^ 52)) {c : Nat} {e : Int}
    (h : (c : ℚ) * 10 ^ e = (shortest bits).1 * 10 ^ (shortest bits).2) :
    ofDecimal negative c e = finite negative bits := by
  obtain hbits | hbits := eq_or_ne bits.val 0
  · have hc : c = 0 := by
      rw [hbits, shortest_zero, Nat.cast_zero, zero_mul] at h
      exact_mod_cast (mul_eq_zero.mp h).resolve_right (Decimal.ten_zpow_pos e).ne'
    rw [ofDecimal, if_pos (.inl hc), zero]
    congr 1
    exact Fin.ext hbits.symm
  · obtain ⟨n, k, hshortest, -, hmem, -⟩ := shortest_spec hbits
    rw [hshortest] at h
    rw [← h] at hmem
    obtain ⟨k, r, heq, hrounded⟩ := exists_isRounded_of_mem_interval hmem
    rw [ofDecimal_eq hrounded (le_of_mem_interval hbits hmem), ← heq, ofBits, dif_pos bits.isLt]

/-! ## The size of the shortest decimal -/

lemma leadingDigit_range {bits : Fin (2047 * 2 ^ 52)} (h : bits.val ≠ 0) :
    -401 < leadingDigit bits ∧ leadingDigit bits < 400 := by
  obtain ⟨hlow, hhigh⟩ := leadingDigit_spec h
  have hone : (1 : ℚ) < 10 := by norm_num
  constructor
  · have hleast : (2 : ℚ) ^ (-1075 : Int) ≤ magnitude bits :=
      (two_zpow_mono (by decide)).trans (le_magnitude h)
    have hlt := (ten_zpow_le.trans hleast).trans_lt hhigh
    rw [zpow_lt_zpow_iff_right₀ hone] at hlt
    omega
  · have hlt := hlow.trans_lt ((magnitude_lt_limit bits).trans_le limit_le)
    rwa [zpow_lt_zpow_iff_right₀ hone] at hlt

/-- The shortest decimal of a binary number has few digits and a small exponent. -/
theorem isHeld_shortest (bits : Fin (2047 * 2 ^ 52)) :
    Decimal.IsHeld ((shortest bits).1 * 10 ^ (shortest bits).2) := by
  obtain h | h := eq_or_ne bits.val 0
  · exact ⟨0, 0, by decide, by decide, by simp, by simp [h, shortest_zero]⟩
  obtain ⟨n, k, hshortest, hle, hmem, hnext, hdvd⟩ := shortest_spec h
  obtain ⟨hlow, hhigh⟩ := leadingDigit_spec h
  obtain ⟨hleast, hmost⟩ := leadingDigit_range h
  have hten := Decimal.ten_zpow_pos k
  have hone : (1 : ℚ) < 10 := by norm_num
  rw [hshortest]
  refine ⟨n, k, ?_, ?_, fun hn => ?_, rfl⟩
  · have hdigits : (n : ℚ) * 10 ^ k ≤ (10 ^ 18 + 1) * 10 ^ k := by
      have hpow : (10 : ℚ) ^ (leadingDigit bits + 1) ≤ 10 ^ 18 * 10 ^ k := by
        calc (10 : ℚ) ^ (leadingDigit bits + 1) ≤ 10 ^ (18 + k) :=
              zpow_le_zpow_right₀ hone.le (by omega)
          _ = 10 ^ 18 * 10 ^ k := zpow_add₀ (by norm_num) 18 k
      linarith
    have hn : n ≤ 10 ^ 18 + 1 := by exact_mod_cast le_of_mul_le_mul_right hdigits hten
    exact hn.trans_lt (by decide)
  · have htiny : Decimal.tiny = -1000026 := rfl
    show Decimal.tiny ≤ k
    omega
  · have hlt : (10 : ℚ) ^ Decimal.adjusted n k < 10 ^ (leadingDigit bits + 2) := by
      calc (10 : ℚ) ^ Decimal.adjusted n k ≤ n * 10 ^ k := (Decimal.adjusted_spec hn k).1
        _ ≤ 2 * magnitude bits := (bounds_of_mem_interval h hmem).2
        _ < 10 * 10 ^ (leadingDigit bits + 1) := by linarith [magnitude_nonneg bits]
        _ = 10 ^ (leadingDigit bits + 2) := by
          rw [← zpow_one_add₀ (by norm_num)]
          congr 1
          ring
    rw [zpow_lt_zpow_iff_right₀ hone] at hlt
    have hmax : Decimal.maxExponent = 999999 := rfl
    show Decimal.adjusted n k ≤ Decimal.maxExponent
    omega

/-- The shortest decimal is written without zeros at its end. -/
theorem isCanonical_shortest (bits : Nat) :
    Decimal.IsCanonical (shortest bits).1 (shortest bits).2 := by
  obtain rfl | h := eq_or_ne bits 0
  · exact .inl ⟨rfl, rfl⟩
  · obtain ⟨n, k, hshortest, -, -, -, hdvd⟩ := shortest_spec h
    rw [hshortest]
    exact .inr hdvd

lemma shortest_eq_zero_iff : (shortest bits).1 = 0 ↔ bits = 0 := by
  refine ⟨fun hzero => ?_, fun h => by rw [h, shortest_zero]⟩
  by_contra h
  obtain ⟨n, k, hshortest, -, -, -, hdvd⟩ := shortest_spec h
  rw [hshortest] at hzero
  obtain rfl : n = 0 := hzero
  exact hdvd (dvd_zero 10)

end FormatCode.Binary64
