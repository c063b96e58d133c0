import FormatCode.Proofs.Binary64.Magnitude

/-!
# Nearest binary numbers

A quotient is rounded to a whole number of units, where the unit is so small that no digit of a
magnitude is left unused. Therefore the magnitude it is rounded to is the nearest of all, and of two
that are equally near the one with the even significand. What is half a unit or more beyond the last
magnitude is infinite.

## Main definitions

* `Binary64.IsRounded` — what a number is rounded to.
* `Binary64.limit` — the least number that is rounded to infinity.
* `Binary64.IsNearest` — whether a binary number is nearest to a number.

## Main statements

* `Binary64.IsRounded.nearest` — a number is rounded to the nearest magnitude.
* `Binary64.IsRounded.unique` — a number is rounded in only one way.
* `Binary64.IsRounded.overflow_iff` — which numbers are rounded to infinity.
* `Binary64.isRounded_ofRatio` — quotients are rounded.
* `Binary64.ofInt_eq_error_iff` — which integers are beyond the binary numbers.
* `Binary64.isNearest_ofDecimal` — a decimal is read as the nearest number.
-/

namespace FormatCode

/-! ## Rounding to a whole number -/

/-- A rounded quotient is at most a half away, and even if it is exactly a half away. -/
lemma abs_sub_roundHalfEven_le {n d : Nat} (hd : d ≠ 0) :
    |(n : ℚ) / d - roundHalfEven n d| ≤ 1 / 2 ∧
      (|(n : ℚ) / d - roundHalfEven n d| = 1 / 2 → Even (roundHalfEven n d)) := by
  have hpos : (0 : ℚ) < d := by exact_mod_cast Nat.pos_of_ne_zero hd
  obtain ⟨f, hf⟩ : ∃ f : ℚ, f = (n % d : Nat) / d := ⟨_, rfl⟩
  have hsplit : (n : ℚ) / d = (n / d : Nat) + f := by
    rw [hf, div_eq_iff hpos.ne', add_mul, div_mul_cancel₀ _ hpos.ne']
    exact_mod_cast (Nat.div_add_mod' n d).symm
  have hnonneg : 0 ≤ f := hf ▸ div_nonneg (Nat.cast_nonneg _) hpos.le
  have hlt : f < 1 := by
    rw [hf, div_lt_one hpos]
    exact_mod_cast Nat.mod_lt n (Nat.pos_of_ne_zero hd)
  have hup : d < 2 * (n % d) ↔ 1 / 2 < f := by
    rw [hf, div_lt_div_iff₀ two_pos hpos, one_mul, mul_comm]
    exact_mod_cast Iff.rfl
  have htie : 2 * (n % d) = d ↔ f = 1 / 2 := by
    rw [hf, div_eq_div_iff hpos.ne' two_ne_zero, one_mul, mul_comm]
    exact_mod_cast Iff.rfl
  rw [hsplit]
  by_cases h : 1 / 2 < f ∨ f = 1 / 2 ∧ n / d % 2 = 1
  · have hround : roundHalfEven n d = n / d + 1 := if_pos (by rwa [hup, htie])
    have hhalf : 1 / 2 ≤ f := h.elim le_of_lt fun h => h.1.ge
    have habs : |((n / d : Nat) : ℚ) + f - (n / d + 1 : Nat)| = 1 - f := by
      push_cast
      rw [abs_of_nonpos (by linarith)]
      ring
    rw [hround, habs, Nat.even_iff]
    refine ⟨by linarith, fun heq => ?_⟩
    have hodd := (h.resolve_left (by linarith)).2
    omega
  · have hround : roundHalfEven n d = n / d := if_neg (by rwa [hup, htie])
    rw [not_or, not_lt, not_and] at h
    rw [hround, add_sub_cancel_left, abs_of_nonneg hnonneg, Nat.even_iff]
    refine ⟨h.1, fun heq => ?_⟩
    have heven := h.2 heq
    omega

/-- A whole number at most a half away is nearest, and even if another one is as near. -/
lemma nearest_of_half {x : ℚ} {r : Nat} (hhalf : |x - r| ≤ 1 / 2)
    (htie : |x - r| = 1 / 2 → Even r) (m : Nat) :
    |x - r| ≤ |x - m| ∧ (|x - r| = |x - m| → m = r ∨ Even r) := by
  obtain rfl | hm := eq_or_ne m r
  · exact ⟨le_rfl, fun _ => .inl rfl⟩
  have hone : (1 : ℚ) ≤ |(m : ℚ) - r| := by
    have hsub : (m : Int) - r ≠ 0 := sub_ne_zero.mpr (by exact_mod_cast hm)
    exact_mod_cast Int.one_le_abs hsub
  have htriangle := abs_sub_le (m : ℚ) x r
  rw [abs_sub_comm (m : ℚ) x] at htriangle
  refine ⟨by linarith, fun heq => .inr (htie ?_)⟩
  linarith

namespace Binary64

/-! ## The nearest magnitude -/

/-- A number of units that a number is rounded to: a unit is the smallest of all or small enough to
have all digits, and the nearest whole number of them is taken. -/
structure IsRounded (q : ℚ) (k r : Nat) : Prop where
  lt : q < 2 ^ 53 * 2 ^ ((k : Int) - 1074)
  le : k = 0 ∨ 2 ^ 52 * 2 ^ ((k : Int) - 1074) ≤ q
  half : |q / 2 ^ ((k : Int) - 1074) - r| ≤ 1 / 2
  tie : |q / 2 ^ ((k : Int) - 1074) - r| = 1 / 2 → Even r

namespace IsRounded

variable {q : ℚ} {k r : Nat}

lemma count_le (h : IsRounded q k r) : r ≤ 2 ^ 53 := by
  have hlt := (div_lt_iff₀ (two_zpow_pos _)).mpr h.lt
  have hhalf := (abs_le.mp h.half).1
  have : (r : ℚ) < (2 ^ 53 + 1 : Nat) := by
    push_cast
    linarith
  exact Nat.le_of_lt_succ (by exact_mod_cast this)

lemma le_count (h : IsRounded q k r) : k = 0 ∨ 2 ^ 52 ≤ r := by
  refine h.le.imp_right fun hle => ?_
  rw [← le_div_iff₀ (two_zpow_pos _)] at hle
  have hhalf := (abs_le.mp h.half).2
  have : ((2 ^ 52 : Nat) : ℚ) < r + 1 := by
    push_cast
    linarith
  exact Nat.le_of_lt_succ (by exact_mod_cast this)

lemma magnitude_eq (h : IsRounded q k r) :
    magnitude (k * 2 ^ 52 + r) = r * 2 ^ ((k : Int) - 1074) ∧
      (Even r → Even (significand (k * 2 ^ 52 + r))) :=
  magnitude_add h.count_le h.le_count

/-- What a number is rounded to is nearest to it among the magnitudes, and even if another one is as
near. -/
theorem nearest (h : IsRounded q k r) (bits : Nat) :
    |q - magnitude (k * 2 ^ 52 + r)| ≤ |q - magnitude bits| ∧
      (|q - magnitude (k * 2 ^ 52 + r)| = |q - magnitude bits| →
        magnitude bits = magnitude (k * 2 ^ 52 + r) ∨ Even (significand (k * 2 ^ 52 + r))) := by
  obtain ⟨hmagnitude, heven⟩ := h.magnitude_eq
  have hunit := two_zpow_pos ((k : Int) - 1074)
  have hscale : ∀ m : ℚ, |q - m * 2 ^ ((k : Int) - 1074)| =
      |q / 2 ^ ((k : Int) - 1074) - m| * 2 ^ ((k : Int) - 1074) := by
    intro m
    rw [← abs_of_pos hunit, ← abs_mul, sub_mul, abs_of_pos hunit, div_mul_cancel₀ _ hunit.ne']
  rw [hmagnitude]
  obtain ⟨m, hm⟩ | ⟨hk, hlt⟩ := exists_multiple_or_lt bits k
  · obtain ⟨hle, htie⟩ := nearest_of_half h.half h.tie m
    rw [hm, hscale, hscale]
    refine ⟨mul_le_mul_of_nonneg_right hle hunit.le, fun heq => ?_⟩
    exact (htie (mul_right_cancel₀ hunit.ne' heq)).imp (fun hmr => by rw [hmr]) heven
  · -- Below the magnitudes of the unit, the first of these is nearer.
    have hfirst := h.le.resolve_left hk
    obtain ⟨hle, -⟩ := nearest_of_half h.half h.tie (2 ^ 52)
    have hnearer : |q - r * 2 ^ ((k : Int) - 1074)| < |q - magnitude bits| := by
      calc |q - r * 2 ^ ((k : Int) - 1074)|
        _ ≤ |q - (2 ^ 52 : Nat) * 2 ^ ((k : Int) - 1074)| := by
          rw [hscale, hscale]
          exact mul_le_mul_of_nonneg_right hle hunit.le
        _ = q - 2 ^ 52 * 2 ^ ((k : Int) - 1074) := by
          push_cast
          exact abs_of_nonneg (by linarith)
        _ < q - magnitude bits := by linarith
        _ ≤ |q - magnitude bits| := le_abs_self _
    exact ⟨hnearer.le, fun heq => absurd heq hnearer.ne⟩

lemma unit_le {k' r' : Nat} (h : IsRounded q k r) (h' : IsRounded q k' r') : k' ≤ k := by
  by_contra hlt
  have hunit : (2 : ℚ) ^ ((k : Int) - 1074) * 2 ≤ 2 ^ ((k' : Int) - 1074) :=
    two_zpow_mul_two_le (by omega)
  have hlow := h'.le.resolve_left (by omega)
  have hhigh := h.lt
  linarith

/-- A number is rounded in only one way. -/
theorem unique {k' r' : Nat} (h : IsRounded q k r) (h' : IsRounded q k' r') : k = k' ∧ r = r' := by
  obtain rfl := le_antisymm (h'.unit_le h) (h.unit_le h')
  refine ⟨rfl, ?_⟩
  obtain ⟨hle, htie⟩ := nearest_of_half h.half h.tie r'
  obtain ⟨hle', htie'⟩ := nearest_of_half h'.half h'.tie r
  obtain hr | ⟨m, rfl⟩ := htie (hle.antisymm hle')
  · exact hr.symm
  obtain hr | ⟨m', rfl⟩ := htie' (hle'.antisymm hle)
  · exact hr
  -- Two even numbers are not one apart.
  have hapart : |((m + m : Nat) : ℚ) - (m' + m' : Nat)| ≤ 1 := by
    have htriangle := abs_sub_le ((m + m : Nat) : ℚ) (q / 2 ^ ((k : Int) - 1074)) (m' + m' : Nat)
    rw [abs_sub_comm ((m + m : Nat) : ℚ) (q / _)] at htriangle
    linarith [h.half, h'.half]
  have hapart' : |((m + m : Nat) : Int) - (m' + m' : Nat)| ≤ 1 := by exact_mod_cast hapart
  rw [abs_le] at hapart'
  omega

end IsRounded

/-- The numbers from here on are rounded to infinity: the last magnitude and half a unit. -/
def limit : ℚ := (2 ^ 53 - 1 / 2) * 2 ^ (971 : Int)

/-- Half a unit before the last count is rounded up to it: the count before is odd. -/
lemma count_eq_last_iff {x : ℚ} {r : Nat} (hr : r ≤ 2 ^ 53) (hhalf : |x - r| ≤ 1 / 2)
    (htie : |x - r| = 1 / 2 → Even r) : r = 2 ^ 53 ↔ 2 ^ 53 - 1 / 2 ≤ x := by
  obtain ⟨hover, hunder⟩ := abs_le.mp hhalf
  constructor
  · rintro rfl
    push_cast at hover
    linarith only [hover]
  · intro hpast
    by_contra hbelow
    have hlast : (r : ℚ) ≤ 2 ^ 53 - 1 := by
      have : r + 1 ≤ 2 ^ 53 := by omega
      have : (r : ℚ) + 1 ≤ 2 ^ 53 := by exact_mod_cast this
      linarith only [this]
    have hr : (r : ℚ) = (2 ^ 53 - 1 : Nat) := by
      push_cast
      linarith only [hlast, hunder, hpast]
    have heven := htie (by rw [abs_of_nonneg] <;> linarith only [hlast, hunder, hpast])
    rw [Nat.cast_inj.mp hr] at heven
    exact absurd heven (by decide)

/-- What a number is rounded to is past the last magnitude if the number is past the limit. -/
theorem IsRounded.overflow_iff {q : ℚ} {k r : Nat} (h : IsRounded q k r) :
    2047 * 2 ^ 52 ≤ k * 2 ^ 52 + r ↔ limit ≤ q := by
  have hcount := h.count_le
  have hcount' := h.le_count
  have hunit := two_zpow_pos 971
  have hlt := h.lt
  have hle := h.le
  obtain hk | rfl | hk := Nat.lt_trichotomy k 2045
  · refine iff_of_false (by omega) (not_le.mpr (hlt.trans_le ?_))
    have hstep : (2 : ℚ) ^ ((k : Int) - 1074) * 2 ≤ 2 ^ (971 : Int) :=
      two_zpow_mul_two_le (by omega)
    rw [limit]
    generalize (2 : ℚ) ^ (971 : Int) = unit at *
    linarith
  · have hhalf := h.half
    have htie := h.tie
    have hexponent : ((2045 : Nat) : Int) - 1074 = 971 := rfl
    rw [hexponent] at hhalf htie
    rw [limit, ← le_div_iff₀ hunit, ← count_eq_last_iff hcount hhalf htie]
    omega
  · refine iff_of_true (by omega) (le_trans ?_ (hle.resolve_left (by omega)))
    have hstep : (2 : ℚ) ^ (971 : Int) * 2 ≤ 2 ^ ((k : Int) - 1074) :=
      two_zpow_mul_two_le (by omega)
    rw [limit]
    generalize (2 : ℚ) ^ (971 : Int) = unit at *
    linarith

/-! ## Rounding a quotient -/

/-- A power is the quotient of two powers with natural exponents, one of which is one. -/
lemma zpow_eq_div {b : ℚ} (hb : b ≠ 0) (e : Int) : b ^ e = b ^ e.toNat / b ^ (-e).toNat := by
  rw [eq_div_iff (pow_ne_zero _ hb), ← zpow_natCast, ← zpow_natCast, ← zpow_add₀ hb]
  congr 1
  omega

/-- A quotient lies between half and twice the quotient of the powers of two below its terms. -/
lemma div_bounds_log2 {n d : Nat} (hn : n ≠ 0) (hd : d ≠ 0) :
    (2 : ℚ) ^ ((n.log2 : Int) - d.log2 - 1) ≤ n / d ∧
      (n : ℚ) / d < 2 ^ ((n.log2 : Int) - d.log2 + 1) := by
  have hpos : (0 : ℚ) < d := by exact_mod_cast Nat.pos_of_ne_zero hd
  have hn_low : (2 : ℚ) ^ (n.log2 : Int) ≤ n := by exact_mod_cast Nat.log2_self_le hn
  have hn_high : (n : ℚ) < 2 ^ ((n.log2 : Int) + 1) := by exact_mod_cast Nat.lt_log2_self
  have hd_low : (2 : ℚ) ^ (d.log2 : Int) ≤ d := by exact_mod_cast Nat.log2_self_le hd
  have hd_high : (d : ℚ) ≤ 2 ^ ((d.log2 : Int) + 1) := by exact_mod_cast Nat.lt_log2_self.le
  rw [le_div_iff₀ hpos, div_lt_iff₀ hpos]
  constructor
  · calc (2 : ℚ) ^ ((n.log2 : Int) - d.log2 - 1) * d
      _ ≤ 2 ^ ((n.log2 : Int) - d.log2 - 1) * 2 ^ ((d.log2 : Int) + 1) :=
        mul_le_mul_of_nonneg_left hd_high (two_zpow_pos _).le
      _ = 2 ^ (n.log2 : Int) := by
        rw [← zpow_add₀ two_ne_zero]
        congr 1
        omega
      _ ≤ n := hn_low
  · calc (n : ℚ) < 2 ^ ((n.log2 : Int) + 1) := hn_high
      _ = 2 ^ ((n.log2 : Int) - d.log2 + 1) * 2 ^ (d.log2 : Int) := by
        rw [← zpow_add₀ two_ne_zero]
        congr 1
        omega
      _ ≤ 2 ^ ((n.log2 : Int) - d.log2 + 1) * d :=
        mul_le_mul_of_nonneg_left hd_low (two_zpow_pos _).le

/-- The leading exponent of a quotient is that of the power of two below it. -/
theorem leadingExponent_spec {n d : Nat} (hn : n ≠ 0) (hd : d ≠ 0) :
    (2 : ℚ) ^ leadingExponent n d ≤ n / d ∧ (n : ℚ) / d < 2 ^ (leadingExponent n d + 1) := by
  have hpos : (0 : ℚ) < d := by exact_mod_cast Nat.pos_of_ne_zero hd
  obtain ⟨k, hk⟩ : ∃ k : Int, k = (n.log2 : Int) - d.log2 := ⟨_, rfl⟩
  obtain ⟨hlow, hhigh⟩ := div_bounds_log2 hn hd
  rw [← hk] at hlow hhigh
  have htest : d * 2 ^ k.toNat ≤ n * 2 ^ (-k).toNat ↔ (2 : ℚ) ^ k ≤ n / d := by
    rw [zpow_eq_div two_ne_zero, div_le_div_iff₀ (by positivity) hpos, mul_comm d]
    exact_mod_cast Iff.rfl
  by_cases h : (2 : ℚ) ^ k ≤ n / d
  · have hleading : leadingExponent n d = k := by
      rw [leadingExponent, ← hk]
      exact if_pos (htest.mpr h)
    rw [hleading]
    exact ⟨h, hhigh⟩
  · have hleading : leadingExponent n d = k - 1 := by
      rw [leadingExponent, ← hk]
      exact if_neg (mt htest.mp h)
    rw [hleading, sub_add_cancel]
    exact ⟨hlow, not_le.mp h⟩

/-- A quotient is rounded to units. -/
theorem isRounded_ofRatio {n d : Nat} (hn : n ≠ 0) (hd : d ≠ 0) :
    IsRounded (n / d) (unitExponent n d + 1074).toNat
      (roundHalfEven (n * 2 ^ (-unitExponent n d).toNat) (d * 2 ^ (unitExponent n d).toNat)) := by
  obtain ⟨hlow, hhigh⟩ := leadingExponent_spec hn hd
  obtain ⟨e, he⟩ : ∃ e, e = unitExponent n d := ⟨_, rfl⟩
  have hunit : e = max (leadingExponent n d - 52) (-1074) := he
  have hexponent : ((e + 1074).toNat : Int) - 1074 = e := by omega
  have hquotient : ((n * 2 ^ (-e).toNat : Nat) : ℚ) / (d * 2 ^ e.toNat : Nat) = n / d / 2 ^ e := by
    have hd' : (d : ℚ) ≠ 0 := by exact_mod_cast hd
    rw [zpow_eq_div two_ne_zero]
    push_cast
    field_simp
  obtain ⟨hhalf, htie⟩ := abs_sub_roundHalfEven_le (n := n * 2 ^ (-e).toNat)
    (d := d * 2 ^ e.toNat) (by positivity)
  rw [← he]
  rw [hquotient] at hhalf htie
  refine ⟨?_, ?_, hexponent.symm ▸ hhalf, hexponent.symm ▸ htie⟩
  · rw [hexponent]
    calc (n : ℚ) / d < 2 ^ (leadingExponent n d + 1) := hhigh
      _ ≤ 2 ^ (53 + e) := two_zpow_mono (by omega)
      _ = 2 ^ 53 * 2 ^ e := zpow_add₀ two_ne_zero 53 e
  · obtain hsmall | hlarge := le_or_gt e (-1074)
    · exact .inl (by omega)
    · right
      rw [hexponent]
      calc (2 : ℚ) ^ 52 * 2 ^ e = 2 ^ (52 + e) := (zpow_add₀ two_ne_zero 52 e).symm
        _ = 2 ^ leadingExponent n d := by
          congr 1
          omega
        _ ≤ n / d := hlow

/-! ## The nearest number -/

/-- Whether a binary number is nearest to a number. Past the limit that is infinity. Otherwise no
finite one is nearer, and if one of another value is as near, the significand is even. -/
def IsNearest (q : ℚ) : Binary64 → Prop
  | x@(finite _ bits) => |q| < limit ∧ ∀ y : Binary64, y.isFinite →
      |q - x.toDecimal.toRat| ≤ |q - y.toDecimal.toRat| ∧
        (|q - x.toDecimal.toRat| = |q - y.toDecimal.toRat| →
          y.toDecimal.toRat = x.toDecimal.toRat ∨ Even (significand bits))
  | infinity negative => limit ≤ |q| ∧ (negative ↔ q < 0)
  | nan => False

lemma abs_toRat_toDecimal (negative : Bool) (bits : Fin (2047 * 2 ^ 52)) :
    |(finite negative bits).toDecimal.toRat| = magnitude bits := by
  rw [toRat_toDecimal]
  cases negative <;> simp [abs_of_nonneg (magnitude_nonneg _)]

/-- What is nearest among the magnitudes is nearest among the numbers of either sign. -/
lemma nearest_of_abs {q x y : ℚ} {p : Prop} (hq : 0 < q)
    (h : |q - x| ≤ |q - (|y|)| ∧ (|q - x| = |q - (|y|)| → |y| = x ∨ p)) :
    |q - x| ≤ |q - y| ∧ (|q - x| = |q - y| → y = x ∨ p) := by
  obtain hy | hy := le_or_gt 0 y
  · rwa [abs_of_nonneg hy] at h
  · rw [abs_of_neg hy] at h
    have hfurther : |q - -y| < |q - y| := by
      rw [abs_of_pos (by linarith : 0 < q - y)]
      exact abs_lt.mpr ⟨by linarith, by linarith⟩
    exact ⟨h.1.trans hfurther.le, fun heq => absurd heq (h.1.trans_lt hfurther).ne⟩

/-- What a number is rounded to is nearest to it, whatever the sign. -/
theorem IsRounded.isNearest {q : ℚ} {k r : Nat} (h : IsRounded q k r) (hq : 0 < q)
    (negative : Bool) :
    IsNearest ((if negative then -1 else 1) * q) (ofBits negative (k * 2 ^ 52 + r)) := by
  have habs : |(if negative then -1 else 1) * q| = q := by
    cases negative <;> simp [abs_of_pos hq]
  by_cases hbits : k * 2 ^ 52 + r < 2047 * 2 ^ 52
  · rw [ofBits, dif_pos hbits]
    refine ⟨by rw [habs]; exact not_le.mp (mt h.overflow_iff.mpr (not_le.mpr hbits)), ?_⟩
    intro y hy
    cases y with
    | finite negative' bits =>
      have hnearest := h.nearest bits
      rw [← abs_toRat_toDecimal negative' bits] at hnearest
      rw [toRat_toDecimal negative]
      generalize (finite negative' bits).toDecimal.toRat = y at *
      cases negative with
      | false => simpa using nearest_of_abs hq hnearest
      | true =>
        rw [← abs_neg y] at hnearest
        obtain ⟨hle, htie⟩ := nearest_of_abs hq hnearest
        have hflip : ∀ x : ℚ, |-q - x| = |q - -x| := fun x => by
          rw [← abs_neg]
          congr 1
          ring
        simp only [if_true, neg_one_mul, hflip, neg_neg]
        exact ⟨hle, fun heq => (htie heq).imp_left fun hy => by rw [← hy, neg_neg]⟩
    | _ => cases hy
  · rw [ofBits, dif_neg hbits]
    refine ⟨by rw [habs]; exact h.overflow_iff.mp (not_lt.mp hbits), ?_⟩
    cases negative <;> simp [hq, hq.le]

/-- Zero is nearest to the numbers up to half the smallest magnitude. -/
lemma isNearest_zero {q : ℚ} (h : |q| ≤ 2 ^ (-1075 : Int)) (negative : Bool) :
    IsNearest q (zero negative) := by
  have hzero : (zero negative).toDecimal.toRat = 0 := by
    rw [zero, toRat_toDecimal, magnitude_zero, mul_zero]
  have hsmall : (2 : ℚ) ^ (-1075 : Int) < limit := by
    have hle : (2 : ℚ) ^ (-1075 : Int) ≤ 2 ^ (971 : Int) := two_zpow_mono (by decide)
    have hpos := two_zpow_pos 971
    rw [limit]
    generalize (2 : ℚ) ^ (971 : Int) = unit at *
    generalize (2 : ℚ) ^ (-1075 : Int) = half at *
    linarith
  refine ⟨h.trans_lt hsmall, fun y hy => ?_⟩
  rw [zero] at hzero
  rw [hzero, sub_zero]
  cases y with
  | finite negative' bits =>
    refine ⟨?_, fun _ => .inr (by decide)⟩
    have habs := abs_toRat_toDecimal negative' bits
    generalize (finite negative' bits).toDecimal.toRat = y at *
    obtain hbits | hbits := eq_or_ne bits.val 0
    · rw [hbits, magnitude_zero, abs_eq_zero] at habs
      rw [habs, sub_zero]
    · have hleast : (2 : ℚ) ^ (-1075 : Int) * 2 ≤ |y| := by
        rw [habs]
        exact (two_zpow_mul_two_le (by decide)).trans (le_magnitude hbits)
      have htriangle := abs_sub_abs_le_abs_sub y q
      rw [abs_sub_comm] at htriangle
      generalize (2 : ℚ) ^ (-1075 : Int) = half at *
      linarith
  | _ => cases hy

/-- A magnitude is rounded to itself. -/
lemma exists_isRounded_magnitude (bits : Nat) :
    ∃ k r, bits = k * 2 ^ 52 + r ∧ IsRounded (magnitude bits) k r := by
  obtain ⟨k, r, rfl, hr, hk⟩ := exists_units bits
  have hunit := two_zpow_pos ((k : Int) - 1074)
  refine ⟨k, r, rfl, ?_⟩
  rw [(magnitude_add hr.le hk).1]
  have hself : (r : ℚ) * 2 ^ ((k : Int) - 1074) / 2 ^ ((k : Int) - 1074) - r = 0 := by
    rw [mul_div_cancel_right₀ _ hunit.ne', sub_self]
  refine ⟨mul_lt_mul_of_pos_right (by exact_mod_cast hr) hunit, ?_, ?_, ?_⟩
  · exact hk.imp_right fun hk => mul_le_mul_of_nonneg_right (by exact_mod_cast hk) hunit.le
  · rw [hself]
    norm_num
  · rw [hself]
    norm_num

lemma magnitude_lt_limit (bits : Fin (2047 * 2 ^ 52)) : magnitude bits < limit := by
  obtain ⟨k, r, hbits, hrounded⟩ := exists_isRounded_magnitude bits
  exact not_le.mp (mt hrounded.overflow_iff.mpr (by have := bits.isLt; omega))

/-- The number nearest to a binary number is worth the same. -/
theorem IsNearest.toRat_eq {x y : Binary64} (hy : y.isFinite) (h : IsNearest y.toDecimal.toRat x) :
    x.isFinite ∧ x.toDecimal.toRat = y.toDecimal.toRat := by
  cases x with
  | finite negative bits =>
    have hle := (h.2 y hy).1
    rw [sub_self, abs_zero, abs_nonpos_iff, sub_eq_zero] at hle
    exact ⟨rfl, hle.symm⟩
  | infinity negative =>
    cases y with
    | finite negative' bits =>
      have hlimit := h.1
      rw [abs_toRat_toDecimal] at hlimit
      exact absurd (magnitude_lt_limit bits) (not_lt.mpr hlimit)
    | _ => cases hy
  | nan => exact h.elim

/-- A quotient is rounded to the nearest number. -/
theorem isNearest_ofRatio (negative : Bool) (n : Nat) {d : Nat} (hd : d ≠ 0) :
    IsNearest ((if negative then -1 else 1) * (n / d)) (ofRatio negative n d) := by
  obtain rfl | hn := eq_or_ne n 0
  · rw [ofRatio, if_pos rfl, Nat.cast_zero, zero_div, mul_zero]
    exact isNearest_zero (by rw [abs_zero]; exact (two_zpow_pos _).le) negative
  · have hpos : (0 : ℚ) < n / d :=
      div_pos (by exact_mod_cast Nat.pos_of_ne_zero hn) (by exact_mod_cast Nat.pos_of_ne_zero hd)
    rw [ofRatio, if_neg hn]
    exact (isRounded_ofRatio hn hd).isNearest hpos negative

lemma isNearest_ofRatio_one (i : Int) :
    IsNearest i (ofRatio (decide (i < 0)) i.natAbs 1) := by
  have hnearest := isNearest_ofRatio (decide (i < 0)) i.natAbs one_ne_zero
  have hvalue : (if decide (i < 0) then -1 else 1) * ((i.natAbs : ℚ) / (1 : Nat)) = i := by
    obtain hi | hi := lt_or_ge i 0
    · simp [hi, abs_of_neg hi]
    · simp [not_lt.mpr hi, abs_of_nonneg hi]
  rwa [hvalue] at hnearest

/-- An integer is beyond the binary numbers if it is rounded to infinity. -/
theorem ofInt_eq_error_iff {i : Int} {e : Fault} :
    ofInt i = .error e ↔ e = .wholeTooLarge ∧ limit ≤ |(i : ℚ)| := by
  have hnearest := isNearest_ofRatio_one i
  unfold ofInt
  cases h : ofRatio (decide (i < 0)) i.natAbs 1 with
  | finite negative bits =>
    rw [h] at hnearest
    simp [hnearest.1]
  | infinity negative =>
    rw [h] at hnearest
    simp [hnearest.1, eq_comm]
  | nan =>
    rw [h] at hnearest
    exact hnearest.elim

/-- Otherwise it is rounded to the nearest of them. -/
theorem isNearest_of_ofInt {i : Int} {x : Binary64} (h : ofInt i = .ok x) :
    x.isFinite ∧ IsNearest i x := by
  have hnearest := isNearest_ofRatio_one i
  unfold ofInt at h
  cases hratio : ofRatio (decide (i < 0)) i.natAbs 1 with
  | finite negative bits =>
    rw [hratio] at h hnearest
    obtain rfl := Except.ok.inj h
    exact ⟨rfl, hnearest⟩
  | infinity negative =>
    rw [hratio] at h
    cases h
  | nan =>
    rw [hratio] at hnearest
    exact hnearest.elim

/-- A quotient becomes the number that it is rounded to. -/
theorem ofRatio_eq {n d k r : Nat} (hn : n ≠ 0) (hd : d ≠ 0) (h : IsRounded (n / d) k r)
    (negative : Bool) : ofRatio negative n d = ofBits negative (k * 2 ^ 52 + r) := by
  obtain ⟨rfl, rfl⟩ := (isRounded_ofRatio hn hd).unique h
  rw [ofRatio, if_neg hn]

/-! ## Rounding a decimal -/

lemma two_zpow_le_ten_zpow : (2 : ℚ) ^ (1200 : Int) ≤ 10 ^ (400 : Int) := by
  have hexponent : (1200 : Int) = 3 * 400 := rfl
  rw [hexponent, zpow_mul]
  exact zpow_le_zpow_left₀ (by decide) (by positivity) (by norm_num)

lemma limit_le : limit ≤ 10 ^ (400 : Int) := by
  calc limit ≤ 2 ^ 53 * 2 ^ (971 : Int) :=
        mul_le_mul_of_nonneg_right (by norm_num) (two_zpow_pos _).le
    _ = 2 ^ (1024 : Int) := (zpow_add₀ two_ne_zero 53 971).symm
    _ ≤ 2 ^ (1200 : Int) := two_zpow_mono (by decide)
    _ ≤ 10 ^ (400 : Int) := two_zpow_le_ten_zpow

lemma ten_zpow_le : (10 : ℚ) ^ (-400 : Int) ≤ 2 ^ (-1075 : Int) := by
  calc (10 : ℚ) ^ (-400 : Int) ≤ 2 ^ (-1200 : Int) := by
        rw [zpow_neg, zpow_neg]
        exact inv_anti₀ (two_zpow_pos _) two_zpow_le_ten_zpow
    _ ≤ 2 ^ (-1075 : Int) := two_zpow_mono (by decide)

section Decimal

variable {c : Nat} {e : Int}

/-- What has no digit before the four hundredth place is rounded to zero. -/
lemma lt_of_adjusted_lt (h : c = 0 ∨ Decimal.adjusted c e < -400) :
    (c : ℚ) * 10 ^ e < 2 ^ (-1075 : Int) := by
  obtain rfl | hc := eq_or_ne c 0
  · rw [Nat.cast_zero, zero_mul]
    exact two_zpow_pos _
  · have hadjusted := h.resolve_left hc
    calc (c : ℚ) * 10 ^ e < 10 ^ (Decimal.adjusted c e + 1) := (Decimal.adjusted_spec hc e).2
      _ ≤ 10 ^ (-400 : Int) := zpow_le_zpow_right₀ (by norm_num) (by omega)
      _ ≤ 2 ^ (-1075 : Int) := ten_zpow_le

/-- What has a digit of four hundred places or more before the point is past the limit. -/
lemma limit_le_of_lt_adjusted (hc : c ≠ 0) (h : 400 < Decimal.adjusted c e) :
    limit ≤ c * 10 ^ e := by
  calc limit ≤ 10 ^ (400 : Int) := limit_le
    _ ≤ 10 ^ Decimal.adjusted c e := zpow_le_zpow_right₀ (by norm_num) h.le
    _ ≤ c * 10 ^ e := (Decimal.adjusted_spec hc e).1

/-- A decimal as a quotient of whole numbers. -/
lemma decimal_eq_div (c : Nat) (e : Int) :
    (c : ℚ) * 10 ^ e = (c * 10 ^ e.toNat : Nat) / (10 ^ (-e).toNat : Nat) := by
  rw [zpow_eq_div (by norm_num)]
  push_cast
  ring

/-- A decimal is rounded to the nearest number. -/
theorem isNearest_ofDecimal (negative : Bool) (c : Nat) (e : Int) :
    IsNearest (Decimal.finite negative c e).toRat (ofDecimal negative c e) := by
  have hmagnitude := Decimal.abs_toRat_finite negative c e
  rw [ofDecimal]
  split
  · next hsmall => exact isNearest_zero (hmagnitude ▸ (lt_of_adjusted_lt hsmall).le) negative
  · next hsmall =>
    rw [not_or] at hsmall
    split
    · next hlarge =>
      refine ⟨hmagnitude ▸ limit_le_of_lt_adjusted hsmall.1 hlarge, ?_⟩
      rw [Decimal.toRat_neg_iff]
      exact (and_iff_left hsmall.1).symm
    · rw [Decimal.toRat, decimal_eq_div]
      exact isNearest_ofRatio negative _ (by positivity)

/-- A decimal that is not too small becomes the number that it is rounded to. -/
theorem ofDecimal_eq {k r : Nat} (h : IsRounded (c * 10 ^ e) k r)
    (hlow : 2 ^ (-1075 : Int) ≤ (c : ℚ) * 10 ^ e) (negative : Bool) :
    ofDecimal negative c e = ofBits negative (k * 2 ^ 52 + r) := by
  have hsmall : ¬ (c = 0 ∨ Decimal.adjusted c e < -400) :=
    fun hsmall => absurd (lt_of_adjusted_lt hsmall) (not_lt.mpr hlow)
  rw [ofDecimal, if_neg hsmall]
  rw [not_or] at hsmall
  split
  · next hlarge =>
    have hpast := h.overflow_iff.mpr (limit_le_of_lt_adjusted hsmall.1 hlarge)
    rw [ofBits, dif_neg (not_lt.mpr hpast)]
  · rw [decimal_eq_div] at h
    exact ofRatio_eq (mul_ne_zero hsmall.1 (by positivity)) (by positivity) h negative

end Decimal

end Binary64

end FormatCode
