import FormatCode.Proofs.Decimal.Exact
import FormatCode.Proofs.Number.Sign
import Mathlib.Order.Compare
import Mathlib.Order.WithBot

/-!
# Numbers in order

Numbers that are not NaN have a value, which is rational or one of two infinities, and are compared
by these values whatever they are written as. So a condition accepts a number if and only if its
relation holds between the values of the number and the threshold.

## Main definitions

* `Comparison.Relates` — whether a relation holds in a linear order.
* `Decimal.extended`, `Number.extended` — the values.

## Main statements

* `Decimal.compares_of_compare?` — decimals are compared by their values.
* `Condition.accepts_number` — a condition accepts the numbers that are related to its threshold.
-/

namespace FormatCode

/-! ## Relations in a linear order -/

namespace Comparison

section Relates

variable {α : Type} [LinearOrder α]

def Relates : Comparison → α → α → Prop
  | greater, a, b => b < a
  | less, a, b => a < b
  | atLeast, a, b => b ≤ a
  | atMost, a, b => a ≤ b
  | equal, a, b => a = b
  | unequal, a, b => a ≠ b

instance (c : Comparison) (a b : α) : Decidable (c.Relates a b) :=
  match c with
  | greater => inferInstanceAs (Decidable (b < a))
  | less => inferInstanceAs (Decidable (a < b))
  | atLeast => inferInstanceAs (Decidable (b ≤ a))
  | atMost => inferInstanceAs (Decidable (a ≤ b))
  | equal => inferInstanceAs (Decidable (a = b))
  | unequal => inferInstanceAs (Decidable (a ≠ b))

/-- A relation holds between two members if it holds in their order. -/
theorem holds_iff_relates {o : Ordering} {a b : α} (h : o.Compares a b) (c : Comparison) :
    c.holds o ↔ c.Relates a b := by
  cases o with
  | lt =>
    have hlt : a < b := h
    cases c <;> simp [holds, Relates, hlt, hlt.le, hlt.ne, hlt.not_ge, hlt.not_gt]
  | eq =>
    obtain rfl : a = b := h
    cases c <;> simp [holds, Relates]
  | gt =>
    have hgt : b < a := h
    cases c <;> simp [holds, Relates, hgt, hgt.le, hgt.ne', hgt.not_ge, hgt.not_gt]

end Relates

end Comparison

/-! ## Values -/

namespace Decimal

/-- The value of a decimal; zero for what is not a number. -/
def extended : Decimal → WithBot (WithTop ℚ)
  | infinity negative => if negative then ⊥ else ⊤
  | d => (d.toRat : WithTop ℚ)

lemma extended_of_isFinite {d : Decimal} (h : d.isFinite) : d.extended = (d.toRat : WithTop ℚ) := by
  cases d with
  | finite n c e => rfl
  | _ => cases h

/-- Whole numbers of one unit are compared by how many units they are. -/
lemma compares_units (c d : Nat) {unit : ℚ} (h : 0 < unit) :
    (compare c d).Compares (c * unit) (d * unit) := by
  obtain hlt | rfl | hgt := Nat.lt_trichotomy c d
  · rw [compare_lt_iff_lt.mpr hlt]
    exact mul_lt_mul_of_pos_right (by exact_mod_cast hlt) h
  · rw [compare_eq_iff_eq.mpr rfl]
    rfl
  · rw [compare_gt_iff_gt.mpr hgt]
    exact mul_lt_mul_of_pos_right (by exact_mod_cast hgt) h

/-- The magnitudes of decimals are compared by what they are worth. -/
lemma compares_compareMagnitude (c : Nat) (e : Int) (d : Nat) (f : Int) :
    (compareMagnitude c e d f).Compares ((c : ℚ) * 10 ^ e) (d * 10 ^ f) := by
  unfold compareMagnitude
  split
  · next hzero =>
    -- Zero has the same value in every unit.
    obtain rfl | rfl := hzero
    · simpa using compares_units 0 d (ten_zpow_pos f)
    · simpa using compares_units c 0 (ten_zpow_pos e)
  · next hzero =>
    rw [not_or] at hzero
    obtain ⟨hlow, hhigh⟩ := adjusted_spec hzero.1 e
    obtain ⟨hlow', hhigh'⟩ := adjusted_spec hzero.2 f
    have hmono : ∀ {i j : Int}, i ≤ j → (10 : ℚ) ^ i ≤ 10 ^ j :=
      fun h => zpow_le_zpow_right₀ (by norm_num) h
    obtain hlt | heq | hgt := Int.lt_trichotomy (adjusted c e) (adjusted d f)
    · rw [compare_lt_iff_lt.mpr hlt]
      exact hhigh.trans_le ((hmono hlt).trans hlow')
    · rw [heq, compare_eq_iff_eq.mpr rfl]
      -- The larger exponent is written out, so that both have the smaller one.
      have hsplit : ∀ i j : Int, (10 : ℚ) ^ i = 10 ^ (i - j).toNat * 10 ^ min i j := by
        intro i j
        rw [← zpow_natCast, ← zpow_add₀ (by norm_num)]
        congr 1
        omega
      rw [hsplit e f, hsplit f e, min_comm f e, ← mul_assoc, ← mul_assoc]
      exact_mod_cast compares_units _ _ (ten_zpow_pos (min e f))
    · rw [compare_gt_iff_gt.mpr hgt]
      exact hhigh'.trans_le ((hmono hgt).trans hlow)

/-- The value of a finite decimal by its sign. -/
lemma toRat_of_sign (negative : Bool) (c : Nat) (e : Int) :
    (finite negative c e).toRat = if negative && c != 0 then -(c * 10 ^ e : ℚ) else c * 10 ^ e := by
  cases negative with
  | false => simp [toRat]
  | true => by_cases hc : c = 0 <;> simp [toRat, hc]

/-- Finite decimals are compared by their values. -/
lemma compares_toRat {n m : Bool} {c d : Nat} {e f : Int} {o : Ordering}
    (h : compare? (.finite n c e) (.finite m d f) = some o) :
    o.Compares (finite n c e).toRat (finite m d f).toRat := by
  have hnonneg : ∀ (c : Nat) (e : Int), (0 : ℚ) ≤ c * 10 ^ e :=
    fun c e => mul_nonneg (Nat.cast_nonneg c) (ten_zpow_pos e).le
  have hpos : ∀ {n : Bool} {c : Nat}, (n && c != 0) = true → ∀ e : Int, (0 : ℚ) < c * 10 ^ e := by
    intro n c h e
    have hc : c ≠ 0 := by simp_all
    exact mul_pos (Nat.cast_pos.mpr (Nat.pos_of_ne_zero hc)) (ten_zpow_pos e)
  obtain rfl := Option.some.inj h
  rw [toRat_of_sign, toRat_of_sign]
  cases hn : (n && c != 0) <;> cases hm : (m && d != 0)
  · exact compares_compareMagnitude c e d f
  · exact (neg_neg_of_pos (hpos hm f)).trans_le (hnonneg c e)
  · exact (neg_neg_of_pos (hpos hn e)).trans_le (hnonneg d f)
  · have hflip : StrictAnti fun q : ℚ => -q := fun _ _ h => neg_lt_neg h
    exact hflip.compares.mpr (compares_compareMagnitude d f c e)

/-- Decimals are compared by their values. -/
theorem compares_of_compare? {a b : Decimal} {o : Ordering} (h : a.compare? b = some o) :
    o.Compares a.extended b.extended := by
  have htop : ∀ q : ℚ, ((q : WithTop ℚ) : WithBot (WithTop ℚ)) < ⊤ :=
    fun q => WithBot.coe_lt_coe.mpr (WithTop.coe_lt_top q)
  cases a with
  | nan => cases b <;> cases h
  | infinity n =>
    cases b with
    | nan => cases h
    | infinity m =>
      obtain rfl := Option.some.inj h
      cases n <;> cases m
      · exact rfl
      · exact bot_lt_top
      · exact bot_lt_top
      · exact rfl
    | finite m d f =>
      obtain rfl := Option.some.inj h
      cases n
      · exact htop _
      · exact WithBot.bot_lt_coe _
  | finite n c e =>
    cases b with
    | nan => cases h
    | infinity m =>
      obtain rfl := Option.some.inj h
      cases m
      · exact htop _
      · exact WithBot.bot_lt_coe _
    | finite m d f =>
      exact (WithBot.coe_strictMono.comp WithTop.coe_strictMono).compares.mpr (compares_toRat h)

end Decimal

lemma Binary64.isFinite_toDecimal (x : Binary64) : x.toDecimal.isFinite = x.isFinite := by
  cases x with
  | finite negative bits => cases h : exponent bits <;> simp [toDecimal, h, isFinite, Decimal.isFinite]
  | _ => rfl

namespace Number

def extended : Number → WithBot (WithTop ℚ)
  | int i => ((i : ℚ) : WithTop ℚ)
  | float x => x.toDecimal.extended
  | decimal d => d.extended

lemma extended_operand (n : Number) : n.operand.value.extended = n.extended := by
  cases n with
  | int i =>
    have hi : (Decimal.ofInt i).toRat = i := by
      obtain hi | hi := le_or_gt 0 i
      · simp [Decimal.ofInt, Decimal.toRat, not_lt.mpr hi, abs_of_nonneg hi]
      · simp [Decimal.ofInt, Decimal.toRat, hi, abs_of_neg hi]
    rw [operand, Operand.ofInt, extended, ← hi]
    rfl
  | _ => rfl

/-- Numbers are ordered by their values. -/
lemma compares_of_order? {a b : Number} {o : Ordering} (h : a.operand.order? b.operand = some o) :
    o.Compares a.extended b.extended := by
  rw [Operand.order?, divisor_operand, divisor_operand, Decimal.timesWhole_one,
    Decimal.timesWhole_one] at h
  rw [← extended_operand, ← extended_operand]
  exact Decimal.compares_of_compare? h

end Number

/-! ## Conditions -/

lemma CellValue.operand?_number (n : Number) :
    (CellValue.number n).toValue.operand? = some n.operand := by
  cases n <;> rfl

/-- A condition accepts the numbers that are related to its threshold. -/
theorem Condition.accepts_number (relation : Comparison) {threshold : Number}
    (ht : (CellValue.number threshold).toValue.IsThreshold) {n : Number} (hn : ¬ n.IsNan) :
    Condition.accepts ⟨relation.symbol, (CellValue.number threshold).toValue⟩
        (CellValue.number n).toValue =
      .ok (decide (relation.Relates n.extended threshold.extended)) := by
  obtain ⟨b, hb, hnumber⟩ := Value.exists_operand ht
  obtain rfl := Option.some.inj ((CellValue.operand?_number threshold).symm.trans hb)
  obtain ⟨o, ho⟩ := Operand.exists_order? (mt Number.isNan_operand.mp hn) hnumber
  have hrelates := Comparison.holds_iff_relates (Number.compares_of_order? ho) relation
  have hcompare := Value.compare_number ht hb ho relation
  rw [Bool.eq_iff_iff.mpr (hrelates.trans decide_eq_true_iff.symm)] at hcompare
  exact (accepts_eq_compare rfl n).trans hcompare

end FormatCode
