import FormatCode.Format.Selection
import FormatCode.Proofs.Binary64.Magnitude
import Mathlib.Algebra.Order.Ring.Int

/-!
# Comparing numbers that are numbers

Two numbers of which neither is a NaN have an order, whatever their representations, so a comparison
of them is never a fault. The order to zero is the sign. A NaN that is no decimal is unequal to all
numbers and neither below nor above them, which is no fault either.

## Main definitions

* `Number.IsNan` — whether a number is not a number.
* `Number.IsDecimalNan` — the NaNs of which an order is a fault.
* `Number.sign` — the order to zero.
* `Condition.IsComparable` — whether a condition can be read: one of the six operators, and a
  threshold that is a number.
* `Condition.IsNumeric` — the same of a condition made by hand, whose threshold may be a NaN.

## Main statements

* `Number.compareZero_eq` — a number is compared with zero by its sign.
* `Number.compareZero_strict` — so is a NaN that is no decimal, for what is below or above zero.
* `Condition.exists_accepts` — a condition that can be read decides on every number.
* `Condition.IsNumeric.exists_accepts` — so does one with a NaN, on numbers that are no decimals.
-/

namespace FormatCode

/-! ## The sign -/

namespace Decimal

def IsNan : Decimal → Prop
  | nan .. => True
  | _ => False

def sign : Decimal → Ordering
  | finite negative coefficient _ =>
    if coefficient = 0 then .eq else if negative then .lt else .gt
  | infinity negative => if negative then .lt else .gt
  | nan .. => .eq

@[simp] lemma timesWhole_one (d : Decimal) : d.timesWhole 1 = d := by
  cases d <;> simp [timesWhole]

lemma isNan_timesWhole {d : Decimal} (m : Nat) : (d.timesWhole m).IsNan ↔ d.IsNan := by
  cases d <;> rfl

/-- Two decimals have an order unless one of them is a NaN. -/
lemma exists_compare? {a b : Decimal} (ha : ¬ a.IsNan) (hb : ¬ b.IsNan) :
    ∃ o, a.compare? b = some o := by
  cases a with
  | nan => exact absurd trivial ha
  | _ =>
    cases b with
    | nan => exact absurd trivial hb
    | _ => exact ⟨_, rfl⟩

lemma compare?_zero {d : Decimal} (h : ¬ d.IsNan) (e : Int) :
    d.compare? (.finite false 0 e) = some d.sign := by
  cases d with
  | nan => exact absurd trivial h
  | infinity negative => rfl
  | finite negative c f =>
    obtain rfl | hc := Nat.eq_zero_or_pos c
    · simp [compare?, sign, compareMagnitude]
    · have hgt : compare c 0 = .gt := compare_gt_iff_gt.mpr hc
      have hne : (c != 0) = true := bne_iff_ne.mpr hc.ne'
      cases negative <;> simp [compare?, sign, compareMagnitude, hc.ne', hgt, hne]

end Decimal

namespace Binary64

def IsNan (x : Binary64) : Prop := x = nan

lemma isNan_toDecimal {x : Binary64} : x.toDecimal.IsNan ↔ x.IsNan := by
  cases x with
  | finite n bits => cases h : exponent bits <;> simp [toDecimal, h, Decimal.IsNan, IsNan]
  | _ => simp [toDecimal, Decimal.IsNan, IsNan]

/-- A numeral that is read is never a NaN. -/
lemma not_isNan_ofDecimal (negative : Bool) (c : Nat) (e : Int) :
    ¬ (ofDecimal negative c e).IsNan := by
  unfold ofDecimal ofRatio ofBits zero IsNan
  dsimp only
  split_ifs <;> exact nofun

end Binary64

namespace Number

def IsNan : Number → Prop
  | int _ => False
  | float x => x.IsNan
  | decimal d => d.IsNan

def IsDecimalNan : Number → Prop
  | decimal d => d.IsNan
  | _ => False

lemma IsDecimalNan.isNan {n : Number} (h : n.IsDecimalNan) : n.IsNan := by
  cases n with
  | decimal d => exact h
  | _ => exact h.elim

/-- The only NaN that is no decimal is a binary number. -/
lemma IsNan.eq_nan {n : Number} (h : n.IsNan) (hn : ¬ n.IsDecimalNan) : n = .float .nan := by
  cases n with
  | int i => exact h.elim
  | float x => exact congrArg _ h
  | decimal d => exact absurd h hn

lemma not_isNan_of_isFinite {n : Number} (h : n.isFinite) : ¬ n.IsNan := by
  cases n with
  | int i => exact id
  | float x =>
    cases x with
    | nan => cases h
    | _ => exact nofun
  | decimal d =>
    cases d with
    | nan => cases h
    | _ => exact id

def sign : Number → Ordering
  | int i => compare i 0
  | float (.finite negative bits) =>
    if bits.val = 0 then .eq else if negative then .lt else .gt
  | float (.infinity negative) => if negative then .lt else .gt
  | float .nan => .eq
  | decimal d => d.sign

lemma isNan_operand {n : Number} : n.operand.value.IsNan ↔ n.IsNan := by
  cases n with
  | float x => exact Binary64.isNan_toDecimal
  | _ => rfl

lemma divisor_operand (n : Number) : n.operand.divisor = 1 := by
  cases n <;> rfl

lemma sign_operand (n : Number) : n.operand.value.sign = n.sign := by
  cases n with
  | int i =>
    obtain hi | rfl | hi := lt_trichotomy i 0
    · have hlt : compare i 0 = .lt := compare_lt_iff_lt.mpr hi
      simp [operand, Operand.ofInt, Decimal.ofInt, Decimal.sign, sign, hi, hi.ne, hlt]
    · rfl
    · have hgt : compare i 0 = .gt := compare_gt_iff_gt.mpr hi
      simp [operand, Operand.ofInt, Decimal.ofInt, Decimal.sign, sign, hi.ne', hi.le, hgt]
  | float x =>
    cases x with
    | finite negative bits =>
      have hzero : Binary64.significand bits = 0 ↔ bits.val = 0 := Binary64.significand_eq_zero_iff
      cases h : Binary64.exponent bits <;>
        simp [operand, Operand.ofFloat, Binary64.toDecimal, h, Decimal.sign, sign, hzero]
    | _ => rfl
  | decimal d => rfl

lemma order?_zero {n : Number} (h : ¬ n.IsNan) :
    n.operand.order? (int 0).operand = some n.sign := by
  have hzero : (int 0).operand.value.timesWhole n.operand.divisor = .finite false 0 0 := by
    rw [divisor_operand]
    rfl
  rw [← sign_operand, Operand.order?, hzero, divisor_operand, Decimal.timesWhole_one]
  exact Decimal.compare?_zero (mt isNan_operand.mp h) 0

/-- A number is compared with zero by its sign. -/
theorem compareZero_eq {n : Number} (h : ¬ n.IsNan) (c : Comparison) :
    n.compareZero c = .ok (c.holds n.sign) := by
  have horder : n.operand.order? (.ofInt 0) = some n.sign := order?_zero h
  rw [compareZero, Operand.compare, horder]

/-- A number is below or above zero by its sign, and a NaN that is no decimal is neither. -/
theorem compareZero_strict {n : Number} (h : ¬ n.IsDecimalNan) {c : Comparison}
    (hc : c = .less ∨ c = .greater) : n.compareZero c = .ok (c.holds n.sign) := by
  by_cases hnan : n.IsNan
  · rw [hnan.eq_nan h]
    obtain rfl | rfl := hc <;> rfl
  · exact compareZero_eq hnan c

end Number

/-! ## Conditions -/

/-- Two operands have an order unless one of them is a NaN. -/
lemma Operand.exists_order? {a b : Operand} (ha : ¬ a.value.IsNan) (hb : ¬ b.value.IsNan) :
    ∃ o, a.order? b = some o :=
  Decimal.exists_compare? (mt (Decimal.isNan_timesWhole b.divisor).mp ha)
    (mt (Decimal.isNan_timesWhole a.divisor).mp hb)

def Value.IsThreshold : Value → Prop
  | .int _ => True
  | .float x => ¬ x.IsNan
  | _ => False

/-- Whether a threshold is an integer or a binary number, which may be a NaN. -/
def Value.IsReal : Value → Prop
  | .int _ | .float _ => True
  | _ => False

lemma Value.IsThreshold.isReal {v : Value} (h : v.IsThreshold) : v.IsReal := by
  cases v with
  | int i => trivial
  | float x => trivial
  | _ => exact h.elim

/-- Whether a condition can be read: its operator is one of the six, and its threshold a number. -/
def Condition.IsComparable (c : Condition) : Prop :=
  (∃ relation : Comparison, c.operator = relation.symbol) ∧ c.threshold.IsThreshold

/-- Whether a condition compares with an integer or a binary number, which may be a NaN, by one of
the six operators. -/
def Condition.IsNumeric (c : Condition) : Prop :=
  (∃ relation : Comparison, c.operator = relation.symbol) ∧ c.threshold.IsReal

lemma Value.exists_operand {v : Value} (h : v.IsThreshold) :
    ∃ b, v.operand? = some b ∧ ¬ b.value.IsNan := by
  cases v with
  | int i => exact ⟨_, rfl, id⟩
  | float x => exact ⟨_, rfl, mt Binary64.isNan_toDecimal.mp h⟩
  | _ => exact h.elim

lemma Value.equal_number {v : Value} (hv : v.IsReal) {b : Operand} (hb : v.operand? = some b)
    (n : Number) : (CellValue.number n).toValue.equal v = n.operand.compare .equal b := by
  cases v with
  | int i => cases n <;> (obtain rfl := Option.some.inj hb; rfl)
  | float x => cases n <;> (obtain rfl := Option.some.inj hb; rfl)
  | _ => exact hv.elim

lemma Value.ordered_number {v : Value} (hv : v.IsReal) {b : Operand} (hb : v.operand? = some b)
    (n : Number) (c : Comparison) :
    (CellValue.number n).toValue.ordered c v = n.operand.compare c b := by
  cases v with
  | int i => cases n <;> (obtain rfl := Option.some.inj hb; rfl)
  | float x => cases n <;> (obtain rfl := Option.some.inj hb; rfl)
  | _ => exact hv.elim

/-- A number and a threshold are compared by their order. -/
theorem Value.compare_number {v : Value} (hv : v.IsThreshold) {b : Operand}
    (hb : v.operand? = some b) {n : Number} {o : Ordering} (ho : n.operand.order? b = some o)
    (c : Comparison) : (CellValue.number n).toValue.compare c v = .ok (c.holds o) := by
  cases c with
  | equal => rw [compare, equal_number hv.isReal hb, Operand.compare, ho]
  | unequal =>
    rw [compare, equal_number hv.isReal hb, Operand.compare, ho]
    rfl
  | _ => rw [compare, ordered_number hv.isReal hb, Operand.compare, ho] <;> exact nofun

/-- Without decimals a comparison is never a fault: with a NaN it is false, or true for what is
unequal. -/
lemma Operand.exists_compare {a b : Operand} (ha : a.isDecimal = false) (hb : b.isDecimal = false)
    (c : Comparison) : ∃ holds, a.compare c b = .ok holds := by
  unfold compare
  split
  · exact ⟨_, rfl⟩
  · rw [ha, hb]
    exact ⟨_, rfl⟩

/-- An integer or a binary number is compared with a threshold without a fault, even with a NaN. -/
lemma Value.exists_compare {v : Value} (hv : v.IsReal) {n : Number}
    (hn : n.operand.isDecimal = false) (c : Comparison) :
    ∃ holds, (CellValue.number n).toValue.compare c v = .ok holds := by
  obtain ⟨b, hb, hdecimal⟩ : ∃ b, v.operand? = some b ∧ b.isDecimal = false := by
    cases v with
    | int i => exact ⟨_, rfl, rfl⟩
    | float x => exact ⟨_, rfl, rfl⟩
    | _ => exact hv.elim
  cases c with
  | equal =>
    rw [compare, equal_number hv hb]
    exact Operand.exists_compare hn hdecimal .equal
  | unequal =>
    obtain ⟨equal, hequal⟩ := Operand.exists_compare hn hdecimal .equal
    rw [compare, equal_number hv hb, hequal]
    exact ⟨!equal, rfl⟩
  | _ =>
    change ∃ holds, ordered _ _ _ = .ok holds
    rw [ordered_number hv hb]
    exact Operand.exists_compare hn hdecimal _

/-- A NaN that is no decimal is unequal to every threshold, and nothing else. -/
lemma Value.compare_nan {v : Value} (hv : v.IsThreshold) (c : Comparison) :
    (Value.float .nan).compare c v = .ok (c == .unequal) := by
  cases v with
  | int i => cases c <;> rfl
  | float x => cases c <;> rfl
  | _ => exact hv.elim

/-- A condition with one of the six operators compares. -/
lemma Condition.accepts_eq_compare {c : Condition} {relation : Comparison}
    (h : c.operator = relation.symbol) (n : Number) :
    c.accepts (CellValue.number n).toValue =
      (CellValue.number n).toValue.compare relation c.threshold := by
  cases n <;> simp [accepts, CellValue.toValue, h]

/-- A condition that can be read decides on every number but a decimal NaN. -/
theorem Condition.exists_accepts {c : Condition} (hc : c.IsComparable) {n : Number}
    (hn : ¬ n.IsDecimalNan) :
    ∃ accepted, c.accepts (CellValue.number n).toValue = .ok accepted := by
  obtain ⟨⟨relation, hrelation⟩, hthreshold⟩ := hc
  rw [accepts_eq_compare hrelation]
  by_cases hnan : n.IsNan
  · rw [hnan.eq_nan hn]
    exact ⟨_, Value.compare_nan hthreshold relation⟩
  · obtain ⟨b, hb, hnumber⟩ := Value.exists_operand hthreshold
    obtain ⟨o, ho⟩ := Operand.exists_order? (mt Number.isNan_operand.mp hnan) hnumber
    exact ⟨_, Value.compare_number hthreshold hb ho relation⟩

/-- A condition whose threshold may be a NaN decides on every integer and binary number. -/
theorem Condition.IsNumeric.exists_accepts {c : Condition} (hc : c.IsNumeric) {n : Number}
    (hn : n.operand.isDecimal = false) :
    ∃ accepted, c.accepts (CellValue.number n).toValue = .ok accepted := by
  obtain ⟨⟨relation, hrelation⟩, hthreshold⟩ := hc
  rw [accepts_eq_compare hrelation]
  exact Value.exists_compare hthreshold hn relation

end FormatCode
