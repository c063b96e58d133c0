import FormatCode.Numeral
import Mathlib.Data.List.Basic
import Mathlib.Tactic.Ring

/-!
# Digits and what they are worth

The digits of a number are plain ones, from `0` to `9`, and are worth the number again. Strings of
plain digits are worth what positional notation says: the digits in front count for a power of ten
as large as there are digits behind them.

## Main definitions

* `Numeral.Plain` — strings of digits from `0` to `9`.

## Main statements

* `Numeral.value_append` — what two strings of digits are worth one after the other.
* `Numeral.value_digits` — the digits of a number are worth the number.
* `Numeral.ten_dvd_value_iff`, `Numeral.head?_digits_eq_zero_iff` — zeros at the end and in front.
* `Numeral.digitCount_mul_pow`, `Numeral.digits_mul_pow` — what factors of ten add to the digits.
-/

namespace FormatCode

namespace Unicode

lemma digitValue?_of_isDigit {c : Char} (h : c.isDigit) : digitValue? c = some (c.toNat - 48) := by
  have hrange : 48 ≤ c.toNat ∧ c.toNat ≤ 57 := by
    simpa [Char.isDigit, UInt32.le_iff_toNat_le] using h
  have hzeros : digitZeros = 0x0030 :: digitZeros.tail := rfl
  rw [digitValue?, hzeros, List.find?_cons_of_pos]
  · rfl
  · simp only [Bool.and_eq_true, decide_eq_true_eq]
    omega

lemma getD_digitValue?_lt (c : Char) : (digitValue? c).getD 0 < 10 := by
  cases h : digitValue? c with
  | none => decide
  | some d =>
    obtain ⟨first, hfirst, rfl⟩ := Option.map_eq_some_iff.mp h
    have hrange := List.find?_some hfirst
    simp only [Bool.and_eq_true, decide_eq_true_eq] at hrange
    rw [Option.getD_some]
    omega

lemma isDigit_of_isDigit {c : Char} (h : c.isDigit) : isDigit c := by
  rw [isDigit, digitValue?_of_isDigit h]
  rfl

end Unicode

namespace Numeral

def Plain (ds : List Char) : Prop := ∀ c ∈ ds, c.isDigit

@[simp] lemma plain_nil : Plain [] := nofun

@[simp] lemma plain_cons {c : Char} {ds : List Char} : Plain (c :: ds) ↔ c.isDigit ∧ Plain ds :=
  List.forall_mem_cons

@[simp] lemma plain_append {ds es : List Char} : Plain (ds ++ es) ↔ Plain ds ∧ Plain es :=
  List.forall_mem_append

lemma plain_replicate_zero (n : Nat) : Plain (List.replicate n '0') := by
  intro c hc
  rw [List.eq_of_mem_replicate hc]
  rfl

lemma Plain.take {ds : List Char} (h : Plain ds) (n : Nat) : Plain (ds.take n) :=
  fun c hc => h c (List.mem_of_mem_take hc)

lemma Plain.drop {ds : List Char} (h : Plain ds) (n : Nat) : Plain (ds.drop n) :=
  fun c hc => h c (List.mem_of_mem_drop hc)

/-- The digits of a number are plain ones. -/
theorem plain_digits (n : Nat) : Plain (digits n) :=
  fun _ hc => Nat.isDigit_of_mem_toDigits (by omega) (by omega) hc

@[simp] lemma value_nil : value [] = 0 := rfl

lemma value_eq_ofDigitChars {ds : List Char} (h : Plain ds) :
    value ds = Nat.ofDigitChars 10 ds 0 := by
  have hfold : ∀ n, ds.foldl (fun n c => 10 * n + (Unicode.digitValue? c).getD 0) n =
      Nat.ofDigitChars 10 ds n := by
    induction ds with
    | nil => exact fun n => rfl
    | cons c ds ih =>
      intro n
      rw [plain_cons] at h
      rw [List.foldl_cons, Unicode.digitValue?_of_isDigit h.1, ih h.2, Nat.ofDigitChars_cons]
      rfl
  exact hfold 0

/-- What two strings of digits are worth one after the other. -/
theorem value_append {ds es : List Char} (hds : Plain ds) (hes : Plain es) :
    value (ds ++ es) = value ds * 10 ^ es.length + value es := by
  rw [value_eq_ofDigitChars (plain_append.mpr ⟨hds, hes⟩), value_eq_ofDigitChars hds,
    value_eq_ofDigitChars hes, Nat.ofDigitChars_append, Nat.ofDigitChars_eq_ofDigitChars_zero,
    Nat.mul_comm]

/-- The digits of a number are worth the number. -/
@[simp] theorem value_digits (n : Nat) : value (digits n) = n := by
  rw [value_eq_ofDigitChars (plain_digits n), digits, Nat.ofDigitChars_ten_toDigits]

@[simp] lemma value_replicate_zero (n : Nat) : value (List.replicate n '0') = 0 := by
  rw [value_eq_ofDigitChars (plain_replicate_zero n), Nat.ofDigitChars_replicate_zero, Nat.mul_zero]

lemma value_singleton {c : Char} (h : c.isDigit) : value [c] = c.toNat - 48 := by
  simp [value, Unicode.digitValue?_of_isDigit h]

lemma value_singleton_lt {c : Char} (h : c.isDigit) : value [c] < 10 := by
  have hrange : 48 ≤ c.toNat ∧ c.toNat ≤ 57 := by
    simpa [Char.isDigit, UInt32.le_iff_toNat_le] using h
  rw [value_singleton h]
  omega

/-- Digits of any script are worth less than a power of ten for each of them. -/
lemma value_lt (ds : List Char) : value ds < 10 ^ ds.length := by
  have hfold : ∀ n, ds.foldl (fun n c => 10 * n + (Unicode.digitValue? c).getD 0) n <
      (n + 1) * 10 ^ ds.length := by
    induction ds with
    | nil => simp
    | cons c ds ih =>
      intro n
      have hc := Unicode.getD_digitValue?_lt c
      calc (c :: ds).foldl (fun n c => 10 * n + (Unicode.digitValue? c).getD 0) n
        _ < (10 * n + (Unicode.digitValue? c).getD 0 + 1) * 10 ^ ds.length := ih _
        _ ≤ (n + 1) * 10 * 10 ^ ds.length := Nat.mul_le_mul_right _ (by omega)
        _ = (n + 1) * 10 ^ (c :: ds).length := by
          rw [List.length_cons, Nat.pow_succ', Nat.mul_assoc]
  simpa [value] using hfold 0

/-- Digits are worth a multiple of ten if the last of them is a zero. -/
theorem ten_dvd_value_iff {ds : List Char} (h : Plain ds) (hne : ds ≠ []) :
    10 ∣ value ds ↔ ds.getLast? = some '0' := by
  obtain ⟨init, d, rfl⟩ := (List.eq_nil_or_concat' ds).resolve_left hne
  obtain ⟨hinit, hd⟩ := plain_append.mp h
  have hdigit : d.isDigit := hd d (List.mem_singleton_self d)
  have hzero : value [d] = 0 ↔ d = '0' := by
    have hrange : 48 ≤ d.toNat ∧ d.toNat ≤ 57 := by
      simpa [Char.isDigit, UInt32.le_iff_toNat_le] using hdigit
    rw [value_singleton hdigit]
    constructor
    · intro hd
      exact Char.ext (UInt32.toNat_inj.mp (show d.toNat = 48 by omega))
    · rintro rfl
      rfl
  have hlt := value_singleton_lt hdigit
  rw [List.getLast?_concat, Option.some.injEq, ← hzero, value_append hinit hd,
    List.length_singleton]
  omega

/-! ## How many digits there are -/

lemma digitCount_pos (n : Nat) : 0 < digitCount n := List.length_pos_iff.mpr (digits_ne_nil n)

lemma digitCount_le_iff {n k : Nat} (hk : 0 < k) : digitCount n ≤ k ↔ n < 10 ^ k :=
  Nat.length_toDigits_le_iff (by omega) hk

lemma lt_pow_digitCount (n : Nat) : n < 10 ^ digitCount n :=
  (digitCount_le_iff (digitCount_pos n)).mp le_rfl

/-- The number of digits goes up by one with each factor of ten. -/
theorem digitCount_mul_pow {n : Nat} (hn : n ≠ 0) (k : Nat) :
    digitCount (n * 10 ^ k) = digitCount n + k := by
  have hpow : 0 < 10 ^ k := Nat.pow_pos (by omega)
  apply le_antisymm
  · rw [digitCount_le_iff (by have := digitCount_pos n; omega), Nat.pow_add]
    exact Nat.mul_lt_mul_of_pos_right (lt_pow_digitCount n) hpow
  · by_contra hlt
    have hle : digitCount (n * 10 ^ k) ≤ digitCount n + k - 1 := by omega
    obtain hmore | hone := Nat.lt_or_ge 1 (digitCount n)
    · rw [digitCount_le_iff (by omega)] at hle
      have hsplit : digitCount n + k - 1 = digitCount n - 1 + k := by omega
      rw [hsplit, Nat.pow_add] at hle
      have hn' := Nat.lt_of_mul_lt_mul_right hle
      rw [← digitCount_le_iff (by omega)] at hn'
      omega
    · obtain rfl | hk := Nat.eq_zero_or_pos k
      · simp at hlt
      · have hlength : digitCount n + k - 1 = k := by have := digitCount_pos n; omega
        rw [hlength, digitCount_le_iff hk] at hle
        have : 10 ^ k ≤ n * 10 ^ k := Nat.le_mul_of_pos_left _ (by omega)
        omega

/-- Each factor of ten is written as a zero at the end. -/
theorem digits_mul_pow {n : Nat} (hn : n ≠ 0) (k : Nat) :
    digits (n * 10 ^ k) = digits n ++ List.replicate k '0' := by
  induction k with
  | zero => rw [Nat.pow_zero, Nat.mul_one, List.replicate_zero, List.append_nil]
  | succ k ih =>
    have hpos : 0 < n * 10 ^ k := Nat.mul_pos (Nat.pos_of_ne_zero hn) (Nat.pow_pos (by omega))
    have hstep : digits (n * 10 ^ k) ++ ['0'] = digits (10 * (n * 10 ^ k) + 0) :=
      Nat.toDigits_append_toDigits (by decide : 1 < 10) hpos (by decide : 0 < 10)
    have hten : n * 10 ^ (k + 1) = 10 * (n * 10 ^ k) + 0 := by ring
    rw [hten, ← hstep, ih, List.append_assoc, List.replicate_succ']

/-- Only zero is written with a zero in front. -/
theorem head?_digits_eq_zero_iff {n : Nat} : (digits n).head? = some '0' ↔ n = 0 := by
  constructor
  · intro hhead
    obtain ⟨rest, hrest⟩ := List.head?_eq_some_iff.mp hhead
    have hplain := plain_digits n
    rw [hrest, ← List.singleton_append, plain_append] at hplain
    have hvalue : n = value rest := by
      conv_lhs => rw [← value_digits n, hrest, ← List.singleton_append,
        value_append hplain.1 hplain.2]
      simp [value_singleton]
    have hcount : digitCount n = rest.length + 1 := by rw [digitCount, hrest, List.length_cons]
    have hlt := value_lt rest
    rw [← hvalue] at hlt
    obtain hnone | hmore := Nat.eq_zero_or_pos rest.length
    · rw [hnone] at hlt
      omega
    · rw [← digitCount_le_iff hmore, hcount] at hlt
      omega
  · rintro rfl
    rfl

end Numeral

end FormatCode
