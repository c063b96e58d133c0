import FormatCode.Proofs.Binary64.Nearest
import FormatCode.Proofs.Format.Joined
import FormatCode.Proofs.Format.Marks
import FormatCode.Proofs.Format.Verdict
import FormatCode.Proofs.Number.Exact
import FormatCode.Proofs.Outcome

/-!
# What can go wrong when a value is shown

Text, integers and binary numbers always find out which section applies to them, if any. What can go
wrong is left to the section: an integer may have too many digits after it is multiplied as the
percent signs ask for, and a finite binary number cannot be multiplied by a power of a hundred that
is no binary number. Neither the layout nor the text without a section adds a fault of its own.

## Main definitions

* `Verdict.percents` — how often a number is multiplied by a hundred.

## Main statements

* `Section.showNumber_float_eq_error_iff`, `Section.showNumber_int_eq_error_iff` — the faults of a
  section.
* `render_eq_error_iff` — the faults of a format.
-/

namespace FormatCode

/-! ## What becomes of a value -/

def Verdict.percents : Verdict → Nat
  | applies s => s.percentCount
  | unmatched | rejected _ => 0

/-! ## What becomes of a number -/

namespace Binary64

/-- The powers of a hundred are binary numbers up to the 154th. -/
lemma limit_le_hundred_pow_iff (p : Nat) : limit ≤ 100 ^ p ↔ 155 ≤ p := by
  obtain ⟨unit, hunit⟩ : ∃ unit : Nat, unit = 2 ^ 970 := ⟨_, rfl⟩
  have hpast : (2 ^ 54 - 1) * unit ≤ 100 ^ 155 := by
    rw [hunit]
    decide +kernel
  have hbelow : 100 ^ 154 < (2 ^ 54 - 1) * unit := by
    rw [hunit]
    decide +kernel
  have hlimit : limit = ((2 ^ 54 - 1) * unit : Nat) := by
    have hdouble : (2 : ℚ) ^ (971 : Int) = 2 * unit := by
      rw [hunit, Nat.cast_pow, Nat.cast_two, ← pow_succ']
      rfl
    rw [limit, hdouble]
    push_cast
    ring
  rw [hlimit]
  constructor
  · intro hle
    by_contra hp
    have hpow : 100 ^ p ≤ 100 ^ 154 := Nat.pow_le_pow_right (by decide) (by omega)
    exact absurd (by exact_mod_cast hle) (not_le.mpr (hpow.trans_lt hbelow))
  · intro hp
    exact_mod_cast hpast.trans (Nat.pow_le_pow_right (by decide) hp)

end Binary64

namespace Number

/-- A binary number is multiplied unless the power of a hundred is none. -/
lemma scaleByPercent_float_eq_error_iff {x : Binary64} {p : Nat} {e : Fault} :
    (float x).scaleByPercent p = .error e ↔ e = .wholeTooLarge ∧ 155 ≤ p := by
  rw [scaleByPercent, Except.map_eq_error_iff, Binary64.ofInt_eq_error_iff,
    ← Binary64.limit_le_hundred_pow_iff]
  simp

/-- What becomes of a binary number is one again, and is written out. -/
lemma exists_positional_of_scaleByPercent {x : Binary64} {p : Nat} {m : Number}
    (h : (float x).scaleByPercent p = .ok m) : ∃ written, m.positional = .ok written := by
  rw [scaleByPercent] at h
  cases hfactor : Binary64.ofInt (100 ^ p : Nat) with
  | error e =>
    rw [hfactor] at h
    cases h
  | ok factor =>
    rw [hfactor] at h
    obtain rfl := Except.ok.inj h
    exact ⟨_, rfl⟩

end Number

namespace Section

variable {s : Section} {e : Fault}

/-- A section with 155 percent signs or more cannot multiply a finite binary number. -/
theorem showNumber_float_eq_error_iff {x : Binary64} :
    s.showNumber (.float x) = .error e ↔
      e = .wholeTooLarge ∧ x.isFinite ∧ 155 ≤ s.percentCount := by
  by_cases hx : x.isFinite
  · have hnegative := Number.compareZero_less (n := .float x) hx
    rw [showNumber_of_isFinite (n := .float x) hx hnegative, Except.map_eq_error_iff]
    by_cases hp : s.percentCount = 0
    · simp [scaled, Number.magnitude, Number.positional, hp, bind, Except.bind, pure, Except.pure]
    · have hscaled : s.scaled (.float x) = (Number.float x.abs).scaleByPercent s.percentCount := by
        simp [scaled, Number.magnitude, hp, bind, Except.bind]
      rw [hscaled]
      cases h : (Number.float x.abs).scaleByPercent s.percentCount with
      | error e' =>
        obtain ⟨rfl, hp⟩ := Number.scaleByPercent_float_eq_error_iff.mp h
        simp [Except.bind, hx, hp, eq_comm]
      | ok m =>
        obtain ⟨written, hwritten⟩ := Number.exists_positional_of_scaleByPercent h
        have hfew : ¬ 155 ≤ s.percentCount := by
          intro hp
          rw [Number.scaleByPercent_float_eq_error_iff.mpr ⟨rfl, hp⟩] at h
          cases h
        simp [Except.bind, hwritten, hfew]
  · rw [showNumber, if_neg (by exact hx)]
    simp [Number.text, hx]

/-- A section cannot write an integer that has too many digits after it is multiplied. -/
theorem showNumber_int_eq_error_iff {i : Int} :
    s.showNumber (.int i) = .error e ↔ e = .tooLongToWrite ∧
      Numeral.maxDigits < Numeral.digitCount (i.natAbs * 100 ^ s.percentCount) := by
  have hnegative := Number.compareZero_less (n := .int i) rfl
  rw [showNumber_of_isFinite rfl hnegative, Except.map_eq_error_iff, scaled_int, Except.bind,
    Number.positional_natCast]
  split
  · next hshort => simp [not_lt.mpr hshort]
  · next hlong => simp [not_le.mp hlong, eq_comm]

end Section

namespace Number

/-- Without a section every binary number can be shown. -/
lemma exists_plainText_float (x : Binary64) : ∃ text, (float x).plainText = .ok text := by
  by_cases hx : x.isFinite
  · rw [plainText_of_isFinite (n := .float x) hx]
    exact ⟨_, rfl⟩
  · rw [plainText, if_neg (by exact hx)]
    exact ⟨_, rfl⟩

/-- Without a section an integer can be shown unless it has too many digits. -/
lemma plainText_int_eq_error_iff {i : Int} {e : Fault} :
    (int i).plainText = .error e ↔
      e = .tooLongToWrite ∧ Numeral.maxDigits < Numeral.digitCount i.natAbs := by
  rw [plainText_of_isFinite rfl, Except.map_eq_error_iff, magnitude, Except.bind,
    positional_natCast]
  split
  · next hshort => simp [not_lt.mpr hshort]
  · next hlong => simp [not_le.mp hlong, eq_comm]

end Number

/-! ## What can go wrong -/

namespace Verdict

variable {verdict : Verdict} {e : Fault}

lemma exists_render_text (verdict : Verdict) (s : String) :
    ∃ r, verdict.render (.text s) = .ok r := by
  cases verdict <;> exact ⟨_, rfl⟩

lemma render_float_eq_error_iff {x : Binary64} :
    verdict.render (.number (.float x)) = .error e ↔
      e = .wholeTooLarge ∧ x.isFinite ∧ ∃ s, verdict = .applies s ∧ 155 ≤ s.percentCount := by
  have hplain : ¬ (CellValue.number (.float x)).plainText = .error e := by
    obtain ⟨text, htext⟩ := Number.exists_plainText_float x
    rw [CellValue.plainText, htext]
    exact nofun
  cases verdict with
  | applies s =>
    rw [render, Except.map_eq_error_iff, Section.showCell, Section.showNumber_float_eq_error_iff]
    simp
  | _ =>
    rw [render, Except.map_eq_error_iff]
    simp [hplain]

lemma render_int_eq_error_iff {i : Int} :
    verdict.render (.number (.int i)) = .error e ↔ e = .tooLongToWrite ∧
      Numeral.maxDigits < Numeral.digitCount (i.natAbs * 100 ^ verdict.percents) := by
  cases verdict with
  | applies s =>
    rw [render, Except.map_eq_error_iff, Section.showCell, Section.showNumber_int_eq_error_iff]
    rfl
  | _ =>
    rw [render, Except.map_eq_error_iff, CellValue.plainText, Number.plainText_int_eq_error_iff,
      percents, pow_zero, mul_one]

end Verdict

/-- Whatever the format, text is shown. A binary number is a fault if it is finite and the section
that applies to it has 155 percent signs or more, and an integer is one if it has too many digits
after it is multiplied as the section that applies to it asks for, if one does. -/
theorem render_eq_error_iff {format : String} {f : Format}
    (hparse : Format.parse format = .ok f) :
    (∀ s, ∃ r, render (.text s) (.text format) = .ok r) ∧
    (∀ x e, render (.float x) (.text format) = .error e ↔
      e = .wholeTooLarge ∧ x.isFinite ∧
        ∃ s, f.verdict (.number (.float x)) = .ok (.applies s) ∧ 155 ≤ s.percentCount) ∧
    ∀ i e, render (.int i) (.text format) = .error e ↔
      e = .tooLongToWrite ∧ ∃ verdict, f.verdict (.number (.int i)) = .ok verdict ∧
        Numeral.maxDigits < Numeral.digitCount (i.natAbs * 100 ^ verdict.percents) := by
  have hcomparable := Format.isComparable_of_parse hparse
  have hrender : ∀ v : CellValue, ¬ v.IsDecimalNan → ∃ verdict, f.verdict v = .ok verdict ∧
      render v.toValue (.text format) = verdict.render v := by
    intro v hv
    obtain ⟨verdict, hverdict⟩ := Format.exists_verdict hcomparable hv
    refine ⟨verdict, hverdict, ?_⟩
    rw [render_of_parse hparse, Format.renderCell_of_verdict hverdict]
  refine ⟨fun s => ?_, fun x e => ?_, fun i e => ?_⟩
  · obtain ⟨verdict, -, hshown⟩ := hrender (.text s) id
    obtain ⟨r, hr⟩ := verdict.exists_render_text s
    exact ⟨r, hshown.trans hr⟩
  · obtain ⟨verdict, hverdict, hshown⟩ := hrender (.number (.float x)) id
    rw [CellValue.toValue] at hshown
    rw [hshown, Verdict.render_float_eq_error_iff, hverdict]
    simp
  · obtain ⟨verdict, hverdict, hshown⟩ := hrender (.number (.int i)) id
    rw [CellValue.toValue] at hshown
    rw [hshown, Verdict.render_int_eq_error_iff, hverdict]
    simp

/-- A half cannot be multiplied for 155 percent signs, though an integer can. -/
theorem render_eq_error_iff_percents :
    render (.float (.ofRatio false 1 2)) (.text (String.ofList ('0' :: List.replicate 155 '%'))) =
        .error .wholeTooLarge ∧
      ∀ e, render (.int 2) (.text (String.ofList ('0' :: List.replicate 155 '%'))) ≠ .error e := by
  have hmarks : ∀ c ∈ '0' :: List.replicate 155 '%', c ∈ patternMarks := by
    intro c hc
    obtain rfl | hc := List.mem_cons.mp hc
    · decide
    · rw [List.eq_of_mem_replicate hc]
      decide
  have hparse := Format.parse_marks hmarks ⟨'0', List.mem_cons_self .., by decide⟩
  obtain ⟨hcondition, -, hpercents⟩ := Section.ofMarks_spec hmarks
  have hverdict := Format.verdict_singleton hcondition
  have hcount : ('0' :: List.replicate 155 '%').count '%' = 155 :=
    (List.count_cons_of_ne (by decide)).trans List.count_replicate_self
  rw [hcount] at hpercents
  obtain ⟨-, hfloat, hint⟩ := render_eq_error_iff hparse
  refine ⟨(hfloat _ _).mpr ⟨rfl, by decide +kernel, _, hverdict _, hpercents.ge⟩, fun e he => ?_⟩
  obtain ⟨-, verdict, hint, hlong⟩ := (hint 2 e).mp he
  obtain rfl := Except.ok.inj ((hverdict _).symm.trans hint)
  rw [Verdict.percents, hpercents] at hlong
  exact absurd hlong (by decide +kernel)

end FormatCode
