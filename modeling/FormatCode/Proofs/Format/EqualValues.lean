import FormatCode.Proofs.Format.Faults
import FormatCode.Proofs.Number.Order

/-!
# Numbers of the same value

A format decides on a number by its order to zero and to the thresholds of conditions, which is the
order of their values. What a section shows of a number that is written out exactly are the digits
of the canonical decimal of its value. So it does not matter which of the ways to write a value is
handed over: an integer or a decimal, with which exponent, with which zeros at the end, and with
which sign for zero.

## Main statements

* `Format.verdict_congr` — a format decides alike on numbers of the same value.
* `Section.exists_written` — numbers of the same value are written out alike for a section.
* `render_eq_of_toRat_eq` — numbers of the same value are shown alike.
-/

namespace FormatCode

variable {m n : Number}

/-! ## Deciding on a value -/

namespace Number

lemma extended_of_isFinite (h : n.isFinite) : n.extended = ((n.toRat : ℚ) : WithTop ℚ) := by
  cases n with
  | int i => rfl
  | float x => exact Decimal.extended_of_isFinite ((Binary64.isFinite_toDecimal x).trans h)
  | decimal d => exact Decimal.extended_of_isFinite h

/-- The sign is the order of the value to zero. -/
lemma compares_sign (h : ¬ n.IsNan) : n.sign.Compares n.extended (int 0).extended :=
  compares_of_order? (order?_zero h)

end Number

/-- A section accepts numbers of the same value alike. -/
lemma Section.accepts_congr {s : Section} (hs : s.IsComparable) (hm : ¬ m.IsNan) (hn : ¬ n.IsNan)
    (h : m.extended = n.extended) : s.accepts (.number m) = s.accepts (.number n) := by
  cases hc : s.condition with
  | none => simp only [accepts, claims, hc]
  | some c =>
    obtain ⟨⟨relation, hrelation⟩, hthreshold⟩ := hs c hc
    obtain ⟨operator, threshold⟩ := c
    obtain rfl : operator = relation.symbol := hrelation
    obtain ⟨t, rfl⟩ : ∃ t, threshold = (CellValue.number t).toValue := by
      cases threshold with
      | int i => exact ⟨.int i, rfl⟩
      | float x => exact ⟨.float x, rfl⟩
      | _ => exact hthreshold.elim
    simp only [accepts, claims, hc, Condition.accepts_number relation hthreshold hm,
      Condition.accepts_number relation hthreshold hn, h]

namespace Format

variable {f : Format}

/-- A format selects one section for numbers of the same value. -/
lemma select_eq_of_extended_eq (hs : ∀ s ∈ f.sections, s.IsComparable) (hm : ¬ m.IsNan)
    (hn : ¬ n.IsNan) (h : m.extended = n.extended) :
    f.select (.number m) = f.select (.number n) := by
  have hsign : m.sign = n.sign := by
    have hcompares := Number.compares_sign hm
    rw [h] at hcompares
    exact hcompares.inj (Number.compares_sign hn)
  exact select_congr hs (mt Number.IsDecimalNan.isNan hm) (mt Number.IsDecimalNan.isNan hn)
    (fun s hs' => Section.accepts_congr (hs s hs') hm hn h) hsign

/-- A format decides alike on numbers of the same value. -/
theorem verdict_congr (hs : ∀ s ∈ f.sections, s.IsComparable) (hm : ¬ m.IsNan) (hn : ¬ n.IsNan)
    (h : m.extended = n.extended) : f.verdict (.number m) = f.verdict (.number n) := by
  rw [verdict, verdict, select_eq_of_extended_eq hs hm hn h]
  cases hselect : f.select (.number n) with
  | error e => rfl
  | ok selected =>
    cases selected with
    | none => rfl
    | some s =>
      have hcomparable := hs s (mem_of_select hselect)
      cases hc : s.condition with
      | none => simp only [bind, Except.bind, hc]
      | some c =>
        have hclaims : c.accepts (CellValue.number m).toValue =
            c.accepts (CellValue.number n).toValue := by
          have hdecides : ∀ {n : Number}, ¬ n.IsNan → s.Decides (.number n) :=
            fun hn => hcomparable.decides (mt CellValue.IsDecimalNan.isNan hn)
          rw [Section.accepts_condition (hdecides hm) hc, Section.accepts_condition (hdecides hn) hc,
            Section.accepts_congr hcomparable hm hn h]
        simp only [bind, Except.bind, hc, hclaims]

end Format

/-! ## What is shown -/

/-- For a section, numbers of the same value are written out with the same digits. -/
theorem Section.exists_written {s : Section} (hm : m.IsExact s.percentCount)
    (hn : n.IsExact s.percentCount) (h : m.toRat = n.toRat) :
    ∃ written, (s.scaled m).bind Number.positional = .ok written ∧
      (s.scaled n).bind Number.positional = .ok written := by
  obtain ⟨scaled, c, e, hscaled, hwritten, hcanonical, hvalue⟩ := exists_canonical hm
  obtain ⟨scaled', c', e', hscaled', hwritten', hcanonical', hvalue'⟩ := exists_canonical hn
  obtain ⟨rfl, rfl⟩ := hcanonical.unique hcanonical' (by rw [hvalue, hvalue', h])
  refine ⟨(Decimal.finite false c e).positional, ?_, ?_⟩
  · rw [hscaled, Except.bind, hwritten]
  · rw [hscaled', Except.bind, hwritten']

/-- Without a section, numbers of the same value are shown alike. -/
lemma Number.exists_plainText (hm : m.IsExact 0) (hn : n.IsExact 0) (h : m.toRat = n.toRat) :
    ∃ text, m.plainText = .ok text ∧ n.plainText = .ok text := by
  -- What is written out without a section is what a section without percent signs asks for.
  have hscaled : ∀ n, Section.scaled {} n = n.magnitude := by
    intro n
    cases h : n.magnitude <;> simp [Section.scaled, h, bind, Except.bind, pure, Except.pure]
  obtain ⟨written, hm', hn'⟩ := Section.exists_written (s := {}) hm hn h
  rw [hscaled] at hm' hn'
  refine ⟨(if m.toRat < 0 then ['-'] else []) ++ written.text, ?_, ?_⟩
  · rw [plainText_of_isFinite hm.isFinite, hm', Except.map]
  · rw [plainText_of_isFinite hn.isFinite, hn', Except.map, h]

/-- What becomes of numbers of the same value is shown alike. -/
theorem Verdict.exists_render {verdict : Verdict} (hm : m.IsExact verdict.percents)
    (hn : n.IsExact verdict.percents) (h : m.toRat = n.toRat) :
    ∃ r, verdict.render (.number m) = .ok r ∧ verdict.render (.number n) = .ok r := by
  cases verdict with
  | applies s =>
    obtain ⟨written, hm', hn'⟩ := Section.exists_written (s := s) hm hn h
    refine ⟨⟨String.ofList (s.layout (decide (m.toRat < 0)) written), s.color⟩, ?_, ?_⟩
    · rw [render, Section.showCell,
        Section.showNumber_of_isFinite hm.isFinite (Number.compareZero_less hm.isFinite), hm']
      rfl
    · rw [render, Section.showCell,
        Section.showNumber_of_isFinite hn.isFinite (Number.compareZero_less hn.isFinite), hn', h]
      rfl
  | unmatched | rejected c =>
    obtain ⟨text, hm', hn'⟩ := Number.exists_plainText hm hn h
    refine ⟨⟨String.ofList text, none⟩, ?_, ?_⟩
    · rw [render, CellValue.plainText, hm', Except.map]
    · rw [render, CellValue.plainText, hn', Except.map]

/-- A format decides alike on finite numbers of the same value. Where they are written out exactly,
before and after they are multiplied as the section that applies to them asks for, they are shown
alike, as the same text in the same color. -/
theorem render_eq_of_toRat_eq {format : String} {f : Format} (hparse : Format.parse format = .ok f)
    (hm : m.isFinite) (hn : n.isFinite) (h : m.toRat = n.toRat) :
    ∃ verdict, f.verdict (.number m) = .ok verdict ∧ f.verdict (.number n) = .ok verdict ∧
      (m.IsExact verdict.percents → n.IsExact verdict.percents →
        ∃ r, render (CellValue.number m).toValue (.text format) = .ok r ∧
          render (CellValue.number n).toValue (.text format) = .ok r) := by
  have hcomparable := Format.isComparable_of_parse hparse
  have hm' := Number.not_isNan_of_isFinite hm
  have hn' := Number.not_isNan_of_isFinite hn
  have hextended : m.extended = n.extended := by
    rw [Number.extended_of_isFinite hm, Number.extended_of_isFinite hn, h]
  obtain ⟨verdict, hverdict⟩ := Format.exists_verdict (v := .number m) hcomparable
    (mt Number.IsDecimalNan.isNan hm')
  have hverdict' := (Format.verdict_congr hcomparable hm' hn' hextended).symm.trans hverdict
  refine ⟨verdict, hverdict, hverdict', fun hexact hexact' => ?_⟩
  obtain ⟨r, hr, hr'⟩ := Verdict.exists_render hexact hexact' h
  refine ⟨r, ?_, ?_⟩
  · rw [render_of_parse hparse, Format.renderCell_of_verdict hverdict, hr]
  · rw [render_of_parse hparse, Format.renderCell_of_verdict hverdict', hr']

/-- A thousand is shown alike as an integer and as a decimal, where a condition accepts it and a
percent sign multiplies it. -/
theorem render_eq_of_toRat_eq_thousand :
    ∃ r, render (.int 1000) (.text "[>=1000][Red]0.0%;0") = .ok r ∧
      render (.decimal (.finite false 1 3)) (.text "[>=1000][Red]0.0%;0") = .ok r := by
  have hparse : Format.parse "[>=1000][Red]0.0%;0" = .ok ⟨[
      { color := some "Red"
        condition := some ⟨">=", .int 1000⟩
        parts := [.placeholder .zero, .point, .placeholder .zero, .percent]
        percentCount := 1 },
      { parts := [.placeholder .zero] }]⟩ := rfl
  have hvalue : (Number.int 1000).toRat = (Number.decimal (.finite false 1 3)).toRat := by
    norm_num [Number.toRat, Decimal.toRat]
  obtain ⟨verdict, hverdict, -, hshown⟩ := render_eq_of_toRat_eq hparse rfl rfl hvalue
  obtain rfl := Except.ok.inj hverdict
  have hlength : Numeral.digitCount (1000 * 100 ^ 1) ≤ Numeral.maxDigits := by decide +kernel
  refine hshown hlength ⟨rfl, ?_, ?_⟩
  · exact ⟨1, 3, by decide, by decide, fun _ => by decide, by norm_num [Decimal.toRat]⟩
  · exact ⟨1, 5, by decide, by decide, fun _ => by decide,
      by norm_num [Decimal.toRat, Verdict.percents]⟩

end FormatCode
