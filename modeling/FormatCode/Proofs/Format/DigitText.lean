import FormatCode.Proofs.Binary64.Product
import FormatCode.Proofs.Format.Marks
import FormatCode.Proofs.Format.Verdict
import FormatCode.Proofs.Number.Exact
import FormatCode.Proofs.Outcome

/-!
# Finite numbers are shown as digits

A format of placeholders, commas, points and percent signs shows a finite number as digits among
commas, spaces and percent signs, with at most one minus sign and one point. The exception is a
binary number that becomes infinite when it is multiplied as the percent signs ask for: the name of
the infinity is laid out letter by letter as if the letters were digits.

## Main definitions

* `IsDigitText` — the texts that are digits among commas, spaces and percent signs.
* `Number.Overflows` — whether a number becomes infinite when it is multiplied.

## Main statements

* `Section.positional_of_scaled` — what is written out for the digits of a section.
* `Section.isDigitText_layout`, `Section.not_isDigitText_layout` — the layout of digits, and that of
  an infinity.
* `render_isDigitText_iff` — which finite numbers are shown as digits.
-/

namespace FormatCode

/-- Whether a text is a minus sign or none, digits among commas, spaces and percent signs, and if it
is to have a point, the point and digits among spaces and percent signs. -/
def IsDigitText (point : Bool) (text : List Char) : Prop :=
  ∃ (negative : Bool) (whole fraction : List Char),
    text = (if negative then ['-'] else []) ++ whole ++ (if point then '.' :: fraction else []) ∧
      (∀ c ∈ whole, c.isDigit ∨ c ∈ [',', ' ', '%']) ∧
      ∀ c ∈ fraction, c.isDigit ∨ c ∈ [' ', '%']

lemma IsDigitText.mem {point : Bool} {text : List Char} (h : IsDigitText point text) {c : Char}
    (hc : c ∈ text) : c.isDigit ∨ c ∈ ['-', '.', ',', ' ', '%'] := by
  obtain ⟨negative, whole, fraction, rfl, hwhole, hfraction⟩ := h
  obtain hc | hc := List.mem_append.mp hc
  · obtain hc | hc := List.mem_append.mp hc
    · cases negative <;> simp_all
    · exact (hwhole c hc).imp_right fun hmark => by simp_all
  · cases point with
    | false => cases hc
    | true =>
      obtain rfl | hc := List.mem_cons.mp hc
      · simp
      · exact (hfraction c hc).imp_right fun hmark => by simp_all

/-! ## What is written out -/

/-- Whether a binary number becomes infinite when it is multiplied by a hundred as often as there
are percent signs. The power of a hundred is rounded to a binary number first. -/
def Number.Overflows (percents : Nat) : Number → Prop
  | float x => percents ≠ 0 ∧ ∃ factor, Binary64.ofInt (100 ^ percents : Nat) = .ok factor ∧
      Binary64.limit ≤ |x.toDecimal.toRat * factor.toDecimal.toRat|
  | _ => False

namespace Decimal

variable {d d' : Decimal}

/-- Rounding a finite decimal to the context leaves it finite. -/
lemma isFinite_of_abs (hd : d.isFinite) (h : d.abs = .ok d') : d'.isFinite := by
  cases d with
  | finite n c e =>
    obtain ⟨-, -, rfl⟩ := Except.map_eq_ok_iff.mp h
    rfl
  | _ => cases hd

lemma isFinite_of_shift {places : Nat} (hd : d.isFinite) (h : d.shift places = .ok d') :
    d'.isFinite := by
  cases d with
  | finite n c e =>
    obtain ⟨-, -, rfl⟩ := Except.map_eq_ok_iff.mp h
    rfl
  | _ => cases hd

lemma isFinite_of_normalize (hd : d.isFinite) (h : d.normalize = .ok d') : d'.isFinite := by
  cases d with
  | finite n c e =>
    obtain ⟨⟨c', e'⟩, -, rfl⟩ := Except.map_eq_ok_iff.mp h
    dsimp only
    split <;> rfl
  | _ => cases hd

lemma isPlain_positional (hd : d.isFinite) : d.positional.IsPlain := by
  cases d with
  | finite n c e => exact (fixedPoint_positional n c e).1
  | _ => cases hd

end Decimal

/-- Finite numbers are written out with plain digits. -/
lemma Number.isPlain_of_positional {n : Number} (hn : n.isFinite) {written : Positional}
    (h : n.positional = .ok written) : written.IsPlain := by
  cases n with
  | int i =>
    rw [positional_int] at h
    split at h
    · obtain rfl := Except.ok.inj h
      exact ⟨Numeral.digits_ne_nil _, Numeral.plain_digits _, Numeral.plain_nil⟩
    · cases h
  | float x =>
    obtain rfl := Except.ok.inj h
    refine Decimal.isPlain_positional ?_
    cases x with
    | finite negative bits => rfl
    | _ => cases hn
  | decimal d =>
    obtain ⟨d', hd', rfl⟩ := Except.map_eq_ok_iff.mp h
    exact Decimal.isPlain_positional (Decimal.isFinite_of_normalize hn hd')

namespace Section

variable {s : Section} {m : Number}

/-- A number is multiplied if there are percent signs. -/
lemma scaled_cases {n : Number} (h : s.scaled n = .ok m) :
    s.percentCount = 0 ∧ n.magnitude = .ok m ∨ s.percentCount ≠ 0 ∧
      ∃ magnitude, n.magnitude = .ok magnitude ∧
        magnitude.scaleByPercent s.percentCount = .ok m := by
  obtain ⟨magnitude, hmagnitude, hm⟩ := Except.bind_eq_ok_iff.mp h
  by_cases hp : s.percentCount = 0
  · rw [if_pos hp] at hm
    exact .inl ⟨hp, hmagnitude.trans hm⟩
  · rw [if_neg hp] at hm
    exact .inr ⟨hp, magnitude, hmagnitude, hm⟩

lemma isFinite_of_scaled_decimal {d : Decimal} (hd : d.isFinite)
    (h : s.scaled (.decimal d) = .ok m) : m.isFinite := by
  obtain ⟨-, hm⟩ | ⟨-, magnitude, hmagnitude, hm⟩ := scaled_cases h
  · obtain ⟨d', habs, rfl⟩ := Except.map_eq_ok_iff.mp hm
    exact Decimal.isFinite_of_abs hd habs
  · obtain ⟨d₁, habs, rfl⟩ := Except.map_eq_ok_iff.mp hmagnitude
    obtain ⟨d₂, hshift, rfl⟩ := Except.map_eq_ok_iff.mp hm
    exact Decimal.isFinite_of_shift (Decimal.isFinite_of_abs hd habs) hshift

/-- A finite binary number that is multiplied stays finite or becomes an infinity. -/
lemma scaled_float_cases {x : Binary64} (hx : x.isFinite) (h : s.scaled (.float x) = .ok m) :
    ¬ (Number.float x).Overflows s.percentCount ∧ m.isFinite ∨
      (Number.float x).Overflows s.percentCount ∧ ∃ negative, m = .float (.infinity negative) := by
  have habs : x.abs.isFinite := by
    cases x with
    | finite negative bits => rfl
    | _ => cases hx
  obtain ⟨hp, hm⟩ | ⟨hp, magnitude, hmagnitude, hm⟩ := scaled_cases h
  · obtain rfl := Except.ok.inj hm
    exact .inl ⟨fun hover => hover.1 hp, habs⟩
  · obtain rfl := Except.ok.inj hmagnitude
    obtain ⟨factor, hfactor, rfl⟩ := Except.map_eq_ok_iff.mp hm
    have hfactor' := (Binary64.isNearest_of_ofInt hfactor).1
    have hfinite := Binary64.isFinite_mul_iff habs hfactor'
    rw [Binary64.abs_toRat, abs_mul, abs_abs, ← abs_mul] at hfinite
    have hover : (Number.float x).Overflows s.percentCount ↔ ¬ (x.abs.mul factor).isFinite := by
      rw [hfinite, not_lt, Number.Overflows, hfactor]
      simp [hp]
    cases hproduct : x.abs.mul factor with
    | finite negative bits =>
      rw [hproduct] at hover
      exact .inl ⟨fun hlarge => hover.mp hlarge rfl, rfl⟩
    | infinity negative =>
      rw [hproduct] at hover
      exact .inr ⟨hover.mpr Bool.false_ne_true, negative, rfl⟩
    | nan =>
      have hnearest := Binary64.isNearest_mul habs hfactor'
      rw [hproduct] at hnearest
      exact hnearest.elim

/-- The digits of a section are plain ones, unless they are the letters of an infinity. -/
theorem positional_of_scaled {n : Number} (hn : n.isFinite) (hm : s.scaled n = .ok m)
    {written : Positional} (hwritten : m.positional = .ok written) :
    ¬ n.Overflows s.percentCount ∧ written.IsPlain ∨
      n.Overflows s.percentCount ∧ written.whole = Decimal.infinityText := by
  cases n with
  | int i =>
    rw [scaled_int] at hm
    obtain rfl := Except.ok.inj hm
    exact .inl ⟨id, Number.isPlain_of_positional rfl hwritten⟩
  | float x =>
    obtain ⟨hover, hfinite⟩ | ⟨hover, negative, rfl⟩ := scaled_float_cases hn hm
    · exact .inl ⟨hover, Number.isPlain_of_positional hfinite hwritten⟩
    · obtain rfl := Except.ok.inj hwritten
      exact .inr ⟨hover, rfl⟩
  | decimal d =>
    exact .inl ⟨id, Number.isPlain_of_positional (isFinite_of_scaled_decimal hn hm) hwritten⟩

end Section

/-! ## What is laid out -/

/-- What stands before the first point begins with all that has no point. -/
lemma takeWhile_point {cs : List Char} (h : '.' ∉ cs) (rest : List Char) :
    (cs ++ rest).takeWhile (· ≠ '.') = cs ++ rest.takeWhile (· ≠ '.') :=
  List.takeWhile_append_of_pos fun _ hc => decide_eq_true fun hpoint => h (hpoint ▸ hc)

/-- A text is cut before its first point, if it has one. -/
lemma splitAtFirst_point (cs : List Char) :
    (splitAtFirst (· == '.') cs).1 = cs.takeWhile (· ≠ '.') ∧
      (splitAtFirst (· == '.') cs).2.isSome = cs.contains '.' := by
  by_cases hpoint : '.' ∈ cs
  · obtain ⟨whole, fraction, rfl, hwhole⟩ := List.eq_append_cons_of_mem hpoint
    rw [(splitAtFirst_point_of_notMem hwhole).2, takeWhile_point hwhole]
    simp
  · have hwhole := takeWhile_point hpoint []
    rw [List.append_nil] at hwhole
    rw [(splitAtFirst_point_of_notMem hpoint).1, hwhole]
    simpa using hpoint

namespace Section

variable {cs : List Char}

/-- Before the point the parts are those of the characters before it, which are no points. -/
lemma wholeParts_ofMarks (hmarks : ∀ c ∈ cs, c ∈ patternMarks) :
    (ofMarks cs).split.1 = (cs.takeWhile (· ≠ '.')).flatMap Part.ofMark ∧
      ∀ p ∈ (ofMarks cs).split.1, p.IsPlain := by
  have hparts : (ofMarks cs).split.1 = (cs.takeWhile (· ≠ '.')).flatMap Part.ofMark := by
    rw [split_ofMarks hmarks, (splitAtFirst_point cs).1]
  refine ⟨hparts, hparts ▸ Part.isPlain_ofMark fun c hc => ?_⟩
  have hmark := hmarks c (List.takeWhile_subset _ hc)
  have hpoint := List.mem_takeWhile_imp (p := fun c => decide (c ≠ '.')) hc
  rw [decide_eq_true_iff] at hpoint
  simp only [patternMarks, List.mem_cons, List.not_mem_nil, or_false] at hmark ⊢
  tauto

/-- Whatever is written out is laid out before the point, without a character left out. -/
lemma withoutMarks_wholeParts (hmarks : ∀ c ∈ cs, c ∈ patternMarks)
    (hplaceholder : ∃ c ∈ cs.takeWhile (· ≠ '.'), c ∈ ['0', '#', '?']) {digits : List Char}
    (hdigits : Unmarked digits) (grouped : Bool) :
    ∃ zeros, withoutMarks (layoutWhole digits (ofMarks cs).split.1 grouped) =
      List.replicate zeros '0' ++ digits := by
  obtain ⟨hparts, hplain⟩ := wholeParts_ofMarks hmarks
  obtain ⟨zeros, hshown, -⟩ := withoutMarks_layoutWhole hplain
    (hparts ▸ Part.any_isPlaceholder_ofMark hplaceholder) hdigits grouped
  exact ⟨zeros, hshown⟩

/-- Digits are laid out as a text of digits. -/
theorem isDigitText_layout (hmarks : ∀ c ∈ cs, c ∈ patternMarks)
    (hplaceholder : ∃ c ∈ cs.takeWhile (· ≠ '.'), c ∈ ['0', '#', '?']) {written : Positional}
    (hwritten : written.IsPlain) (negative : Bool) :
    IsDigitText (cs.contains '.') ((ofMarks cs).layout negative written) := by
  obtain ⟨zeros, hshown⟩ := withoutMarks_wholeParts hmarks hplaceholder
    (unmarked_of_plain hwritten.whole) (ofMarks cs).grouped
  have hwhole : ∀ c ∈ layoutWhole written.whole (ofMarks cs).split.1 (ofMarks cs).grouped,
      c.isDigit ∨ c ∈ [',', ' ', '%'] := by
    intro c hc
    obtain hmark | hdigit := mem_marks_or_mem_withoutMarks hc
    · exact .inr hmark
    · rw [hshown] at hdigit
      exact .inl (Numeral.plain_append.mpr ⟨Numeral.plain_replicate_zero zeros, hwritten.whole⟩ c
        hdigit)
  have hpoint := (splitAtFirst_point cs).2
  have hsplit := congrArg Prod.snd (split_ofMarks hmarks)
  rw [layout_eq, ← hpoint]
  cases hfraction : (splitAtFirst (· == '.') cs).2 with
  | none =>
    rw [hfraction, Option.map_none] at hsplit
    refine ⟨negative, _, [], ?_, hwhole, nofun⟩
    rw [hsplit, ← List.append_assoc]
    rfl
  | some fraction =>
    rw [hfraction, Option.map_some] at hsplit
    refine ⟨negative, _, _, ?_, hwhole,
      mem_layoutFraction (Part.text_ofMark fraction) hwritten.fraction⟩
    rw [hsplit, ← List.append_assoc]
    rfl

/-- The letters of an infinity are laid out as they are. -/
theorem not_isDigitText_layout (hmarks : ∀ c ∈ cs, c ∈ patternMarks)
    (hplaceholder : ∃ c ∈ cs.takeWhile (· ≠ '.'), c ∈ ['0', '#', '?']) {written : Positional}
    (hwritten : written.whole = Decimal.infinityText) (negative point : Bool) :
    ¬ IsDigitText point ((ofMarks cs).layout negative written) := by
  have hunmarked : Unmarked Decimal.infinityText := by simp [Unmarked, Decimal.infinityText]
  obtain ⟨zeros, hshown⟩ := withoutMarks_wholeParts hmarks hplaceholder hunmarked
    (ofMarks cs).grouped
  have hletter : 'y' ∈ withoutMarks (layoutWhole Decimal.infinityText (ofMarks cs).split.1
      (ofMarks cs).grouped) := by
    rw [hshown]
    exact List.mem_append_right _ (by decide)
  intro htext
  refine absurd (htext.mem (c := 'y') ?_) (by decide)
  rw [layout_eq, hwritten]
  exact List.mem_append_right _ (List.mem_append_left _ (List.mem_of_mem_filter hletter))

end Section

/-! ## What is shown -/

/-- A format of placeholders, commas, points and percent signs, with a placeholder before the first
point, shows a finite number as digits among commas, spaces and percent signs, unless the number
becomes infinite when it is multiplied. -/
theorem render_isDigitText_iff {format : String} (hmarks : ∀ c ∈ format.toList, c ∈ patternMarks)
    (hplaceholder : ∃ c ∈ format.toList.takeWhile (· ≠ '.'), c ∈ ['0', '#', '?']) {n : Number}
    (hn : n.isFinite) {r : Rendered}
    (hr : render (CellValue.number n).toValue (.text format) = .ok r) :
    IsDigitText (format.toList.contains '.') r.text.toList ↔
      ¬ n.Overflows (format.toList.count '%') := by
  obtain ⟨hcondition, -, hpercents⟩ := Section.ofMarks_spec hmarks
  have hparse : Format.parse format = .ok ⟨[Section.ofMarks format.toList]⟩ := by
    obtain ⟨c, hc, hmark⟩ := hplaceholder
    rw [← Format.parse_marks hmarks ⟨c, List.takeWhile_subset _ hc, hmark⟩, String.ofList_toList]
  have hverdict := Format.verdict_singleton hcondition (.number n)
  have hnegative := Number.compareZero_less hn
  rw [render_of_parse hparse, Format.renderCell_of_verdict hverdict, Verdict.render,
    Except.map_eq_ok_iff] at hr
  obtain ⟨text, htext, rfl⟩ := hr
  rw [Section.showCell, Section.showNumber_of_isFinite hn hnegative, Except.map_eq_ok_iff] at htext
  obtain ⟨written, hwritten, rfl⟩ := htext
  obtain ⟨scaled, hscaled, hpositional⟩ := Except.bind_eq_ok_iff.mp hwritten
  have hcases := Section.positional_of_scaled hn hscaled hpositional
  rw [hpercents] at hcases
  rw [String.toList_ofList]
  obtain ⟨hover, hplain⟩ | ⟨hover, hinfinity⟩ := hcases
  · exact iff_of_true (Section.isDigitText_layout hmarks hplaceholder hplain _) hover
  · exact iff_of_false (Section.not_isDigitText_layout hmarks hplaceholder hinfinity _ _)
      (not_not.mpr hover)

/-- Spaces for digits that are missing, and a second point, which is not shown. -/
theorem render_isDigitText_iff_points :
    render (.decimal (.finite true 15 (-2))) (.text "?,???.?%.") = .ok ⟨"-  15. %", none⟩ ∧
      IsDigitText true "-  15. %".toList := by
  have hr : render (CellValue.number (.decimal (.finite true 15 (-2)))).toValue
      (.text "?,???.?%.") = .ok ⟨"-  15. %", none⟩ := rfl
  exact ⟨hr, (render_isDigitText_iff (by simp [patternMarks]) (by simp) rfl hr).mpr id⟩

/-- A hundred times 1e308 is beyond the binary numbers, and the infinity is shown instead. -/
theorem render_infinityLetters :
    (Binary64.ofDecimal false 1 308).isFinite ∧
      render (.float (.ofDecimal false 1 308)) (.text "0%") = .ok ⟨"Infinity%", none⟩ ∧
      ¬ IsDigitText false "Infinity%".toList := by
  refine ⟨by decide +kernel, by decide +kernel, fun htext => ?_⟩
  exact absurd (htext.mem (c := 'y') (by decide)) (by decide)

end FormatCode
