import FormatCode.Proofs.Format.DigitText

/-!
# Digits before the point

Before the point a number is shown with all its digits, among commas and spaces, if the format has a
placeholder there: the leftmost one takes the digits that are left. A format whose placeholders all
stand after the point shows no digit before it, whatever the number.

## Main definitions

* `digitMarks` — the characters of formats of placeholders, commas and points.
* `wholeShown` — the characters before the first point, without commas and spaces.
* `IsNumeralOf` — the numerals of a number.

## Main statements

* `Section.wholeShown_layout` — what is shown before the point.
* `render_wholeShown` — for which formats it is the whole number.
-/

namespace FormatCode

def digitMarks : List Char := ['0', '#', '?', '.', ',']

def wholeShown (text : List Char) : List Char :=
  (text.takeWhile (· ≠ '.')).filter (· ∉ [',', ' '])

def IsNumeralOf (n : Nat) (ds : List Char) : Prop :=
  ds ≠ [] ∧ Numeral.Plain ds ∧ Numeral.value ds = n

lemma mem_patternMarks_of_digitMarks {cs : List Char} (h : ∀ c ∈ cs, c ∈ digitMarks) :
    ∀ c ∈ cs, c ∈ patternMarks := by
  intro c hc
  grind [digitMarks, patternMarks]

/-- Nothing after the first point counts. -/
lemma wholeShown_append {whole : List Char} (h : '.' ∉ whole) (fraction : Option (List Char)) :
    wholeShown (whole ++ fraction.elim [] ('.' :: ·)) = whole.filter (· ∉ [',', ' ']) := by
  rw [wholeShown, takeWhile_point h]
  cases fraction <;> simp

/-- Without percent signs only commas and spaces are marks. -/
lemma withoutMarks_of_notMem {text : List Char} (h : '%' ∉ text) :
    withoutMarks text = text.filter (· ∉ [',', ' ']) := by
  refine List.filter_congr fun c hc => ?_
  have hpercent : c ≠ '%' := fun hpercent => h (hpercent ▸ hc)
  simp [hpercent]

/-- Zeros in front of its digits make another numeral of a number. -/
lemma isNumeralOf_zeros (zeros n : Nat) :
    IsNumeralOf n (List.replicate zeros '0' ++ Numeral.digits n) := by
  have hzeros := Numeral.plain_replicate_zero zeros
  refine ⟨?_, Numeral.plain_append.mpr ⟨hzeros, Numeral.plain_digits n⟩, ?_⟩
  · simp [Numeral.digits_ne_nil]
  · rw [Numeral.value_append hzeros (Numeral.plain_digits n), Numeral.value_replicate_zero,
      Numeral.value_digits, Nat.zero_mul, Nat.zero_add]

namespace Section

variable {cs : List Char}

/-- Commas alone make no parts. -/
lemma wholeParts_eq_nil (hmarks : ∀ c ∈ cs, c ∈ digitMarks)
    (hplaceholder : ¬ ∃ c ∈ cs.takeWhile (· ≠ '.'), c ∈ ['0', '#', '?']) :
    (ofMarks cs).split.1 = [] := by
  rw [(wholeParts_ofMarks (mem_patternMarks_of_digitMarks hmarks)).1, List.flatMap_eq_nil_iff]
  intro c hc
  have hmark := hmarks c (List.takeWhile_subset _ hc)
  have hpoint : c ≠ '.' :=
    of_decide_eq_true (List.mem_takeWhile_imp (p := fun c => decide (c ≠ '.')) hc)
  have hdigit : c ∉ ['0', '#', '?'] := fun hmem => hplaceholder ⟨c, hc, hmem⟩
  simp only [digitMarks, List.mem_cons, List.not_mem_nil, or_false, not_or] at hmark hdigit
  obtain rfl : c = ',' := by tauto
  rfl

/-- What is shown before the point: all digits where a placeholder stands before it. -/
lemma filter_layoutWhole (hmarks : ∀ c ∈ cs, c ∈ digitMarks)
    (hplaceholder : ∃ c ∈ cs.takeWhile (· ≠ '.'), c ∈ ['0', '#', '?']) {digits : List Char}
    (hdigits : Numeral.Plain digits) (grouped : Bool) :
    '.' ∉ layoutWhole digits (ofMarks cs).split.1 grouped ∧
      ∃ zeros, (layoutWhole digits (ofMarks cs).split.1 grouped).filter (· ∉ [',', ' ']) =
        List.replicate zeros '0' ++ digits := by
  have hpattern := mem_patternMarks_of_digitMarks hmarks
  obtain ⟨hparts, hplain⟩ := wholeParts_ofMarks hpattern
  obtain ⟨zeros, hshown, hcount⟩ := withoutMarks_layoutWhole hplain
    (hparts ▸ Part.any_isPlaceholder_ofMark hplaceholder) (unmarked_of_plain hdigits) grouped
  have hpercent : '%' ∉ cs.takeWhile (· ≠ '.') :=
    fun hmem => absurd (hmarks _ (List.takeWhile_subset _ hmem)) (by decide)
  have hnone : '%' ∉ layoutWhole digits (ofMarks cs).split.1 grouped := by
    rw [← List.count_eq_zero, hcount, hparts, (Part.count_flatMap_ofMark fun c hc =>
      hpattern c (List.takeWhile_subset _ hc)).1, List.count_eq_zero]
    exact hpercent
  refine ⟨fun hpoint => ?_, zeros, by rw [← hshown, withoutMarks_of_notMem hnone]⟩
  obtain hmark | hdigit := mem_marks_or_mem_withoutMarks hpoint
  · exact absurd hmark (by decide)
  · rw [hshown] at hdigit
    have hall := Numeral.plain_append.mpr ⟨Numeral.plain_replicate_zero zeros, hdigits⟩
    exact absurd (hall _ hdigit) (by decide)

/-- Before the point a whole number is shown in full or not at all. -/
theorem wholeShown_layout (hmarks : ∀ c ∈ cs, c ∈ digitMarks) (n : Nat) :
    ((∃ c ∈ cs.takeWhile (· ≠ '.'), c ∈ ['0', '#', '?']) →
      IsNumeralOf n (wholeShown ((ofMarks cs).layout false ⟨false, Numeral.digits n, []⟩))) ∧
    ((¬ ∃ c ∈ cs.takeWhile (· ≠ '.'), c ∈ ['0', '#', '?']) →
      wholeShown ((ofMarks cs).layout false ⟨false, Numeral.digits n, []⟩) = []) := by
  have hlayout : (ofMarks cs).layout false ⟨false, Numeral.digits n, []⟩ =
      layoutWhole (Numeral.digits n) (ofMarks cs).split.1 (ofMarks cs).grouped ++
        ((ofMarks cs).split.2.map (layoutFraction [])).elim [] ('.' :: ·) := by
    rw [layout]
    cases (ofMarks cs).split.2 <;> rfl
  rw [hlayout]
  constructor
  · intro hplaceholder
    obtain ⟨hpoint, zeros, hshown⟩ :=
      filter_layoutWhole hmarks hplaceholder (Numeral.plain_digits n) (ofMarks cs).grouped
    rw [wholeShown_append hpoint, hshown]
    exact isNumeralOf_zeros zeros n
  · intro hplaceholder
    rw [wholeParts_eq_nil hmarks hplaceholder]
    exact wholeShown_append List.not_mem_nil _

end Section

/-- A format of placeholders, commas and points shows a whole number before the point as a numeral of
the number, if a placeholder stands before the first point. If all of its placeholders stand after
that point, it shows no digit before it. -/
theorem render_wholeShown {format : String} (hmarks : ∀ c ∈ format.toList, c ∈ digitMarks)
    (hplaceholder : ∃ c ∈ format.toList, c ∈ ['0', '#', '?']) {n : Nat}
    (hn : Numeral.digitCount n ≤ Numeral.maxDigits) :
    ∃ r, render (.int n) (.text format) = .ok r ∧
      ((∃ c ∈ format.toList.takeWhile (· ≠ '.'), c ∈ ['0', '#', '?']) →
        IsNumeralOf n (wholeShown r.text.toList)) ∧
      ((¬ ∃ c ∈ format.toList.takeWhile (· ≠ '.'), c ∈ ['0', '#', '?']) →
        wholeShown r.text.toList = []) := by
  have hpattern := mem_patternMarks_of_digitMarks hmarks
  have hparse := Format.parse_marks hpattern hplaceholder
  rw [String.ofList_toList] at hparse
  obtain ⟨hcondition, -, hpercents⟩ := Section.ofMarks_spec hpattern
  have hnone : (Section.ofMarks format.toList).percentCount = 0 := by
    rw [hpercents, List.count_eq_zero]
    exact fun hmem => absurd (hmarks _ hmem) (by decide)
  have hnegative : (Number.int n).compareZero .less = .ok false := by
    rw [Number.compareZero_less rfl]
    simp [Number.toRat]
  have hshow : (Section.ofMarks format.toList).showNumber (.int n) =
      .ok ((Section.ofMarks format.toList).layout false ⟨false, Numeral.digits n, []⟩) := by
    rw [Section.showNumber_of_isFinite rfl hnegative, Section.scaled_int, hnone, pow_zero,
      Nat.mul_one, Int.natAbs_natCast, Except.bind, Number.positional_natCast, if_pos hn, Except.map]
  have hrender : render (CellValue.number (.int n)).toValue (.text format) = .ok
      ⟨String.ofList ((Section.ofMarks format.toList).layout false ⟨false, Numeral.digits n, []⟩),
        (Section.ofMarks format.toList).color⟩ := by
    rw [render_of_parse hparse, Format.renderCell_of_verdict (Format.verdict_singleton hcondition _),
      Verdict.render, Section.showCell, hshow]
    rfl
  refine ⟨_, hrender, ?_⟩
  rw [String.toList_ofList]
  exact Section.wholeShown_layout hmarks n

/-- Commas that group and one that scales, and a second point. -/
theorem render_wholeShown_grouped :
    render (.int 1234567) (.text "?,#00,.#,.") = .ok ⟨"1,234,567.", none⟩ ∧
      IsNumeralOf 1234567 (wholeShown "1,234,567.".toList) := by
  obtain ⟨r, hr, hshown, -⟩ := @render_wholeShown "?,#00,.#,." (by simp [digitMarks])
    ⟨'?', by simp, by simp⟩ 1234567 (by decide)
  have hr' : render (.int 1234567) (.text "?,#00,.#,.") = .ok ⟨"1,234,567.", none⟩ := by
    decide +kernel
  obtain rfl := Except.ok.inj (hr.symm.trans hr')
  exact ⟨hr', hshown ⟨'?', by simp, by simp⟩⟩

/-- The only placeholder stands after the point, and the number is not shown. -/
theorem render_pointFirst :
    render (.int 5) (.text ".0") = .ok ⟨".0", none⟩ ∧ ¬ IsNumeralOf 5 (wholeShown ".0".toList) :=
  ⟨by decide +kernel, fun h => h.1 (by decide)⟩

end FormatCode
