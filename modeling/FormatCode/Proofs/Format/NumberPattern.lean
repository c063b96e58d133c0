import FormatCode.Proofs.Format.Marks
import FormatCode.Proofs.Number.Exact

/-!
# What a number is shown as

A format of placeholders, commas and percent signs, with a point at most, shows a number as a plain
decimal numeral among commas, spaces and percent signs. The numeral is the number, multiplied by a
hundred for each percent sign and rounded to as many places as there are placeholders after the
point, though without a carry.

## Main definitions

* `PlainNumeral` — decimal numerals.
* `NumberPattern` — formats of placeholders, commas and percent signs around a point.

## Main statements

* `NumberPattern.parse_text` — such a format has one section.
* `NumberPattern.render_number` — what such a format shows a number as.
-/

namespace FormatCode

/-- A decimal numeral: digits, and possibly a point, after which there may be more digits. -/
structure PlainNumeral where
  whole : List Char
  fraction : Option (List Char)
  whole_ne_nil : whole ≠ []
  plain_whole : Numeral.Plain whole
  plain_fraction : ∀ ds ∈ fraction, Numeral.Plain ds

namespace PlainNumeral

def text (n : PlainNumeral) : List Char :=
  n.whole ++ match n.fraction with
    | none => []
    | some ds => '.' :: ds

def value (n : PlainNumeral) : ℚ := Numeral.fixedPoint n.whole (n.fraction.getD [])

end PlainNumeral

/-- A format of placeholders, commas and percent signs, with at least one placeholder before the
point. There need not be a point, and there is no comma after it. -/
structure NumberPattern where
  whole : List Char
  fraction : Option (List Char)
  mem_whole : ∀ c ∈ whole, c ∈ ['0', '#', '?', '%', ',']
  mem_fraction : ∀ cs ∈ fraction, ∀ c ∈ cs, c ∈ ['0', '#', '?', '%']
  exists_placeholder : ∃ c ∈ whole, c ∈ ['0', '#', '?']

namespace NumberPattern

def chars (f : NumberPattern) : List Char :=
  f.whole ++ match f.fraction with
    | none => []
    | some cs => '.' :: cs

def text (f : NumberPattern) : String := String.ofList f.chars

def places (f : NumberPattern) : Nat := (f.fraction.getD []).countP (· ∈ ['0', '#', '?'])

def percents (f : NumberPattern) : Nat := f.chars.count '%'

end NumberPattern

namespace NumberPattern

variable (f : NumberPattern)

/-! ## The section -/

lemma mem_patternMarks : ∀ c ∈ f.chars, c ∈ patternMarks := by
  have hsubset : ∀ c ∈ ['0', '#', '?', '%', ','], c ∈ patternMarks := by simp [patternMarks]
  have hsubset' : ∀ c ∈ ['0', '#', '?', '%'], c ∈ patternMarks := by simp [patternMarks]
  intro c hc
  rw [chars] at hc
  obtain hc | hc := List.mem_append.mp hc
  · exact hsubset c (f.mem_whole c hc)
  · cases hfraction : f.fraction with
    | none => simp [hfraction] at hc
    | some cs =>
      simp only [hfraction] at hc
      obtain rfl | hc := List.mem_cons.mp hc
      · decide
      · exact hsubset' c (f.mem_fraction cs hfraction c hc)

def wholeParts : List Part := f.whole.flatMap Part.ofMark

def fractionParts : Option (List Part) := f.fraction.map (·.flatMap Part.ofMark)

lemma isPlain_wholeParts : ∀ p ∈ f.wholeParts, p.IsPlain := Part.isPlain_ofMark f.mem_whole

lemma isPlain_fractionParts : ∀ p ∈ f.fractionParts.getD [], p.IsPlain := by
  have hsubset : ∀ c ∈ ['0', '#', '?', '%'], c ∈ ['0', '#', '?', '%', ','] := by simp
  cases hfraction : f.fraction with
  | none => simp [fractionParts, hfraction]
  | some cs =>
    rw [fractionParts, hfraction]
    exact Part.isPlain_ofMark fun c hc => hsubset c (f.mem_fraction cs hfraction c hc)

lemma any_wholeParts : f.wholeParts.any Part.isPlaceholder :=
  Part.any_isPlaceholder_ofMark f.exists_placeholder

lemma splitAtFirst_chars : splitAtFirst (· == '.') f.chars = (f.whole, f.fraction) := by
  have hpoint : '.' ∉ f.whole := fun hmem => absurd (f.mem_whole _ hmem) (by decide)
  obtain ⟨hnone, hsome⟩ := splitAtFirst_point_of_notMem hpoint
  rw [chars]
  cases f.fraction with
  | none =>
    rw [List.append_nil]
    exact hnone
  | some cs => exact hsome cs

lemma split_ofMarks : (Section.ofMarks f.chars).split = (f.wholeParts, f.fractionParts) := by
  rw [Section.split_ofMarks f.mem_patternMarks, splitAtFirst_chars]
  rfl

/-- A number pattern has one section. -/
theorem parse_text : Format.parse f.text = .ok ⟨[Section.ofMarks f.chars]⟩ := by
  obtain ⟨c, hc, hmark⟩ := f.exists_placeholder
  exact Format.parse_marks f.mem_patternMarks ⟨c, List.mem_append_left _ hc, hmark⟩

/-! ## The number that is shown -/

lemma countP_fractionParts : (f.fractionParts.getD []).countP Part.isPlaceholder = f.places := by
  cases hfraction : f.fraction with
  | none => simp [fractionParts, places, hfraction]
  | some cs =>
    have hcs : ∀ c ∈ cs, c ∈ patternMarks := by
      intro c hc
      refine f.mem_patternMarks c ?_
      simp [chars, hfraction, hc]
    rw [fractionParts, places, hfraction]
    exact (Part.count_flatMap_ofMark hcs).2

lemma count_percent_parts :
    f.wholeParts.count .percent + (f.fractionParts.getD []).count .percent = f.percents := by
  have hcount := (Part.count_flatMap_ofMark f.mem_patternMarks).1
  rw [percents, ← hcount, chars, List.flatMap_append, List.count_append, wholeParts, fractionParts]
  cases f.fraction with
  | none => rfl
  | some cs =>
    rw [List.flatMap_cons, List.count_append]
    exact congrArg _ (Nat.zero_add _).symm

/-- The numeral that is shown for digits. -/
theorem exists_numeral {written : Positional} (hwritten : written.IsPlain) (negative : Bool) :
    ∃ numeral : PlainNumeral,
      ((Section.ofMarks f.chars).layout negative written).count '%' = f.percents ∧
      withoutMarks ((Section.ofMarks f.chars).layout negative written) =
        (if negative then ['-'] else []) ++ numeral.text ∧
      numeral.value =
        Numeral.withoutCarry f.places (Numeral.fixedPoint written.whole written.fraction) := by
  obtain ⟨zeros, hwhole, hpercents⟩ := withoutMarks_layoutWhole f.isPlain_wholeParts
    f.any_wholeParts (unmarked_of_plain hwritten.whole) (Section.ofMarks f.chars).grouped
  obtain ⟨zeros', hfraction, hpercents'⟩ :=
    withoutMarks_layoutFraction f.isPlain_fractionParts hwritten.fraction
  have hplain : Numeral.Plain (List.replicate zeros '0' ++ written.whole) :=
    Numeral.plain_append.mpr ⟨Numeral.plain_replicate_zero zeros, hwritten.whole⟩
  have hrounded := plain_roundedFraction hwritten.fraction f.places
  have hplain' : Numeral.Plain
      (roundedFraction f.places written.fraction ++ List.replicate zeros' '0') :=
    Numeral.plain_append.mpr ⟨hrounded, Numeral.plain_replicate_zero zeros'⟩
  have hminus : withoutMarks (if negative then ['-'] else []) = if negative then ['-'] else [] := by
    cases negative <;> rfl
  have hminus' : (if negative then ['-'] else []).count '%' = 0 := by
    cases negative <;> rfl
  have hcount := f.count_percent_parts
  rw [countP_fractionParts] at hfraction
  rw [withoutCarry_fixedPoint hwritten.whole hwritten.fraction, Section.layout_eq, split_ofMarks,
    withoutMarks_append, hminus, List.count_append, hminus', Nat.zero_add, withoutMarks_append,
    List.count_append, hwhole, hpercents]
  cases hparts : f.fractionParts with
  | none =>
    rw [hparts, Option.getD_none] at hcount
    have hplaces : f.places = 0 := by
      rw [← countP_fractionParts, hparts]
      rfl
    refine ⟨⟨List.replicate zeros '0' ++ written.whole, none, ?_, hplain, nofun⟩, hcount, rfl, ?_⟩
    · simp [hwritten.whole_ne_nil]
    · rw [hplaces, roundedFraction, PlainNumeral.value]
      exact Numeral.fixedPoint_zeros_append hwritten.whole Numeral.plain_nil zeros
  | some parts =>
    rw [hparts, Option.getD_some] at hcount hfraction hpercents'
    refine ⟨⟨List.replicate zeros '0' ++ written.whole,
      some (roundedFraction f.places written.fraction ++ List.replicate zeros' '0'), ?_, hplain,
      ?_⟩, ?_, ?_, ?_⟩
    · simp [hwritten.whole_ne_nil]
    · intro ds hds
      rwa [← Option.mem_some.mp hds]
    · exact (congrArg _ ((List.count_cons_of_ne (by decide)).trans hpercents')).trans hcount
    · have hpoint : ∀ t, withoutMarks ('.' :: t) = '.' :: withoutMarks t :=
        fun t => List.filter_cons_of_pos (by decide)
      rw [hpoint, hfraction]
      rfl
    · rw [PlainNumeral.value, Option.getD_some, Numeral.fixedPoint_append_zeros hplain hrounded,
        Numeral.fixedPoint_zeros_append hwritten.whole hrounded]

/-- A number pattern shows a number as a plain decimal numeral among commas, spaces and percent
signs: the number with its sign, multiplied by a hundred for each percent sign and rounded to as
many places as there are placeholders after the point, without a carry. -/
theorem render_number (f : NumberPattern) {n : Number} (h : n.IsExact f.percents) :
    ∃ (r : Rendered) (numeral : PlainNumeral),
      render (CellValue.number n).toValue (.text f.text) = .ok r ∧
      r.text.toList.count '%' = f.percents ∧
      withoutMarks r.text.toList = (if n.toRat < 0 then ['-'] else []) ++ numeral.text ∧
      numeral.value = Numeral.withoutCarry f.places (|n.toRat| * 100 ^ f.percents) := by
  obtain ⟨hcondition, -, hcount⟩ := Section.ofMarks_spec f.mem_patternMarks
  have hexact : n.IsExact (Section.ofMarks f.chars).percentCount := by rwa [hcount]
  obtain ⟨scaled, written, hscaled, hpositional, hwritten, hvalue⟩ :=
    Section.exists_positional hexact
  obtain ⟨numeral, hpercents, htext, hnumeral⟩ :=
    f.exists_numeral hwritten (decide (n.toRat < 0))
  rw [hvalue, hcount] at hnumeral
  have hshown : (Section.ofMarks f.chars).showNumber n =
      .ok ((Section.ofMarks f.chars).layout (decide (n.toRat < 0)) written) := by
    rw [Section.showNumber, if_pos h.isFinite, Number.compareZero_less h.isFinite]
    simp only [bind, Except.bind, hscaled, hpositional, pure, Except.pure]
  refine ⟨⟨String.ofList ((Section.ofMarks f.chars).layout (decide (n.toRat < 0)) written),
    (Section.ofMarks f.chars).color⟩, numeral, ?_, ?_, ?_, hnumeral⟩
  · simp only [render, Value.toText, bind, Except.bind, f.parse_text, Format.render,
      Value.toCell_toValue, Format.renderCell, Format.verdict, Format.select, Format.choose,
      Except.map, Option.bind_some, List.getElem?_cons_zero, hcondition, pure, Except.pure,
      Section.showCell, hshown]
  · rw [String.toList_ofList, hpercents]
  · rw [String.toList_ofList, htext]
    simp

def groupedPercent : NumberPattern where
  whole := ['#', ',', '#', '#', '0']
  fraction := some ['0', '%']
  mem_whole := by simp
  mem_fraction := by simp
  exists_placeholder := by simp

/-- The nine at the last place is rounded up, which leaves the digits before it as they are. -/
theorem render_number_groupedPercent :
    ∃ (r : Rendered) (numeral : PlainNumeral),
      render (.decimal (.finite true 1234596 (-4))) (.text "#,##0.0%") = .ok r ∧
      r.text.toList.count '%' = 1 ∧
      withoutMarks r.text.toList = '-' :: numeral.text ∧
      numeral.value = Numeral.withoutCarry 1 (|(-123.4596)| * 100) := by
  have hvalue : (Number.decimal (.finite true 1234596 (-4))).toRat = -123.4596 := by
    norm_num [Number.toRat, Decimal.toRat]
  have hplaces : groupedPercent.places = 1 := rfl
  have hcount : groupedPercent.percents = 1 := rfl
  have hexact : (Number.decimal (.finite true 1234596 (-4))).IsExact groupedPercent.percents := by
    rw [hcount]
    refine ⟨rfl, ⟨1234596, -4, by decide, by decide, fun _ => by decide, ?_⟩,
      ⟨1234596, -2, by decide, by decide, fun _ => by decide, ?_⟩⟩
    · norm_num [Decimal.toRat]
    · norm_num [Decimal.toRat]
  obtain ⟨r, numeral, hrender, hpercents, htext, hnumeral⟩ := groupedPercent.render_number hexact
  refine ⟨r, numeral, hrender, hpercents, ?_, ?_⟩
  · rw [htext, hvalue, if_pos (by norm_num)]
    rfl
  · rw [hnumeral, hvalue, hplaces, hcount, pow_one]

end NumberPattern

end FormatCode
