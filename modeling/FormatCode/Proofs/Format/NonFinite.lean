import FormatCode.Proofs.Format.Joined
import FormatCode.Proofs.Format.Verdict

/-!
# Infinities and what is not a number

A format without conditions shows an infinity, and what is not a number, by its own text in the
color of the section for it, whatever stands in the section. Which section that is goes by the sign,
for which a decimal that is not a number has no answer: a format that asks for the sign, which is
one of two to four sections, cannot show it.

## Main statements

* `Format.exists_section` — without conditions a format has a section for every value, unless it
  has to ask for the sign of a decimal NaN.
* `render_of_not_isFinite` — what is shown for an infinity or a NaN.
-/

namespace FormatCode

/-! ## Asking for the sign -/

/-- A decimal NaN is neither below nor above zero: either question is a fault. -/
lemma Number.compareZero_of_isDecimalNan {n : Number} (hn : n.IsDecimalNan) {c : Comparison}
    (hc : c.isOrder) : n.compareZero c = .error .decimalInvalid := by
  obtain ⟨d, rfl⟩ : ∃ d, n = .decimal d := by
    cases n with
    | decimal d => exact ⟨d, rfl⟩
    | _ => exact hn.elim
  cases d with
  | nan negative signaling payload =>
    simp [compareZero, operand, Operand.compare, Operand.order?, Operand.ofDecimal,
      Decimal.timesWhole, Decimal.compare?, hc]
  | _ => exact hn.elim

/-- Of two to four sections none is found for a decimal NaN, and any other number of them does not
ask. -/
lemma chooseBySign_of_isDecimalNan {n : Number} (hn : n.IsDecimalNan) (count : Nat) :
    chooseBySign count n = if count ∈ [2, 3, 4] then .error .decimalInvalid else .ok 0 := by
  have hless := Number.compareZero_of_isDecimalNan hn (c := .less) rfl
  have hgreater := Number.compareZero_of_isDecimalNan hn (c := .greater) rfl
  rw [chooseBySign, hless, hgreater]
  by_cases htwo : count = 2
  · simp [htwo, bind, Except.bind]
  · by_cases hmore : count = 3 ∨ count = 4
    · simp [htwo, hmore, bind, Except.bind]
    · simp [htwo, hmore, pure, Except.pure]

namespace Format

variable {f : Format}

/-- Without conditions a section for a number is found by its sign. -/
lemma choose_eq_chooseBySign (hlength : 2 ≤ f.sections.length) (hf : f.hasConditions = false)
    (n : Number) : f.choose (.number n) = (chooseBySign f.sections.length n).map some := by
  obtain ⟨sections⟩ := f
  match sections, hlength with
  | s :: t :: rest, _ => exact if_neg (by rw [hf]; exact Bool.false_ne_true)

/-- Two to four sections without conditions ask for a sign that a decimal NaN does not have. -/
lemma select_eq_error (hf : f.hasConditions = false) {n : Number} (hn : n.IsDecimalNan)
    (hlength : f.sections.length ∈ [2, 3, 4]) :
    f.select (.number n) = .error .decimalInvalid := by
  have htwo : 2 ≤ f.sections.length := by
    simp only [List.mem_cons, List.not_mem_nil, or_false] at hlength
    omega
  rw [select, choose_eq_chooseBySign htwo hf, chooseBySign_of_isDecimalNan hn, if_pos hlength]
  rfl

/-- Without conditions a format has a section for every value, unless it has to ask for the sign of
a decimal NaN. -/
theorem exists_section (hne : f.sections ≠ []) (hf : f.hasConditions = false) {v : CellValue}
    (hv : v.IsDecimalNan → f.sections.length ∉ [2, 3, 4]) :
    ∃ s ∈ f.sections, f.select v = .ok (some s) := by
  obtain hone | hmore : f.sections.length = 1 ∨ 2 ≤ f.sections.length := by
    have := List.length_pos_iff.mpr hne
    omega
  · obtain ⟨sections⟩ := f
    obtain ⟨s, rfl⟩ := List.length_eq_one_iff.mp hone
    exact ⟨s, List.mem_singleton_self s, rfl⟩
  by_cases hnan : v.IsDecimalNan
  · obtain ⟨n, rfl⟩ : ∃ n, v = .number n := by
      cases v with
      | text s => exact hnan.elim
      | number n => exact ⟨n, rfl⟩
    refine ⟨f.sections.head hne, List.head_mem hne, ?_⟩
    rw [select, choose_eq_chooseBySign hmore hf, chooseBySign_of_isDecimalNan hnan,
      if_neg (hv hnan)]
    exact congrArg Except.ok (List.head?_eq_getElem?.symm.trans (List.head?_eq_some_head hne))
  · have hcomparable : ∀ s ∈ f.sections, s.IsComparable := by
      intro s hs c hc
      rw [condition_eq_none hf hs] at hc
      cases hc
    obtain ⟨s, hs⟩ := exists_chosen id hne (fun s => condition_eq_none hf) v
    exact ⟨s, mem_of_chosen id hs, (select_eq_chosen hmore hcomparable hnan).trans
      (congrArg Except.ok hs)⟩

end Format

/-! ## Numbers that are not finite -/

lemma Number.exists_text_of_not_isFinite {n : Number} (hn : n.isFinite = false) :
    ∃ text, n.text = .ok text := by
  cases n with
  | int i => cases hn
  | _ => exact ⟨_, rfl⟩

/-- A format without conditions shows an infinity or a NaN by its own text, in the color of the
section for it, unless it is one of two to four sections and the value a decimal NaN: then it cannot
find a section, which is a fault. -/
theorem render_of_not_isFinite {format : String} {f : Format} (hparse : Format.parse format = .ok f)
    (hne : f.sections ≠ []) (hf : f.hasConditions = false) {n : Number}
    (hn : n.isFinite = false) :
    (n.IsDecimalNan → f.sections.length ∈ [2, 3, 4] →
      f.select (.number n) = .error .decimalInvalid ∧
      render (CellValue.number n).toValue (.text format) = .error .decimalInvalid) ∧
    ((n.IsDecimalNan → f.sections.length ∉ [2, 3, 4]) →
      ∃ s text, f.select (.number n) = .ok (some s) ∧ n.text = .ok text ∧
        render (CellValue.number n).toValue (.text format) =
          .ok ⟨String.ofList text, s.color⟩) := by
  rw [render_of_parse hparse]
  constructor
  · intro hnan hlength
    have hselect := Format.select_eq_error hf hnan hlength
    refine ⟨hselect, ?_⟩
    rw [Format.renderCell, Format.verdict, hselect]
    rfl
  · intro hasked
    obtain ⟨s, -, hselect⟩ := Format.exists_section (v := .number n) hne hf hasked
    obtain ⟨text, htext⟩ := Number.exists_text_of_not_isFinite hn
    have hverdict : f.verdict (.number n) = .ok (.applies s) := Format.verdict_of_select hf hselect
    have hshown : s.showNumber n = .ok text := by
      rw [Section.showNumber, hn]
      exact htext
    refine ⟨s, text, hselect, htext, ?_⟩
    rw [Format.renderCell_of_verdict hverdict, Verdict.render, Section.showCell, hshown]
    rfl

/-- An infinity below zero is shown in the color of the second section. -/
theorem render_of_not_isFinite_infinity :
    render (.decimal (.infinity true)) (.text "0;[Blue]0;[Green]0") =
      .ok ⟨"-Infinity", some "Blue"⟩ := by
  have hparse : Format.parse "0;[Blue]0;[Green]0" = .ok ⟨[
      { parts := [.placeholder .zero] },
      { color := some "Blue", parts := [.placeholder .zero] },
      { color := some "Green", parts := [.placeholder .zero] }]⟩ := rfl
  obtain ⟨s, text, hselect, htext, hrender⟩ :=
    (render_of_not_isFinite (n := .decimal (.infinity true)) hparse (by decide) rfl rfl).2 nofun
  obtain rfl := Option.some.inj (Except.ok.inj hselect)
  obtain rfl := Except.ok.inj htext
  exact hrender

/-- A decimal that is not a number is not shown by two sections, though a binary one is. -/
theorem render_decimalNan :
    (∃ f, Format.parse "0;0" = .ok f ∧ f.sections ≠ [] ∧ f.hasConditions = false) ∧
      render (.decimal (.nan false false 0)) (.text "0;0") = .error .decimalInvalid ∧
      render (.float .nan) (.text "0;0") = .ok ⟨"nan", none⟩ := by
  refine ⟨⟨_, rfl, ?_, ?_⟩, rfl, rfl⟩
  · decide
  · rfl

end FormatCode
