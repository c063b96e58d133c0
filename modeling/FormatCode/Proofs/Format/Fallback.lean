import FormatCode.Event
import FormatCode.Proofs.Format.Verdict

/-!
# Values that a format does not show

A value is shown as it is, without a color and with one event on record, where no section of the
format is for it. The section is first selected and its condition then asked again, and the two
decisions agree: for a number the condition of a section that stands alone is asked once, and that
of a section among others never rejects what the section was selected for. Text satisfies no
condition, and its section is selected without regard to them.

## Main definitions

* `Format.textSection` — the section for text.
* `Format.Excludes` — whether no section is for a value.
* `Format.Outcome` — how a format comes to each verdict.
* `Format.FallsBack` — whether a value is shown as it is, and that on record.

## Main statements

* `Format.outcome_of_verdict` — a verdict is reached in one of three ways.
* `Format.excludes_iff_of_outcome` — a section applies to a value unless the format excludes it.
* `Format.fallsBack_iff_excludes` — the values that are shown as they are.
-/

namespace FormatCode

/-! ## The item chosen for a number -/

section chosen

variable {α : Type} {sectionOf : α → Section} {items : List α} {n : Number}

/-- The section chosen for a number has no condition or one that accepts the number. -/
lemma accepts_of_chosen {a : α} (h : chosen sectionOf items (.number n) = some a) :
    (sectionOf a).condition = none ∨ (sectionOf a).accepts (.number n) := by
  by_cases hany : items.any fun a => (sectionOf a).condition.isSome
  · rw [chosen, if_pos hany] at h
    obtain haccepts | ⟨-, hnone⟩ := Option.or_eq_some_iff.mp h
    · have := List.find?_some haccepts
      exact .inr this
    · have := List.find?_some hnone
      exact .inl (Option.isNone_iff_eq_none.mp this)
  · have hcondition : ∀ a ∈ items, (sectionOf a).condition = none := by simpa using hany
    exact .inl (hcondition a (mem_of_chosen sectionOf h))

/-- Nothing is chosen for a number only where every section has a condition, and none accepts. -/
lemma not_accepts_of_chosen_eq_none (hitems : items ≠ [])
    (h : chosen sectionOf items (.number n) = none) {a : α} (ha : a ∈ items) :
    (sectionOf a).condition.isSome ∧ (sectionOf a).accepts (.number n) = false := by
  by_cases hany : items.any fun a => (sectionOf a).condition.isSome
  · rw [chosen, if_pos hany, Option.or_eq_none_iff, List.find?_eq_none, List.find?_eq_none] at h
    obtain ⟨haccepts, hcondition⟩ := h
    have hsome := mt Option.isNone_iff_eq_none.mpr (hcondition a ha)
    exact ⟨Option.isSome_iff_ne_none.mpr hsome, Bool.eq_false_iff.mpr (haccepts a ha)⟩
  · have hcondition : ∀ a ∈ items, (sectionOf a).condition = none := by simpa using hany
    obtain ⟨b, hb⟩ := exists_chosen sectionOf hitems hcondition (.number n)
    cases h.symm.trans hb

end chosen

/-! ## Deciding on text, integers and binary numbers -/

section decides

variable {v : CellValue}

lemma CellValue.not_isDecimalNan (hv : ∀ d, v ≠ .number (.decimal d)) : ¬ v.IsDecimalNan := by
  rcases v with text | n
  · exact id
  · cases n with
    | decimal d => exact absurd rfl (hv d)
    | _ => exact id

/-- A section decides on text, integers and binary numbers, even if the threshold is a NaN. -/
lemma Section.decides_of_isNumeric {s : Section} (hs : ∀ c ∈ s.condition, c.IsNumeric)
    (hv : ∀ d, v ≠ .number (.decimal d)) : s.Decides v := by
  refine decides_of_accepts fun c hc => ?_
  rcases v with text | n
  · exact ⟨false, rfl⟩
  · refine (hs c hc).exists_accepts ?_
    cases n with
    | decimal d => exact absurd rfl (hv d)
    | _ => rfl

end decides

namespace Format

variable {f : Format} {v : CellValue}

/-! ## Selecting a section -/

def textSection (f : Format) : Option Section :=
  if f.sections.length = 4 then f.sections[3]? else f.sections.head?

lemma select_text (f : Format) (text : String) : f.select (.text text) = .ok f.textSection := by
  obtain ⟨sections⟩ := f
  match sections with
  | [] => rfl
  | [s] => rfl
  | s :: t :: rest =>
    simp only [select, choose, textSection, Except.map, Option.bind_some]
    split <;> rfl

lemma textSection_eq_none_iff : f.textSection = none ↔ f.sections = [] := by
  unfold textSection
  split
  · next hlength =>
    rw [List.getElem?_eq_none_iff, ← List.length_eq_zero_iff]
    omega
  · exact List.head?_eq_none_iff

/-! ## Reaching a verdict -/

/-- How a format comes to a verdict: the section that it selects applies to the value unless it has
a condition that rejects it. -/
inductive Outcome (f : Format) (v : CellValue) : Verdict → Prop
  | applies {s : Section} (select : f.select v = .ok (some s))
      (accepts : ∀ c ∈ s.condition, c.accepts v.toValue = .ok true) : Outcome f v (.applies s)
  | unmatched (select : f.select v = .ok none) : Outcome f v .unmatched
  | rejected {s : Section} {c : Condition} (select : f.select v = .ok (some s))
      (condition : s.condition = some c) (rejects : c.accepts v.toValue = .ok false) :
      Outcome f v (.rejected c)

theorem outcome_of_verdict {verdict : Verdict} (h : f.verdict v = .ok verdict) :
    f.Outcome v verdict := by
  unfold Format.verdict at h
  cases hselect : f.select v with
  | error e => simp [hselect, bind, Except.bind] at h
  | ok selected =>
    rw [hselect] at h
    cases selected with
    | none =>
      obtain rfl := Except.ok.inj h
      exact .unmatched hselect
    | some s =>
      cases hc : s.condition with
      | none =>
        simp only [bind, Except.bind, hc] at h
        obtain rfl := Except.ok.inj h
        exact .applies hselect (by simp [hc])
      | some c =>
        cases haccepts : c.accepts v.toValue with
        | error e => simp [bind, Except.bind, hc, haccepts] at h
        | ok accepted =>
          cases accepted <;> simp only [bind, Except.bind, hc, haccepts] at h
          · obtain rfl := Except.ok.inj h
            exact .rejected hselect hc haccepts
          · obtain rfl := Except.ok.inj h
            exact .applies hselect (by simp [hc, haccepts])

/-! ## Values that no section is for -/

/-- Whether no section is for a value: there is none, or the conditions of all of them reject the
number, or the section for text has a condition. -/
def Excludes (f : Format) (v : CellValue) : Prop :=
  f.sections = [] ∨ match v with
    | .text _ => ∃ s, f.textSection = some s ∧ s.condition.isSome
    | .number _ => ∀ s ∈ f.sections, ∃ c, s.condition = some c ∧ c.accepts v.toValue = .ok false

/-- The condition of a section among others is not asked in vain: it accepts the number that the
section was selected for. -/
lemma accepts_of_select (hlength : 2 ≤ f.sections.length) {n : Number}
    (hs : ∀ s ∈ f.sections, s.Decides (.number n)) (hn : ¬ n.IsDecimalNan) {s : Section}
    (h : f.select (.number n) = .ok (some s)) {c : Condition} (hc : s.condition = some c) :
    c.accepts (CellValue.number n).toValue = .ok true := by
  have hchosen : chosen id f.sections (.number n) = some s :=
    Except.ok.inj ((select_eq_chosen_of_decides hlength hs hn).symm.trans h)
  obtain hnone | haccepts := accepts_of_chosen hchosen
  · cases hc.symm.trans hnone
  · rw [Section.accepts_condition (hs s (mem_of_select h)) hc]
    exact congrArg Except.ok haccepts

/-- Where no section is selected for a number, all of them have conditions that reject it. -/
lemma rejects_of_select_eq_none {n : Number} (hs : ∀ s ∈ f.sections, s.Decides (.number n))
    (hn : ¬ n.IsDecimalNan) (h : f.select (.number n) = .ok none) {s : Section}
    (hmem : s ∈ f.sections) :
    ∃ c, s.condition = some c ∧ c.accepts (CellValue.number n).toValue = .ok false := by
  have hlength : 2 ≤ f.sections.length := by
    obtain ⟨sections⟩ := f
    match sections with
    | [] => cases hmem
    | [s] => cases h
    | s :: t :: rest => simp
  have hchosen : chosen id f.sections (.number n) = none :=
    Except.ok.inj ((select_eq_chosen_of_decides hlength hs hn).symm.trans h)
  obtain ⟨hcondition, haccepts⟩ :=
    not_accepts_of_chosen_eq_none (List.ne_nil_of_mem hmem) hchosen hmem
  obtain ⟨c, hc : s.condition = some c⟩ := Option.isSome_iff_exists.mp hcondition
  refine ⟨c, hc, ?_⟩
  rw [Section.accepts_condition (hs s hmem) hc]
  exact congrArg Except.ok haccepts

/-- A section that applies to a value has no condition or one that accepts it, so the value is not
excluded. -/
lemma not_excludes_of_select {s : Section} (h : f.select v = .ok (some s))
    (haccepts : ∀ c ∈ s.condition, c.accepts v.toValue = .ok true) : ¬ f.Excludes v := by
  have hmem := mem_of_select h
  rintro (hnil | hexcludes)
  · rw [hnil] at hmem
    cases hmem
  cases v with
  | text text =>
    obtain ⟨t, ht, hcondition⟩ := hexcludes
    obtain rfl : s = t := by
      rw [select_text, ht] at h
      exact (Option.some.inj (Except.ok.inj h)).symm
    obtain ⟨c, hc⟩ := Option.isSome_iff_exists.mp hcondition
    cases haccepts c hc
  | number n =>
    obtain ⟨c, hc, hrejects⟩ := hexcludes s hmem
    cases hrejects.symm.trans (haccepts c hc)

/-- A section applies to a value unless the format excludes it. -/
theorem excludes_iff_of_outcome (hs : ∀ s ∈ f.sections, s.Decides v) (hv : ¬ v.IsDecimalNan)
    {verdict : Verdict} (h : f.Outcome v verdict) :
    f.Excludes v ↔ ∀ s, verdict ≠ .applies s := by
  cases h with
  | applies hselect haccepts =>
    have := not_excludes_of_select hselect haccepts
    simpa using this
  | unmatched hselect =>
    refine iff_of_true ?_ nofun
    cases v with
    | text text =>
      rw [select_text] at hselect
      exact .inl (textSection_eq_none_iff.mp (Except.ok.inj hselect))
    | number n => exact .inr fun s => rejects_of_select_eq_none hs hv hselect
  | @rejected s c hselect hc hrejects =>
    refine iff_of_true (.inr ?_) nofun
    cases v with
    | text text =>
      rw [select_text] at hselect
      exact ⟨s, Except.ok.inj hselect, Option.isSome_iff_exists.mpr ⟨c, hc⟩⟩
    | number n =>
      -- Among others the section would not have been selected, so it stands alone.
      obtain ⟨sections⟩ := f
      match sections with
      | [] => exact nofun
      | [t] =>
        obtain rfl : t = s := Option.some.inj (Except.ok.inj hselect)
        simpa using ⟨c, hc, hrejects⟩
      | _ :: _ :: _ =>
        have haccepts := accepts_of_select (by simp) hs hv hselect hc
        cases hrejects.symm.trans haccepts

/-! ## What is shown and recorded -/

lemma render_toValue (f : Format) (v : CellValue) : f.render v.toValue = f.renderCell v := by
  rw [render, Value.toCell_toValue]
  rfl

lemma events_of_verdict {verdict : Verdict} (h : f.verdict v = .ok verdict) :
    f.events v.toValue = verdict.events v := by
  simp only [events, Value.toCell_toValue, h]

/-- Whether a value is shown as it is, without a color, and that it is so is on record once. -/
def FallsBack (f : Format) (v : CellValue) : Prop :=
  f.render v.toValue = v.plainText.map (fun text => ⟨String.ofList text, none⟩) ∧
    (f.events v.toValue = [.unmatched v] ∨ ∃ c, f.events v.toValue = [.rejected c v])

/-- A format whose conditions compare with integers and binary numbers shows text, an integer or a
binary number as it is exactly if no section is for it. Otherwise nothing is recorded, and the
section that is selected, which has no condition or one that accepts the value, shows it in its
color. Among two or more sections one that is selected for a number never rejects it. -/
theorem fallsBack_iff_excludes (hf : ∀ s ∈ f.sections, ∀ c ∈ s.condition, c.IsNumeric)
    (hv : ∀ d, v ≠ .number (.decimal d)) :
    (f.FallsBack v ↔ f.Excludes v) ∧
      (¬ f.Excludes v → f.events v.toValue = [] ∧ ∃ s, f.select v = .ok (some s) ∧
        f.render v.toValue = (s.showCell v).map (fun text => ⟨String.ofList text, s.color⟩) ∧
        ∀ c ∈ s.condition, c.accepts v.toValue = .ok true) ∧
      ((∃ n, v = .number n) → 2 ≤ f.sections.length → ∀ s, f.select v = .ok (some s) →
        ∀ c ∈ s.condition, c.accepts v.toValue = .ok true) := by
  have hnan : ¬ v.IsDecimalNan := CellValue.not_isDecimalNan hv
  have hs : ∀ s ∈ f.sections, s.Decides v :=
    fun s hmem => Section.decides_of_isNumeric (hf s hmem) hv
  obtain ⟨verdict, hverdict⟩ := exists_verdict_of_decides hs hnan
  have houtcome := outcome_of_verdict hverdict
  have hexcludes := excludes_iff_of_outcome hs hnan houtcome
  have hrender := (render_toValue f v).trans (renderCell_of_verdict hverdict)
  have hevents := events_of_verdict hverdict
  refine ⟨?_, ?_, ?_⟩
  · rw [hexcludes, FallsBack, hrender, hevents]
    cases verdict <;> simp [Verdict.render, Verdict.events]
  · intro hnot
    rw [hexcludes] at hnot
    cases houtcome with
    | applies hselect haccepts => exact ⟨hevents, _, hselect, hrender, haccepts⟩
    | unmatched => simp at hnot
    | rejected => simp at hnot
  · rintro ⟨n, rfl⟩ hlength s hselect c hc
    exact accepts_of_select hlength hs hnan hselect hc

/-- Nothing is at most a NaN and everything is unequal to one, so five is shown by the second of
these sections, and by neither if both are the first. -/
theorem fallsBack_iff_excludes_nan :
    let never : Section := { condition := some ⟨"<=", .float .nan⟩, parts := [.placeholder .zero] }
    let always : Section :=
      { color := some "Red", condition := some ⟨"<>", .float .nan⟩, parts := [.placeholder .zero] }
    FallsBack ⟨[never, never]⟩ (.number (.int 5)) ∧
      events ⟨[never, always]⟩ (.int 5) = [] ∧
      render ⟨[never, always]⟩ (.int 5) = .ok ⟨"5", some "Red"⟩ := by
  intro never always
  have hnever : ∀ c ∈ never.condition, c.IsNumeric := by
    rintro c ⟨⟩
    exact ⟨⟨.atMost, rfl⟩, trivial⟩
  have halways : ∀ c ∈ always.condition, c.IsNumeric := by
    rintro c ⟨⟩
    exact ⟨⟨.unequal, rfl⟩, trivial⟩
  have hexcludes : Excludes ⟨[never, never]⟩ (.number (.int 5)) := by
    refine .inr fun s hs => ?_
    obtain rfl : s = never := by simpa using hs
    exact ⟨_, rfl, rfl⟩
  have hincludes : ¬ Excludes ⟨[never, always]⟩ (.number (.int 5)) := by
    rintro (hnil | hrejects)
    · cases hnil
    · obtain ⟨c, ⟨⟩, hc⟩ := hrejects always (by simp)
      cases hc
  have hboth := fallsBack_iff_excludes (f := ⟨[never, never]⟩) (v := .number (.int 5))
    (by simpa using hnever) nofun
  have hmixed := fallsBack_iff_excludes (f := ⟨[never, always]⟩) (v := .number (.int 5))
    (by simpa using ⟨hnever, halways⟩) nofun
  obtain ⟨hevents, s, hselect, hrender, -⟩ := hmixed.2.1 hincludes
  obtain rfl : always = s := Option.some.inj (Except.ok.inj hselect)
  exact ⟨hboth.1.mpr hexcludes, hevents, hrender.trans (by decide +kernel)⟩

end Format

end FormatCode
